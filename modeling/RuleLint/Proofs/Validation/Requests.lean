import RuleLint.Proofs.Module.Loads
import RuleLint.Proofs.Rule.Lookup
import RuleLint.Validator

namespace RuleLint

open File (Path Location FileSystem)
open Rule (Subsystem Toolchain expressive)

inductive Request
  | load (path : Path)
  | loadIf (directory path : Path) (wanted : Image → Bool)
  | check (path : Path)
  | ruleSites (path : Path)
  | invalidate (path : Path)
  | clear

/-- The request loads the module at `location` if its image is wanted, and its references are looked
for in `directory`. -/
inductive Request.Targets (subsystem : Subsystem) (fs : FileSystem) :
    Request → Location → Path → (Image → Bool) → Prop
  | load {path : Path} {location : Location} (leads : fs.canonicalize path = .ok location) :
      Targets subsystem fs (.load path) location (Location.path location.dropLast) fun _ => true
  | loadIf {directory path : Path} {wanted : Image → Bool} {location : Location}
      (leads : fs.canonicalize path = .ok location) :
      Targets subsystem fs (.loadIf directory path wanted) location directory wanted
  | check {path : Path} {location : Location} (leads : fs.canonicalize path = .ok location) :
      Targets subsystem fs (.check path) location (Location.path location.dropLast)
        (Rule.isRelevant subsystem)
  | ruleSites {path : Path} {location : Location} (leads : fs.canonicalize path = .ok location) :
      Targets subsystem fs (.ruleSites path) location (Location.path location.dropLast)
        (Rule.isRelevant subsystem)

theorem Request.Targets.leads {subsystem : Subsystem} {fs : FileSystem} {request : Request}
    {location : Location} {directory : Path} {wanted : Image → Bool}
    (target : request.Targets subsystem fs location directory wanted) :
    ∃ path, fs.canonicalize path = .ok location := by
  cases target with
  | load leads | loadIf leads | check leads | ruleSites leads => exact ⟨_, leads⟩

/-- The request drops nothing from the cache. -/
def Request.Lasting : Request → Prop
  | .invalidate _ | .clear => False
  | _ => True

def Shows (fs : FileSystem) (path : Path) (location : Location) (image : Image) : Prop :=
  ∃ bytes, fs.canonicalize path = .ok location ∧ fs.readAt location = .ok bytes ∧
    Image.decode bytes = .ok image

theorem Shows.eq {fs : FileSystem} {path : Path} {location location' : Location}
    {image image' : Image} (shown : Shows fs path location image)
    (shown' : Shows fs path location' image') :
    location = location' ∧ image = image' := by
  obtain ⟨bytes, leads, read, decoded⟩ := shown
  obtain ⟨bytes', leads', read', decoded'⟩ := shown'
  rw [leads] at leads'
  cases leads'
  exact ⟨rfl, (image_unique read decoded read' decoded').2⟩

namespace Loader

variable {fs : FileSystem} {path : Path} {l : Loader} {location : Location}

theorem locate_of_ok (leads : fs.canonicalize path = .ok location) : locate fs path = .ok location := by
  simp [locate, leads]

theorem load_of_ok (leads : fs.canonicalize path = .ok location) :
    l.load fs path = l.loadAt fs (l.scope (Location.path location.dropLast)) location := by
  simp [load, scopeFor, locate_of_ok leads, Except.map]

theorem load_of_error {cause : File.FileError} (lost : fs.canonicalize path = .error cause) :
    l.load fs path = (.error (.io path cause), l) := by
  simp [load, scopeFor, locate, lost, Except.map]

theorem foldl_erase_forgets (locations : List Location) (l : Loader) :
    l.Forgets { l with cache := locations.foldl ModuleCache.erase l.cache } := by
  induction locations generalizing l with
  | nil => exact .refl l
  | cons location locations ih => exact (Forgets.erase l location).trans (ih _)

theorem invalidate_forgets : l.Forgets (l.invalidate fs path).2 := by
  unfold invalidate
  split
  · exact .refl l
  · split
    · exact .refl l
    · exact (foldl_erase_forgets _ l).trans (.erase _ _)

theorem clear_forgets : l.Forgets { l with cache := l.cache.clear } :=
  ⟨nofun, rfl⟩

end Loader

namespace Validator

variable {fs : FileSystem} {path : Path} {v : Validator} {location : Location}

/-! ## New validators -/

theorem entry?_new (settings : Settings) (subsystem : Rule.Subsystem) (place : Location) :
    ModuleCache.entry? (Validator.new settings subsystem).loader.cache place = none := by
  simp [Validator.new]

/-- The scope in which a new validator looks for references in the directory of a location. -/
def scopeBeside (settings : Settings) (tools : Toolchain) (location : Location) : Scope :=
  (Validator.new settings (expressive tools)).loader.scope (Location.path location.dropLast)

theorem scopeBeside_extension (settings : Settings) (tools : Toolchain) (location : Location) :
    (scopeBeside settings tools location).extension = settings.extension := by
  simp [scopeBeside, Validator.new, Loader.scope]

/-! ## One request -/

theorem relevant_of_ok (leads : fs.canonicalize path = .ok location) :
    v.relevant fs path =
      ((v.loader.loadAtIf fs (v.loader.scope (Location.path location.dropLast)) location
          (Rule.isRelevant v.subsystem)).1,
        { v with loader := (v.loader.loadAtIf fs (v.loader.scope (Location.path location.dropLast))
          location (Rule.isRelevant v.subsystem)).2 }) := by
  simp [relevant, Loader.scopeFor, Loader.locate_of_ok leads, Except.map]

theorem relevant_of_error {cause : File.FileError} (lost : fs.canonicalize path = .error cause) :
    v.relevant fs path = (.error (.io path cause), v) := by
  simp [relevant, Loader.scopeFor, Loader.locate, lost, Except.map]

theorem withModule_snd {α : Type} (use : Module → Except Rule.Unclassified (List α)) :
    (v.withModule fs path use).2 = (v.relevant fs path).2 := by
  unfold withModule
  split
  · simp [*]
  · simp [*]
  · split <;> simp [*]

def verdict (s : Subsystem) : Except LoadError (Option Module) →
    Except ValidateError (List Rule.CompilationError)
  | .error e => .error (.load e)
  | .ok none => .ok []
  | .ok (some m) => (Rule.compileModule s m).mapError .unclassified

theorem check_snd : (v.check fs path).2 = (v.relevant fs path).2 := withModule_snd _

theorem check_fst : (v.check fs path).1 = verdict v.subsystem (v.relevant fs path).1 := by
  unfold check withModule
  split
  · simp [verdict, *]
  · simp [verdict, *]
  · rename_i m v' loaded
    simp only [verdict, loaded]
    cases compiled : Rule.compileModule v.subsystem m <;> rfl

theorem verdict_eq_of_images {tools : Rule.Toolchain} {result result' : Except LoadError (Option Module)}
    (same : result.map (Option.map fun m => m.tree.map (·.image)) =
      result'.map (Option.map fun m => m.tree.map (·.image))) :
    verdict (Rule.expressive tools) result = verdict (Rule.expressive tools) result' := by
  cases result with
  | error e =>
      cases result' with
      | error e' =>
          cases same
          rfl
      | ok loaded' => cases same
  | ok loaded =>
      cases result' with
      | error e' => cases same
      | ok loaded' =>
          simp only [Except.map, Except.ok.injEq] at same
          cases loaded with
          | none =>
              cases loaded' with
              | none => rfl
              | some m' => cases same
          | some m =>
              cases loaded' with
              | none => cases same
              | some m' =>
                  simp only [Option.map_some, Option.some.injEq] at same
                  rw [verdict, verdict, Rule.compileModule_eq_of_images same]

def after (fs : FileSystem) (v : Validator) : Request → Validator
  | .load path => { v with loader := (v.loader.load fs path).2 }
  | .loadIf directory path wanted =>
    { v with loader := (v.loader.loadIf fs (v.loader.scope directory) path wanted).2 }
  | .check path => (v.check fs path).2
  | .ruleSites path => (v.ruleSites fs path).2
  | .invalidate path => (v.invalidate fs path).2
  | .clear => { v with loader := { v.loader with cache := v.loader.cache.clear } }

theorem relevant_subsystem : (v.relevant fs path).2.subsystem = v.subsystem := by
  cases leads : fs.canonicalize path with
  | error cause => rw [relevant_of_error leads]
  | ok location => rw [relevant_of_ok leads]

theorem relevant_loads (leads : fs.canonicalize path = .ok location) :
    Loads fs (v.loader.scope (Location.path location.dropLast)) location
      (Rule.isRelevant v.subsystem) v.loader (v.relevant fs path).1 (v.relevant fs path).2.loader := by
  rw [relevant_of_ok leads]
  exact Loader.loadAtIf_loads ..

theorem relevant_forgets {cause : File.FileError} (lost : fs.canonicalize path = .error cause) :
    v.loader.Forgets (v.relevant fs path).2.loader := by
  rw [relevant_of_error lost]
  exact .refl _

theorem after_loads (fs : FileSystem) (v : Validator) (request : Request) :
    (v.after fs request).subsystem = v.subsystem ∧
      (v.loader.Forgets (v.after fs request).loader ∨
        ∃ location directory wanted result,
          request.Targets v.subsystem fs location directory wanted ∧
            Loads fs (v.loader.scope directory) location wanted v.loader result
              (v.after fs request).loader) := by
  cases request with
  | load path =>
      refine ⟨rfl, ?_⟩
      cases leads : fs.canonicalize path with
      | error cause =>
          simp only [after, Loader.load_of_error leads]
          exact .inl (.refl _)
      | ok location =>
          have loads := Loader.loadAtIf_loads fs
            (v.loader.scope (Location.path location.dropLast)) location (fun _ => true) v.loader
          rw [Loader.loadAt_eq] at loads
          simp only [after, Loader.load_of_ok leads]
          exact .inr ⟨location, _, _, _, .load leads, loads⟩
  | loadIf directory path wanted =>
      refine ⟨rfl, ?_⟩
      cases leads : fs.canonicalize path with
      | error cause =>
          simp only [after, Loader.loadIf, Loader.locate, leads]
          exact .inl (.refl _)
      | ok location =>
          simp only [after, Loader.loadIf, Loader.locate_of_ok leads]
          exact .inr ⟨location, directory, wanted, _, .loadIf leads, Loader.loadAtIf_loads ..⟩
  | check path =>
      simp only [after, check, withModule_snd]
      refine ⟨relevant_subsystem, ?_⟩
      cases leads : fs.canonicalize path with
      | error cause => exact .inl (relevant_forgets leads)
      | ok location => exact .inr ⟨location, _, _, _, .check leads, relevant_loads leads⟩
  | ruleSites path =>
      simp only [after, ruleSites, withModule_snd]
      refine ⟨relevant_subsystem, ?_⟩
      cases leads : fs.canonicalize path with
      | error cause => exact .inl (relevant_forgets leads)
      | ok location => exact .inr ⟨location, _, _, _, .ruleSites leads, relevant_loads leads⟩
  | invalidate path => exact ⟨rfl, .inl Loader.invalidate_forgets⟩
  | clear => exact ⟨rfl, .inl Loader.clear_forgets⟩

theorem after_of_lasting {request : Request} (fs : FileSystem) (v : Validator)
    (lasting : request.Lasting) :
    (v.after fs request).loader = v.loader ∨
      ∃ location directory wanted, request.Targets v.subsystem fs location directory wanted ∧
        (v.after fs request).loader =
          (v.loader.loadAtIf fs (v.loader.scope directory) location wanted).2 := by
  cases request with
  | load path =>
      cases leads : fs.canonicalize path with
      | error cause => exact .inl (by simp only [after, Loader.load_of_error leads])
      | ok location =>
          refine .inr ⟨location, _, _, .load leads, ?_⟩
          simp only [after, Loader.load_of_ok leads, Loader.loadAt_eq]
  | loadIf directory path wanted =>
      cases leads : fs.canonicalize path with
      | error cause => exact .inl (by simp only [after, Loader.loadIf, Loader.locate, leads])
      | ok location =>
          refine .inr ⟨location, directory, wanted, .loadIf leads, ?_⟩
          simp only [after, Loader.loadIf, Loader.locate_of_ok leads]
  | check path =>
      simp only [after, check_snd]
      cases leads : fs.canonicalize path with
      | error cause => exact .inl (by rw [relevant_of_error leads])
      | ok location => exact .inr ⟨location, _, _, .check leads, by rw [relevant_of_ok leads]⟩
  | ruleSites path =>
      simp only [after, ruleSites, withModule_snd]
      cases leads : fs.canonicalize path with
      | error cause => exact .inl (by rw [relevant_of_error leads])
      | ok location => exact .inr ⟨location, _, _, .ruleSites leads, by rw [relevant_of_ok leads]⟩
  | invalidate path => exact lasting.elim
  | clear => exact lasting.elim

theorem after_settings (fs : FileSystem) (v : Validator) (request : Request) :
    (v.after fs request).loader.settings = v.loader.settings := by
  obtain ⟨-, forgets | ⟨location, directory, wanted, result, target, loads⟩⟩ :=
    after_loads fs v request
  · exact forgets.settings
  · exact loads.settings_eq

/-! ## Runs -/

def run (v : Validator) (moments : List (FileSystem × Request)) : Validator :=
  moments.foldl (fun v (fs, request) => v.after fs request) v

theorem run_keeps {P : Validator → Prop} {moments : List (FileSystem × Request)}
    (step : ∀ v fs request, (fs, request) ∈ moments → P v → P (v.after fs request))
    (start : P v) : P (v.run moments) := by
  unfold run
  induction moments generalizing v with
  | nil => exact start
  | cons moment moments ih =>
      obtain ⟨fs, request⟩ := moment
      refine ih (fun v fs request later => step v fs request (List.mem_cons_of_mem _ later)) ?_
      exact step v fs request (by simp) start

theorem run_settings (v : Validator) (moments : List (FileSystem × Request)) :
    (v.run moments).loader.settings = v.loader.settings :=
  run_keeps (P := fun w => w.loader.settings = v.loader.settings)
    (fun w fs request _ kept => (after_settings fs w request).trans kept) rfl

theorem run_subsystem (v : Validator) (moments : List (FileSystem × Request)) :
    (v.run moments).subsystem = v.subsystem :=
  run_keeps (P := fun w => w.subsystem = v.subsystem)
    (fun w fs request _ kept => (after_loads fs w request).1.trans kept) rfl

end Validator

/-- A run of requests to a validator that remembers nothing yet. -/
structure Run where
  settings : Settings
  subsystem : Subsystem
  moments : List (FileSystem × Request)

namespace Run

def start (run : Run) : Validator := ⟨Loader.new run.settings, run.subsystem⟩

def finish (run : Run) : Validator := run.start.run run.moments

def next (run : Run) (fs : FileSystem) (request : Request) : Run :=
  { run with moments := run.moments ++ [(fs, request)] }

variable {run : Run} {fs : FileSystem} {request : Request}

theorem scope_finish (directory : Path) :
    run.finish.loader.scope directory = run.start.loader.scope directory :=
  Loader.scope_eq_of_settings (Validator.run_settings _ _) directory

def scopeAt (run : Run) (directory : Location) : Scope :=
  run.start.loader.scope (Location.path directory)

theorem start_holds (K : Location → CacheEntry → Prop) : run.start.loader.Holds K := nofun

theorem settings_finish : run.finish.loader.settings = run.settings := Validator.run_settings _ _

theorem holds_of_loads {K : Location → CacheEntry → Prop}
    (step : ∀ {fs request location directory wanted l result l'}, (fs, request) ∈ run.moments →
      request.Targets run.subsystem fs location directory wanted →
      Loads fs (run.start.loader.scope directory) location wanted l result l' →
      l.settings = run.settings → l.Holds K → l'.Holds K)
    {moments : List (FileSystem × Request)} (part : moments ⊆ run.moments) :
    (run.start.run moments).loader.Holds K := by
  refine (Validator.run_keeps (v := run.start) (P := fun v => v.loader.settings = run.settings ∧
    v.subsystem = run.subsystem ∧ v.loader.Holds K) ?_ ⟨rfl, rfl, run.start_holds K⟩).2.2
  rintro v fs request member ⟨settings, subsystem, holds⟩
  obtain ⟨same, effect⟩ := v.after_loads fs request
  refine ⟨(v.after_settings fs request).trans settings, same.trans subsystem, ?_⟩
  rcases effect with forgets | ⟨location, directory, wanted, result, target, loads⟩
  · exact holds.forget forgets
  · rw [subsystem] at target
    rw [Loader.scope_eq_of_settings (l := run.start.loader) (settings.trans rfl)] at loads
    exact step (part member) target loads settings holds

end Run

end RuleLint
