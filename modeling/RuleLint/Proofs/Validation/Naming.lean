import RuleLint.Proofs.Module.Directories
import RuleLint.Proofs.Validation.Requests

/-!
# Which modules dependencies are

A dependency comes from the file that a reference leads to. It is the module of the reference's name
unless the run knew its file by another name too: as a file that was loaded by itself while it
declared that name, or as the file that a reference to that name led to.
-/

namespace RuleLint

open File (Path Location FileSystem)
open Image (Reference)

namespace Run

variable (run : Run)

/-- A request of the run loaded the file itself, while its image declared the name. -/
def LoadedAs (place : Location) (name : String) : Prop :=
  ∃ fs request directory wanted bytes image, (fs, request) ∈ run.moments ∧
    request.Targets run.subsystem fs place directory wanted ∧ fs.readAt place = .ok bytes ∧
    Image.decode bytes = .ok image ∧ wanted image = true ∧ image.name = name

/-- A reference to the name led to the file, in the directory of a request of the run. -/
def LedTo (place : Location) (name : String) : Prop :=
  ∃ fs request location directory wanted bytes, (fs, request) ∈ run.moments ∧
    request.Targets run.subsystem fs location directory wanted ∧
    (run.start.loader.scope directory).resolveFile fs name = .ok (place, bytes)

/-- The file was asked for by one name and known by another. -/
def Misnames (place : Location) (asked declared : String) : Prop :=
  asked ≠ declared ∧ run.LedTo place asked ∧ (run.LoadedAs place declared ∨ run.LedTo place declared)

/-- The dependencies of the module answer references of its image, in their order and by the names
that were asked for, but for files that the run misnames. -/
structure Answers (x : Module) : Prop where
  each : List.SublistForall₂ (fun d r => d.name = r.name ∨ run.Misnames d.location r.name d.name)
    x.dependencies x.image.references
  names : (∀ place asked declared, ¬ run.Misnames place asked declared) →
    (x.dependencies.map Module.name).Sublist (x.image.references.map (·.name))

structure Knows (place : Location) (m : Module) : Prop where
  location : m.location = place
  name : run.LoadedAs place m.name ∨ run.LedTo place m.name
  answers : ∀ x ∈ m.tree, run.Answers x

variable {run} {fs : FileSystem} {request : Request} {location place : Location}
  {directory : Path} {wanted : Image → Bool} {stack : List String} {image : Image}
  {links : List Link}

theorem LedTo.getLast? (noSlash : '/' ∉ run.settings.extension.toList) {name : String}
    (led : run.LedTo place name) : place.getLast? = some (imageFile run.settings.extension name) := by
  obtain ⟨fs, request, location, directory, wanted, bytes, -, -, found⟩ := led
  exact Scope.getLast?_of_resolveFile noSlash found

theorem Misnames.loadedAs (noSlash : '/' ∉ run.settings.extension.toList) {asked declared : String}
    (misnamed : run.Misnames place asked declared) : run.LoadedAs place declared := by
  obtain ⟨differ, led, loaded | led'⟩ := misnamed
  · exact loaded
  · have called := led.getLast? noSlash
    rw [led'.getLast? noSlash] at called
    exact absurd (imageFile_injective (Option.some.inj called)).symm differ

theorem answers_of_each {x : Module}
    (each : List.SublistForall₂ (fun d r => d.name = r.name ∨ run.Misnames d.location r.name d.name)
      x.dependencies x.image.references) : run.Answers x := by
  refine ⟨each, fun named => ?_⟩
  obtain ⟨followed, names, part⟩ := List.sublistForall₂_iff.mp each
  have same : List.Forall₂ (· = ·) (x.dependencies.map Module.name) (followed.map (·.name)) := by
    rw [List.forall₂_map_left_iff, List.forall₂_map_right_iff]
    exact names.imp fun d r answer => answer.resolve_right (named _ _ _)
  rw [List.forall₂_eq_eq_eq] at same
  exact same ▸ part.map _

theorem knows_of_answers (member : (fs, request) ∈ run.moments)
    (target : request.Targets run.subsystem fs location directory wanted)
    (answers : List.Forall₂ (Answer fs (run.start.loader.scope directory) stack run.Knows)
      image.references links) (m : Module) (shape : m.image = image)
    (dependencies : m.dependencies = links.filterMap Link.module?) (here : m.location = place)
    (name : run.LoadedAs place m.name ∨ run.LedTo place m.name) : run.Knows place m := by
  have led {r : Reference} {place bytes}
      (leads : (run.start.loader.scope directory).resolve fs r.name = .image place bytes) :
      run.LedTo place r.name :=
    ⟨fs, request, location, directory, wanted, bytes, member, target,
      (Scope.resolve_eq_image.mp leads).2⟩
  refine ⟨here, name, Module.forall_mem_tree.mpr ⟨?_, ?_⟩⟩
  · have part : (image.references.filter fun r => r.name ∉ stack ∧
        r.name ∉ (run.start.loader.scope directory).hosts).Sublist m.image.references := by
      rw [shape]
      exact List.filter_sublist
    refine answers_of_each (List.sublistForall₂_iff.mpr ⟨_, ?_, part⟩)
    rw [dependencies]
    refine List.Forall₂.flip ((Answer.dependencies answers).imp ?_)
    rintro r d ⟨place, bytes, leads, known⟩
    rw [← known.location] at leads
    by_cases same : d.name = r.name
    · exact .inl same
    · exact .inr ⟨Ne.symm same, led leads, known.location ▸ known.name⟩
  · intro d dependency
    rw [dependencies] at dependency
    obtain ⟨r, -, -, place, bytes, -, known⟩ := Answer.of_dependency answers dependency
    exact known.answers

theorem keeps_knows (member : (fs, request) ∈ run.moments)
    (target : request.Targets run.subsystem fs location directory wanted) :
    Keeps fs (run.start.loader.scope directory) run.settings.cachePolicy
      (fun place e => run.Knows place e.module) run.Knows fun _ _ => True where
  hit _ known _ := known
  enter _ _ _ _ := trivial
  new := by
    intro stack image place bytes links _ _ found answers l
    have led : run.LedTo place image.name :=
      ⟨fs, request, location, directory, wanted, bytes, member, target,
        (Scope.resolve_eq_image.mp (Scope.find_eq_image.mp found).1).2⟩
    have known := knows_of_answers member target answers
      (l.built place (.ofBytes bytes) image links) rfl rfl rfl (.inr led)
    exact ⟨known, known⟩

theorem knows_of_load {l l' : Loader} {result : Except LoadError (Option Module)}
    (member : (fs, request) ∈ run.moments)
    (target : request.Targets run.subsystem fs location directory wanted)
    (load : Loads fs (run.start.loader.scope directory) location wanted l result l')
    (ruled : l.cache.policy = run.settings.cachePolicy)
    (holds : l.Holds fun place e => run.Knows place e.module) :
    (l'.Holds fun place e => run.Knows place e.module) ∧
      ∀ {m}, result = .ok (some m) → run.Knows location m := by
  refine load.keeps (keeps_knows member target) (fun known _ => known) (fun _ _ => trivial) ?_
    ruled holds
  intro bytes image links read decoded accepted answers l
  have loaded : run.LoadedAs location image.name :=
    ⟨fs, request, directory, wanted, bytes, image, member, target, read, decoded, accepted, rfl⟩
  have known := knows_of_answers member target answers
    (l.built location (.ofBytes bytes) image links) rfl rfl rfl (.inl loaded)
  exact ⟨known, known⟩

theorem holds_knows {moments : List (FileSystem × Request)} (part : moments ⊆ run.moments) :
    (run.start.run moments).loader.Holds fun place e => run.Knows place e.module :=
  holds_of_loads (fun member target load settings holds =>
    (knows_of_load member target load (congrArg Settings.cachePolicy settings) holds).1) part

end Run

theorem Run.dependencies_answer (run : Run) :
    (∀ place e, run.finish.loader.cache.entry? place = some e → ∀ x ∈ e.module.tree,
      run.Answers x) ∧
    (∀ fs path m, (run.finish.loader.load fs path).1 = .ok m → ∀ x ∈ m.tree,
      (run.next fs (.load path)).Answers x) ∧
    (∀ fs directory path wanted m,
      (run.finish.loader.loadIf fs (run.finish.loader.scope directory) path wanted).1 =
        .ok (some m) → ∀ x ∈ m.tree, (run.next fs (.loadIf directory path wanted)).Answers x) ∧
    ('/' ∉ run.settings.extension.toList → ∀ place asked declared,
      run.Misnames place asked declared →
        place.getLast? = some (imageFile run.settings.extension asked) ∧
          run.LoadedAs place declared) := by
  -- What a load hands out is known to the run of which the load is the last moment.
  have returned {fs request location directory wanted result l'}
      (target : request.Targets run.subsystem fs location directory wanted)
      (loads : Loads fs (run.finish.loader.scope directory) location wanted run.finish.loader
        result l') {m : Module} (answer : result = .ok (some m)) :
      ∀ x ∈ m.tree, (run.next fs request).Answers x := by
    have holds : run.finish.loader.Holds fun place e => (run.next fs request).Knows place e.module :=
      holds_knows (List.subset_append_left _ _)
    rw [scope_finish] at loads
    have last : (fs, request) ∈ (run.next fs request).moments :=
      List.mem_append_right _ (by simp)
    exact ((knows_of_load last target loads (congrArg Settings.cachePolicy run.settings_finish)
      holds).2 answer).answers
  refine ⟨?_, ?_, ?_, ?_⟩
  · intro place e entry
    exact (holds_knows (List.Subset.refl _) place e entry).answers
  · intro fs path m loaded
    cases leads : fs.canonicalize path with
    | error cause => simp [Loader.load_of_error leads] at loaded
    | ok location =>
        have loads := Loader.loadAtIf_loads fs
          (run.finish.loader.scope (Location.path location.dropLast)) location (fun _ => true)
          run.finish.loader
        rw [Loader.loadAt_eq, ← Loader.load_of_ok leads, loaded] at loads
        exact returned (.load leads) loads rfl
  · intro fs directory path wanted m loaded
    cases leads : fs.canonicalize path with
    | error cause => simp [Loader.loadIf, Loader.locate, leads] at loaded
    | ok location =>
        simp only [Loader.loadIf, Loader.locate_of_ok leads] at loaded
        exact returned (.loadIf leads) (Loader.loadAtIf_loads ..) loaded
  · intro noSlash place asked declared misnamed
    exact ⟨misnamed.2.1.getLast? noSlash, misnamed.loadedAs noSlash⟩

/-! A file that was loaded by itself answers a reference to its file name, whatever it declares. -/

namespace Misnamed

def other : Image := .referring "Other" []

def app : Image := .referring "App" ["Shared"]

def files : FileSystem where
  entries := [(["Shared.rmod"], .file other.encode), (["App.rmod"], .file app.encode)]
  workingDirectory := []

def shared : Module := ⟨["Shared.rmod"], .ofBytes other.encode, other, [], [], 1⟩

def warm : Loader where
  extension := "rmod"
  hosts := ["core"]
  cache := ⟨.fingerprint, [(["Shared.rmod"], ⟨.ofBytes other.encode, shared⟩)]⟩
  loads := 1
  scopes := .empty

theorem decodes : ∀ image ∈ [other, app], Image.decode image.encode = .ok image :=
  decodes_of_short (by decide +kernel)

theorem load_shared : (Loader.new .default).load files ⟨"/Shared.rmod"⟩ = (.ok shared, warm) := by
  have leads : files.canonicalize ⟨"/Shared.rmod"⟩ = .ok ["Shared.rmod"] := rfl
  rw [Loader.load_of_ok leads,
    Loader.loadAt_of_follows rfl rfl (decodes other (by simp)) .nil rfl]
  rfl

theorem recollect_shared :
    warm.recollect files (warm.scope ⟨"/"⟩) "Shared" = (some shared, warm) := by
  have leads : (warm.scope ⟨"/"⟩).resolve files "Shared" =
      .image ["Shared.rmod"] other.encode := rfl
  rw [Loader.recollect_of_image leads]
  exact Loader.current_of_entry (e := ⟨.ofBytes other.encode, shared⟩) rfl rfl rfl

def run : Run := ⟨.default, Rule.expressive .builtin, [(files, .load ⟨"/Shared.rmod"⟩)]⟩

def linked : Module := ⟨["App.rmod"], .ofBytes app.encode, app, [shared], [], 2⟩

theorem load_app : (run.finish.loader.load files ⟨"/App.rmod"⟩).1 = .ok linked := by
  have before : run.finish.loader = warm := congrArg Prod.snd load_shared
  have walk : Follows files (warm.scope ⟨"/"⟩) ["App"] "App" app.references ⟨warm, []⟩
      [.module shared] ⟨warm, []⟩ := .cached (by decide) recollect_shared .nil
  have leads : files.canonicalize ⟨"/App.rmod"⟩ = .ok ["App.rmod"] := rfl
  have read : files.readAt ["App.rmod"] = .ok app.encode := rfl
  have loaded := Loader.loadAt_of_follows rfl read (decodes app (by simp)) walk rfl
  rw [before, Loader.load_of_ok leads]
  exact congrArg Prod.fst loaded

theorem answers : ∀ x ∈ linked.tree, (run.next files (.load ⟨"/App.rmod"⟩)).Answers x :=
  (Run.dependencies_answer run).2.1 files ⟨"/App.rmod"⟩ linked load_app

end Misnamed

theorem Run.exists_misnamed_dependency :
    ¬ ∀ (run : Run) fs path m, (run.finish.loader.load fs path).1 = .ok m →
      (m.dependencies.map Module.name).Sublist (m.image.references.map (·.name)) := by
  intro each
  exact absurd (each _ _ _ _ Misnamed.load_app) (by decide)

end RuleLint
