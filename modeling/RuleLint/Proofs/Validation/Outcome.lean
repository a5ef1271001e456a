import RuleLint.Proofs.Module.Coverage
import RuleLint.Proofs.Module.Directories
import RuleLint.Proofs.Rule.Compiling
import RuleLint.Proofs.Validation.Requests
import RuleLint.Report

/-!
# What a validation comes to

The outcome of a new validator is decided by the files alone: by the image at the path, then by the
images that its references lead to, then by its rules (`Validator.check_outcome`).
-/

namespace RuleLint

open File (Path Location FileSystem)
open Relation (ReflTransGen)
open Rule (Toolchain CompilationError expressive candidates refusal)

def LoadError.Unread (e : LoadError) : Prop := ∀ failure, e ≠ .unresolved failure

/-- What a validation makes of an image, where `loaded` is the module that it loads. -/
structure Judgement (tools : Toolchain) (fs : FileSystem) (scope : Scope) (image : Image)
    (loaded : Except LoadError (Option Module))
    (result : Except ValidateError (List CompilationError)) : Prop where
  read : ∀ e, result = .error (.load e) → ¬ e.Unread
  /-- The other references of an image that does not opt in do not matter. -/
  irrelevant : image.referencesModule Rule.Expressive.moduleName = false → result = .ok []
  unresolved : image.referencesModule Rule.Expressive.moduleName = true →
    ((∃ failure, result = .error (.load (.unresolved failure))) ↔
      ∃ x, scope.Spans fs image x ∧ scope.Dangles fs image x)
  unclassified : image.referencesModule Rule.Expressive.moduleName = true →
    (∀ x, scope.Spans fs image x → ¬ scope.Dangles fs image x) →
    ((∃ cause, result = .error (.unclassified cause)) ↔
      ∃ c ∈ candidates image Rule.Expressive.marker, c.Broken)
  /-- One report for each refused rule of the image, which sees the types of all images that its
  references lead to. -/
  reported : image.referencesModule Rule.Expressive.moduleName = true →
    (∀ x, scope.Spans fs image x → ¬ scope.Dangles fs image x) →
    (∀ c ∈ candidates image Rule.Expressive.marker, ¬ c.Broken) →
    ∃ m, loaded = .ok (some m) ∧ m.image = image ∧
      (∀ x, x ∈ m.tree.map (·.image) ↔ scope.Spans fs image x) ∧
      result = .ok ((candidates image Rule.Expressive.marker).filterMap (refusal tools m))

/-- What a validation of the module at a path results in, with the scopes of the directories. -/
structure Outcome (tools : Toolchain) (fs : FileSystem) (scopes : Location → Scope) (path : Path)
    (loaded : Except LoadError (Option Module))
    (result : Except ValidateError (List CompilationError)) : Prop where
  unread : (∃ e, result = .error (.load e) ∧ e.Unread) ↔
    ¬ ∃ location image, Shows fs path location image
  judged : ∀ {location image}, Shows fs path location image →
    Judgement tools fs (scopes location) image loaded result

section

variable {tools : Toolchain} {fs : FileSystem} {scope : Scope} {scopes : Location → Scope}
  {path : Path} {location location' : Location} {image image' : Image} {m : Module}

namespace Outcome

theorem of_hidden (hidden : ∀ location image, ¬ Shows fs path location image) {e : LoadError}
    (unread : e.Unread) :
    Outcome tools fs scopes path (.error e) (Validator.verdict (expressive tools) (.error e)) where
  unread := ⟨fun _ => by simp [hidden], fun _ => ⟨e, rfl, unread⟩⟩
  judged shown := absurd shown (hidden _ _)

theorem of_shown {loaded : Except LoadError (Option Module)}
    {result : Except ValidateError (List CompilationError)} (shown : Shows fs path location image)
    (judgement : Judgement tools fs (scopes location) image loaded result) :
    Outcome tools fs scopes path loaded result where
  unread := by
    refine ⟨?_, fun hidden => absurd ⟨_, _, shown⟩ hidden⟩
    rintro ⟨e, failed, unread⟩
    exact absurd unread (judgement.read e failed)
  judged shown' := by
    obtain ⟨rfl, rfl⟩ := shown.eq shown'
    exact judgement

end Outcome

namespace Judgement

theorem of_irrelevant
    (irrelevant : image.referencesModule Rule.Expressive.moduleName = false) :
    Judgement tools fs scope image (.ok none)
      (Validator.verdict (expressive tools) (.ok none)) where
  read e failed := by cases failed
  irrelevant _ := rfl
  unresolved relevant := by simp [irrelevant] at relevant
  unclassified relevant := by simp [irrelevant] at relevant
  reported relevant := by simp [irrelevant] at relevant

theorem of_unresolved {failure : DependencyFailure}
    (relevant : image.referencesModule Rule.Expressive.moduleName = true)
    (dangles : ∃ x, scope.Spans fs image x ∧ scope.Dangles fs image x) :
    Judgement tools fs scope image (.error (.unresolved failure))
      (Validator.verdict (expressive tools) (.error (.unresolved failure))) where
  read e failed := by
    cases failed
    exact fun unread => unread failure rfl
  irrelevant irrelevant := by simp [relevant] at irrelevant
  unresolved _ := ⟨fun _ => dangles, fun _ => ⟨failure, rfl⟩⟩
  unclassified _ resolves := by
    obtain ⟨x, spans, dangling⟩ := dangles
    exact absurd dangling (resolves x spans)
  reported _ resolves := by
    obtain ⟨x, spans, dangling⟩ := dangles
    exact absurd dangling (resolves x spans)

theorem of_unclassified (relevant : image.referencesModule Rule.Expressive.moduleName = true)
    (resolves : ∀ x, scope.Spans fs image x → ¬ scope.Dangles fs image x) (shape : m.image = image)
    (broken : ∃ c ∈ candidates image Rule.Expressive.marker, c.Broken) :
    Judgement tools fs scope image (.ok (some m))
      (Validator.verdict (expressive tools) (.ok (some m))) := by
  subst shape
  obtain ⟨cause, failed, -⟩ := Rule.compileModule_of_broken tools m relevant broken
  have verdict : Validator.verdict (expressive tools) (.ok (some m)) =
      .error (.unclassified cause) := by
    simp only [Validator.verdict, failed, Except.mapError]
  rw [verdict]
  exact {
    read := fun e failed => by cases failed
    irrelevant := fun irrelevant => by simp [relevant] at irrelevant
    unresolved := fun _ => by
      constructor
      · rintro ⟨_, failed⟩
        cases failed
      · rintro ⟨x, spans, dangling⟩
        exact absurd dangling (resolves x spans)
    unclassified := fun _ _ => ⟨fun _ => broken, fun _ => ⟨cause, rfl⟩⟩
    reported := fun _ _ sound => by
      obtain ⟨c, member, flaw⟩ := broken
      exact absurd flaw (sound c member) }

theorem of_sound (relevant : image.referencesModule Rule.Expressive.moduleName = true)
    (resolves : ∀ x, scope.Spans fs image x → ¬ scope.Dangles fs image x) (shape : m.image = image)
    (images : ∀ x, x ∈ m.tree.map (·.image) ↔ scope.Spans fs image x)
    (sound : ∀ c ∈ candidates image Rule.Expressive.marker, ¬ c.Broken) :
    Judgement tools fs scope image (.ok (some m))
      (Validator.verdict (expressive tools) (.ok (some m))) := by
  subst shape
  have verdict : Validator.verdict (expressive tools) (.ok (some m)) =
      .ok ((candidates m.image Rule.Expressive.marker).filterMap (refusal tools m)) := by
    simp only [Validator.verdict, Rule.compileModule_of_sound tools m relevant sound,
      Except.mapError]
  rw [verdict]
  exact {
    read := fun e failed => by cases failed
    irrelevant := fun irrelevant => by simp [relevant] at irrelevant
    unresolved := fun _ => by
      constructor
      · rintro ⟨_, failed⟩
        cases failed
      · rintro ⟨x, spans, dangling⟩
        exact absurd dangling (resolves x spans)
    unclassified := fun _ _ => by
      constructor
      · rintro ⟨_, failed⟩
        cases failed
      · rintro ⟨c, member, flaw⟩
        exact absurd flaw (sound c member)
    reported := fun _ _ _ => ⟨m, rfl, rfl, images, rfl⟩ }

theorem of_linked (relevant : image.referencesModule Rule.Expressive.moduleName = true)
    (resolves : ∀ x, scope.Spans fs image x → ¬ scope.Dangles fs image x) (shape : m.image = image)
    (images : ∀ x, x ∈ m.tree.map (·.image) ↔ scope.Spans fs image x) :
    Judgement tools fs scope image (.ok (some m))
      (Validator.verdict (expressive tools) (.ok (some m))) := by
  by_cases broken : ∃ c ∈ candidates image Rule.Expressive.marker, c.Broken
  · exact of_unclassified relevant resolves shape broken
  · exact of_sound relevant resolves shape images fun c member flaw => broken ⟨c, member, flaw⟩

theorem of_loads {l l' : Loader} {loaded : Except LoadError (Option Module)}
    (separates : scope.Separates fs) (shown : Shows fs path location image)
    (empty : ∀ place, l.cache.entry? place = none)
    (load : Loads fs scope location (Rule.isRelevant (expressive tools)) l loaded l') :
    Judgement tools fs scope image loaded (Validator.verdict (expressive tools) loaded) := by
  obtain ⟨bytes, -, read, decoded⟩ := shown
  cases load with
  | cached entry current => simp [empty] at entry
  | unreadable failed => simp [read] at failed
  | malformed forgets read' failed =>
      rw [read] at read'
      cases read'
      simp [decoded] at failed
  | unwanted forgets read' decoded' refused =>
      obtain ⟨rfl, rfl⟩ := image_unique read decoded read' decoded'
      exact of_irrelevant refused
  | linked forgets read' decoded' accepted walk complete stale =>
      obtain ⟨rfl, rfl⟩ := image_unique read decoded read' decoded'
      have fresh := forgets.entry?_eq_none empty
      exact of_linked accepted ((walk.failures_eq_nil_iff separates fresh).mp complete) rfl
        fun x => walk.mem_images_iff separates fresh complete
  | unresolved forgets read' decoded' accepted walk broken =>
      obtain ⟨rfl, rfl⟩ := image_unique read decoded read' decoded'
      have fresh := forgets.entry?_eq_none empty
      refine of_unresolved accepted ?_
      by_contra resolves
      exact broken ((walk.failures_eq_nil_iff separates fresh).mpr fun x spans dangling =>
        resolves ⟨x, spans, dangling⟩)

end Judgement

theorem Loads.error_of_hidden {l l' : Loader} {wanted : Image → Bool}
    {loaded : Except LoadError (Option Module)} (load : Loads fs scope location wanted l loaded l')
    (empty : ∀ place, l.cache.entry? place = none)
    (hidden : ∀ bytes image, fs.readAt location = .ok bytes → Image.decode bytes ≠ .ok image) :
    ∃ e, loaded = .error e ∧ e.Unread := by
  cases load with
  | cached entry current => simp [empty] at entry
  | unreadable failed => exact ⟨_, rfl, by simp [LoadError.Unread]⟩
  | malformed forgets read failed => exact ⟨_, rfl, by simp [LoadError.Unread]⟩
  | unwanted forgets read decoded refused => exact absurd decoded (hidden _ _ read)
  | linked forgets read decoded accepted walk complete stale => exact absurd decoded (hidden _ _ read)
  | unresolved forgets read decoded accepted walk broken => exact absurd decoded (hidden _ _ read)

theorem Outcome.of_loads {l l' : Loader} {loaded : Except LoadError (Option Module)}
    (leads : fs.canonicalize path = .ok location) (separates : (scopes location).Separates fs)
    (empty : ∀ place, l.cache.entry? place = none)
    (load : Loads fs (scopes location) location (Rule.isRelevant (expressive tools)) l loaded l') :
    Outcome tools fs scopes path loaded (Validator.verdict (expressive tools) loaded) := by
  by_cases shown : ∃ image, Shows fs path location image
  · obtain ⟨image, shown⟩ := shown
    exact of_shown shown (.of_loads separates shown empty load)
  · have hidden : ∀ location' image, ¬ Shows fs path location' image := by
      rintro location' image ⟨bytes, leads', held⟩
      rw [leads] at leads'
      cases leads'
      exact shown ⟨image, bytes, leads, held⟩
    obtain ⟨e, rfl, unread⟩ := load.error_of_hidden empty fun bytes image read decoded =>
      shown ⟨image, bytes, leads, read, decoded⟩
    exact of_hidden hidden unread

end

namespace Validator

/-- The result of a new validator, and the exit code of a report on it, where no file is found under
two names. -/
theorem check_outcome (settings : Settings) (tools : Toolchain) (fs : FileSystem) (path : Path)
    (checkedAt : String)
    (separates : ∀ location, fs.canonicalize path = .ok location →
      (scopeBeside settings tools location).Separates fs) :
    Outcome tools fs (scopeBeside settings tools) path
        ((Validator.new settings (expressive tools)).relevant fs path).1
        ((Validator.new settings (expressive tools)).check fs path).1 ∧
      (Report.run fs checkedAt path (Validator.new settings (expressive tools))).1.status.exitCode =
        match ((Validator.new settings (expressive tools)).check fs path).1 with
        | .error _ => 2
        | .ok [] => 0
        | .ok (_ :: _) => 1 := by
  constructor
  · rw [check_fst]
    cases leads : fs.canonicalize path with
    | error cause =>
        rw [relevant_of_error leads]
        refine .of_hidden ?_ fun failure => by simp
        rintro location image ⟨bytes, found, -⟩
        simp [leads] at found
    | ok location =>
        rw [relevant_of_ok leads]
        exact .of_loads leads (separates location leads) (entry?_new settings (expressive tools))
          (Loader.loadAtIf_loads ..)
  · simp only [Report.run, Report.status]
    cases (Validator.new settings (expressive tools)).check fs path with
    | mk result v =>
        cases result with
        | error cause => rfl
        | ok errors => cases errors <;> rfl

end Validator

/-! A file that declares the root's name is left out, and a file that goes by two names answers both,
once it was linked by its own. -/

namespace OwnName

def root : Image := .referring "App" ["Expressive", "App"]

def other : Image := .referring "App" ["Missing"]

/-- The file `Copy.rmod` declares the module `App` and refers to `App`. The file `App.rmod` declares
another one, which refers to a module that is missing. -/
def files : FileSystem where
  entries := [(["Copy.rmod"], .file root.encode), (["App.rmod"], .file other.encode)]
  workingDirectory := []

def start : Validator := .new .default (expressive .builtin)

def scope : Scope := Validator.scopeBeside .default .builtin ["Copy.rmod"]

theorem decodes : ∀ image ∈ [root, other], Image.decode image.encode = .ok image :=
  decodes_of_short (by decide +kernel)

theorem shows_root : Shows files ⟨"/Copy.rmod"⟩ ["Copy.rmod"] root :=
  ⟨root.encode, rfl, rfl, decodes root (by simp)⟩

theorem leads_other : scope.Leads files root other :=
  ⟨⟨"App", none⟩, by simp [root], _, _,
    Scope.find_eq_image.mpr ⟨rfl, decodes other (by simp), rfl⟩⟩

theorem dangles_other : scope.Dangles files root other :=
  ⟨⟨"Missing", none⟩, by simp [other], by decide, _, rfl⟩

theorem walk : Follows files scope ["App"] "App" root.references ⟨start.loader, []⟩
    [.host "Expressive", .skipped] ⟨start.loader, []⟩ :=
  .hosted (by decide) rfl (.cyclic (by decide) .nil)

theorem check_root : (start.check files ⟨"/Copy.rmod"⟩).1 = .ok [] := by
  have leads : files.canonicalize ⟨"/Copy.rmod"⟩ = .ok ["Copy.rmod"] := rfl
  have read : files.readAt ["Copy.rmod"] = .ok root.encode := rfl
  have accepted : Rule.isRelevant start.subsystem root = true := rfl
  have loaded := Loader.loadAtIf_of_follows rfl read (decodes root (by simp)) accepted walk rfl
  rw [Validator.check_fst, Validator.relevant_of_ok leads]
  exact congrArg (fun loaded => Validator.verdict start.subsystem loaded.1) loaded

end OwnName

namespace TwoNames

def a : Image := .referring "A" []

def app : Image := .referring "App" ["Expressive", "A", "B"]

def settings : Settings := { Settings.default with extension := "/../A.img" }

def files : FileSystem where
  entries := [(["A."], .directory), (["B."], .directory), (["A.img"], .file a.encode),
    (["App.img"], .file app.encode)]
  workingDirectory := []

def start : Validator := .new settings (expressive .builtin)

def scope : Scope := Validator.scopeBeside settings .builtin ["App.img"]

def linked : Module := ⟨["A.img"], .ofBytes a.encode, a, [], [], 1⟩

def warm : Loader where
  extension := "/../A.img"
  hosts := ["core", "Expressive"]
  cache := ⟨.fingerprint, [(["A.img"], ⟨.ofBytes a.encode, linked⟩)]⟩
  loads := 1
  scopes := .empty

theorem decodes : ∀ image ∈ [a, app], Image.decode image.encode = .ok image :=
  decodes_of_short (by decide +kernel)

theorem shows_app : Shows files ⟨"/App.img"⟩ ["App.img"] app :=
  ⟨app.encode, rfl, rfl, decodes app (by simp)⟩

theorem resolve_a : scope.resolve files "A" = .image ["A.img"] a.encode := rfl

theorem resolve_b : scope.resolve files "B" = .image ["A.img"] a.encode := rfl

theorem dangles_app : scope.Dangles files app app := by
  refine ⟨⟨"B", none⟩, by simp [app], by decide, [⟨.directory, "/A.img", .nameMismatch "A"⟩], ?_⟩
  simp only [Scope.find, resolve_b, decodes a (by simp)]
  rfl

theorem walk : Follows files scope ["App"] "App" app.references ⟨start.loader, []⟩
    [.host "Expressive", .module linked, .module linked] ⟨warm, []⟩ := by
  have second : warm.recollect files scope "B" = (some linked, warm) := by
    rw [Loader.recollect_of_image resolve_b]
    exact Loader.current_of_entry (e := ⟨.ofBytes a.encode, linked⟩) rfl rfl rfl
  have inner : Follows files scope ["A", "App"] "A" a.references ⟨start.loader, []⟩ []
    ⟨start.loader, []⟩ := .nil
  have found : scope.find files "A" = .image ["A.img"] a.encode a :=
    Scope.find_eq_image.mpr ⟨resolve_a, decodes a (by simp), rfl⟩
  refine .hosted (by decide) rfl (.linked (by decide) rfl found inner (by simp) rfl ?_)
  exact .cached (by decide) second .nil

theorem check_app : (start.check files ⟨"/App.img"⟩).1 = .ok [] := by
  have leads : files.canonicalize ⟨"/App.img"⟩ = .ok ["App.img"] := rfl
  have read : files.readAt ["App.img"] = .ok app.encode := rfl
  have accepted : Rule.isRelevant start.subsystem app = true := rfl
  have loaded := Loader.loadAtIf_of_follows rfl read (decodes app (by simp)) accepted walk rfl
  rw [Validator.check_fst, Validator.relevant_of_ok leads]
  exact congrArg (fun loaded => Validator.verdict start.subsystem loaded.1) loaded

end TwoNames

/-- Neither does every image that references lead to matter, nor does every image that the root spans
where a file goes by two names. -/
theorem Validator.check_passes_over :
    (¬ ∀ settings tools fs path location image, Shows fs path location image →
      image.referencesModule Rule.Expressive.moduleName = true →
      ((∃ failure, ((Validator.new settings (expressive tools)).check fs path).1 =
          .error (.load (.unresolved failure))) ↔
        ∃ x, ReflTransGen ((scopeBeside settings tools location).Leads fs) image x ∧
          (scopeBeside settings tools location).Dangles fs image x)) ∧
    (¬ ∀ settings tools fs path location image, Shows fs path location image →
      image.referencesModule Rule.Expressive.moduleName = true →
      ((∃ failure, ((Validator.new settings (expressive tools)).check fs path).1 =
          .error (.load (.unresolved failure))) ↔
        ∃ x, (scopeBeside settings tools location).Spans fs image x ∧
          (scopeBeside settings tools location).Dangles fs image x)) := by
  constructor
  · intro each
    obtain ⟨failure, failed⟩ := (each .default .builtin OwnName.files _ _ _ OwnName.shows_root rfl).mpr
      ⟨_, .single OwnName.leads_other, OwnName.dangles_other⟩
    cases OwnName.check_root.symm.trans failed
  · intro each
    obtain ⟨failure, failed⟩ := (each TwoNames.settings .builtin TwoNames.files _ _ _
      TwoNames.shows_app rfl).mpr ⟨_, .refl, TwoNames.dangles_app⟩
    cases TwoNames.check_app.symm.trans failed

theorem OwnName.outcome :
    (∀ location, files.canonicalize ⟨"/Copy.rmod"⟩ = .ok location →
      (Validator.scopeBeside .default .builtin location).Separates files) ∧
    Outcome .builtin files (Validator.scopeBeside .default .builtin) ⟨"/Copy.rmod"⟩
      (start.relevant files ⟨"/Copy.rmod"⟩).1 (start.check files ⟨"/Copy.rmod"⟩).1 := by
  have separates : ∀ location, files.canonicalize ⟨"/Copy.rmod"⟩ = .ok location →
      (Validator.scopeBeside .default .builtin location).Separates files :=
    fun location _ => Scope.separates_of_noSlash (by
      rw [Validator.scopeBeside_extension]
      decide)
  exact ⟨separates, (Validator.check_outcome .default .builtin files ⟨"/Copy.rmod"⟩ "" separates).1⟩

end RuleLint
