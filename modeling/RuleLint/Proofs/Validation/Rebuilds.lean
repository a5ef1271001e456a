import RuleLint.Proofs.Module.Recalling
import RuleLint.Proofs.Validation.Requests

/-!
# Loading while files are rebuilt

Under the fingerprint policy a cached module is handed out only while every file in its tree holds
what it held. So a loader that remembers any run gives what a new loader gives
(`Run.load_eq_load_start`), as long as the directories that were loaded from stay orderly and free of
cycles.
-/

namespace RuleLint

open File (Path Location FileSystem)
open Hash (Fingerprint)
open Relation (ReflTransGen TransGen)
open Text (Bytes)

namespace Run

variable (run : Run)

/-- The bytes of a file at a moment of the run. -/
def Content (bytes : Bytes) : Prop :=
  ∃ fs request location, (fs, request) ∈ run.moments ∧ fs.readAt location = .ok bytes

def LoadsFrom (fs : FileSystem) (directory : Location) : Prop :=
  ∃ request location base wanted, (fs, request) ∈ run.moments ∧
    request.Targets run.subsystem fs location base wanted ∧ location.dropLast = directory

/-- Whatever the run loads it loads with the references looked for next to it, from a directory that
is orderly and free of cycles at that moment. Contents are told apart by their fingerprints. -/
structure Regular : Prop where
  policy : run.settings.cachePolicy = .fingerprint
  beside : ∀ {fs request location base wanted}, (fs, request) ∈ run.moments →
    request.Targets run.subsystem fs location base wanted → base = Location.path location.dropLast
  tree : ∀ {fs directory}, run.LoadsFrom fs directory → fs.IsTree
  tidy : ∀ {fs directory}, run.LoadsFrom fs directory → Tidy fs run.settings.extension directory
  acyclic : ∀ {fs directory}, run.LoadsFrom fs directory → Acyclic fs directory
  distinct : ∀ {bytes bytes'}, run.Content bytes → run.Content bytes' →
    Fingerprint.ofBytes bytes = .ofBytes bytes' → bytes = bytes'

def Listed (directory : Location) (x : Module) : Prop :=
  x.hostReferences = (run.scopeAt directory).hosted x.image

structure Recorded (directory : Location) (x : Module) : Prop where
  content : ∃ bytes, run.Content bytes ∧ x.fingerprint = .ofBytes bytes ∧
    Image.decode bytes = .ok x.image
  answered : List.Forall₂ (fun r d => r.name ∉ run.settings.hostModules ∧
      isPlainName r.name = true ∧
      d.location = directory ++ [imageFile run.settings.extension r.name])
    ((run.scopeAt directory).followed x.image) x.dependencies
  listed : run.Listed directory x

structure Kept (place : Location) (e : CacheEntry) : Prop where
  location : e.module.location = place
  fingerprint : e.fingerprint = e.module.fingerprint
  nodes : ∀ x ∈ e.module.tree, run.Recorded place.dropLast x

theorem LoadsFrom.content {run : Run} {fs : FileSystem} {directory place : Location} {bytes : Bytes}
    (loads : run.LoadsFrom fs directory) (read : fs.readAt place = .ok bytes) : run.Content bytes := by
  obtain ⟨request, location, base, wanted, member, -⟩ := loads
  exact ⟨fs, request, place, member, read⟩

namespace Regular

variable {run} (regular : run.Regular) {fs : FileSystem} {directory place : Location}
  (loads : run.LoadsFrom fs directory) {image : Image} {m : Module} {e : CacheEntry}

include regular loads

theorem orderly (inside : InDirectory fs directory image) :
    Orderly fs (run.scopeAt directory) directory :=
  inside.orderly (regular.tree loads) rfl (regular.tidy loads)

theorem steady (inside : InDirectory fs directory image) :
    Steady fs (run.scopeAt directory) directory [] (fun _ => True) (run.Listed directory) := by
  have fresh {stack : List String} {image : Image} {r : Image.Reference}
      (trail : OnTrail fs directory [] stack image) (member : r ∈ image.references) :
      r.name ∉ stack := by
    intro onStack
    obtain ⟨a, -, refers, reaches⟩ := trail.cycle member onStack (List.not_mem_nil)
    exact regular.acyclic loads image (.head' refers reaches)
  refine ⟨regular.orderly loads inside, List.nil_subset _, fun _ _ => trivial, ?_, ?_⟩
  · intro stack image r _ trail member onStack
    exact absurd onStack (fresh trail member)
  · intro stack image _ trail _ m same hosts
    subst same
    rw [Listed, hosts, Scope.hosted]
    congr 1
    refine List.filter_congr fun r member => ?_
    simp [fresh trail member]

theorem read_of_unchanged {x : Module} (recorded : run.Recorded directory x)
    (unchanged : x.UnchangedIn fs) :
    ∃ bytes, fs.readAt x.location = .ok bytes ∧ x.fingerprint = .ofBytes bytes ∧
      Image.decode bytes = .ok x.image := by
  obtain ⟨bytes, content, fingerprint, decoded⟩ := recorded.content
  obtain ⟨bytes', read, same⟩ := unchanged
  have equal := regular.distinct (loads.content read) content
    (same.trans fingerprint)
  subst equal
  exact ⟨bytes', read, fingerprint, decoded⟩

theorem trusted_of_kept (here : place.dropLast = directory) (kept : run.Kept place e)
    (current : e.Current fs .fingerprint place) :
    Trusted fs (run.scopeAt directory) (fun _ => True) (run.Listed directory) place e.module := by
  subst here
  obtain ⟨⟨bytes, read, fingerprint⟩, below⟩ := current rfl
  have self : e.module.UnchangedIn fs :=
    ⟨bytes, kept.location ▸ read, fingerprint.symm.trans kept.fingerprint⟩
  have unchanged := Module.forall_mem_tree.mpr ⟨self, below⟩
  have reads : ∀ x ∈ e.module.tree, ∃ bytes, fs.readAt x.location = .ok bytes ∧
      x.fingerprint = .ofBytes bytes ∧ Image.decode bytes = .ok x.image := fun x node =>
    regular.read_of_unchanged loads (kept.nodes x node) (unchanged x node)
  obtain ⟨bytes, read, fingerprint, decoded⟩ := reads e.module (by simp)
  rw [kept.location] at read
  have orderly := regular.orderly loads (inDirectory_of_read read decoded)
  refine ⟨kept.location, ⟨bytes, read, fingerprint, decoded⟩, fun _ x node => ?_⟩
  refine ⟨⟨reads x node, ?_⟩, (kept.nodes x node).listed⟩
  have answers := (List.forall₂_and_left _ _).mpr ⟨fun d dependency => reads d
    (Module.mem_tree_trans (Module.mem_tree_of_dependency dependency (Module.self_mem_tree d)) node),
    (kept.nodes x node).answered.flip⟩
  refine List.Forall₂.flip (answers.imp ?_)
  rintro d r ⟨⟨contents, readDependency, -, decodedDependency⟩, unhosted, plain, called⟩
  exact ⟨contents, orderly.find_eq_image.mpr
    ⟨unhosted, plain, called, readDependency, decodedDependency⟩⟩

theorem kept_of_trusted (here : place.dropLast = directory)
    (trusted : Trusted fs (run.scopeAt directory) (fun _ => True) (run.Listed directory) place m) :
    run.Kept place ⟨m.fingerprint, m⟩ := by
  subst here
  obtain ⟨bytes, read, -, decoded⟩ := trusted.read
  have orderly := regular.orderly loads (inDirectory_of_read read decoded)
  refine ⟨trusted.location, rfl, fun x node => ?_⟩
  obtain ⟨⟨⟨contents, readNode, fingerprint, decodedNode⟩, answered⟩, listed⟩ :=
    trusted.tree trivial x node
  refine ⟨⟨contents, loads.content readNode, fingerprint, decodedNode⟩, ?_, listed⟩
  refine answered.imp ?_
  rintro r d ⟨contents, found⟩
  obtain ⟨unhosted, plain, called, -⟩ := orderly.find_eq_image.mp found
  exact ⟨unhosted, plain, called⟩

end Regular

variable {run}

theorem Regular.gives (regular : run.Regular) {fs : FileSystem} {request : Request}
    {location : Location} {base : Path} {wanted : Image → Bool} {l l' : Loader}
    {result : Except LoadError (Option Module)} (member : (fs, request) ∈ run.moments)
    (target : request.Targets run.subsystem fs location base wanted)
    (load : Loads fs (run.start.loader.scope base) location wanted l result l')
    (settings : l.settings = run.settings) (holds : l.Holds run.Kept) :
    l'.Holds run.Kept ∧ Gives fs (run.scopeAt location.dropLast) (fun _ => True)
      (run.Listed location.dropLast) location wanted result := by
  have loads : run.LoadsFrom fs location.dropLast :=
    ⟨request, location, base, wanted, member, target, rfl⟩
  rw [regular.beside member target] at load
  have policy : l.cache.policy = .fingerprint :=
    (congrArg Settings.cachePolicy settings).trans regular.policy
  obtain ⟨kept, gives⟩ := load.gives rfl (regular.trusted_of_kept loads)
    (regular.kept_of_trusted loads) policy holds (regular.steady loads)
  exact ⟨kept, gives fun _ _ => trivial⟩

theorem Regular.holds_kept (regular : run.Regular) {moments : List (FileSystem × Request)}
    (part : moments ⊆ run.moments) : (run.start.run moments).loader.Holds run.Kept :=
  holds_of_loads (fun member target load settings holds =>
    (regular.gives member target load settings holds).1) part

theorem unnumbered_eq_of_trusted {fs : FileSystem} {directory place : Location} {m m' : Module}
    (trusted : Trusted fs (run.scopeAt directory) (fun _ => True) (run.Listed directory) place m)
    (trusted' : Trusted fs (run.scopeAt directory) (fun _ => True) (run.Listed directory) place m') :
    m.unnumbered = m'.unnumbered := by
  refine Faithful.same ?_ m m' (trusted.location.trans trusted'.location.symm)
    (trusted.tree trivial) (trusted'.tree trivial)
  intro m m' listed listed' location fingerprint image dependencies
  have hosts : m.hostReferences = m'.hostReferences := by
    rw [listed, listed', image]
  rw [Module.unnumbered_eq, Module.unnumbered_eq, location, fingerprint, image, dependencies, hosts]

end Run

theorem map_eq_of_map_some {ε α β : Type} {f : α → β} {a b : Except ε α}
    (same : (a.map some).map (Option.map f) = (b.map some).map (Option.map f)) :
    a.map f = b.map f := by
  cases a <;> cases b <;> simp_all [Except.map]

/-- A loader that remembers a run loads what a new loader loads. -/
theorem Run.load_eq_load_start (run : Run) (fs : FileSystem) (path : Path)
    (regular : (run.next fs (.load path)).Regular) :
    (run.finish.loader.load fs path).1.map Module.unnumbered =
      (run.start.loader.load fs path).1.map Module.unnumbered := by
  cases leads : fs.canonicalize path with
  | error cause => rw [Loader.load_of_error leads, Loader.load_of_error leads]
  | ok location =>
      have answer (l : Loader) (settings : l.settings = run.settings)
          (holds : l.Holds (run.next fs (.load path)).Kept) :
          Gives fs (run.scopeAt location.dropLast) (fun _ => True)
            (run.Listed location.dropLast) location (fun _ => true)
            ((l.load fs path).1.map some) := by
        have load := Loader.loadAtIf_loads fs (l.scope (Location.path location.dropLast)) location
          (fun _ => true) l
        rw [Loader.loadAt_eq, ← Loader.load_of_ok leads,
          Loader.scope_eq_of_settings (l := run.start.loader) (settings.trans rfl)] at load
        exact (regular.gives (List.mem_append_right _ (by simp)) (.load leads) load settings
          holds).2
      have warm := answer run.finish.loader run.settings_finish
        (regular.holds_kept (List.subset_append_left _ _))
      have cold := answer run.start.loader rfl (run.start_holds _)
      exact map_eq_of_map_some (warm.agree cold fun m m' => unnumbered_eq_of_trusted)

/-! A module is loaded, and again once its dependency was deleted. -/

namespace Rebuilt

open Pair (app lib)

def before : FileSystem := ofImages "rmod" [app, lib]

def after : FileSystem := ofImages "rmod" [app]

def run : Run := ⟨.default, Rule.expressive .builtin, [(before, .load ⟨"/App.rmod"⟩)]⟩

def again : Run := run.next after (.load ⟨"/App.rmod"⟩)

theorem decodes {images : List Image} (part : images ⊆ [app, lib]) :
    ∀ image ∈ images, Image.decode image.encode = .ok image :=
  fun image member => Pair.decodes image (List.mem_append_left [Pair.back] (part member))

theorem isTree {images : List Image} (part : images ⊆ [app, lib]) :
    (ofImages "rmod" images).IsTree := by
  have named : ∀ image ∈ [app, lib], File.EntryName (imageFile "rmod" image.name) := by decide
  exact isTree_ofImages fun image member => named image (part member)

theorem acyclic {images : List Image} (part : images ⊆ [app, lib]) :
    Acyclic (ofImages "rmod" images) [] := by
  have listed {image : Image} (inside : InDirectory (ofImages "rmod" images) [] image) :
      image = app ∨ image = lib := by
    simpa using part (mem_of_inDirectory_ofImages (decodes part) inside)
  refine acyclic_of_height (fun image => image.references.length) ?_
  rintro a b inside ⟨inside', r, member, same, -⟩
  rcases listed inside with rfl | rfl
  · rcases listed inside' with rfl | rfl
    · obtain rfl : r = ⟨"Lib", none⟩ := by simpa [app] using member
      simp [app] at same
    · decide
  · simp [lib] at member

theorem moments {fs : FileSystem} {request : Request} (member : (fs, request) ∈ again.moments) :
    request = .load ⟨"/App.rmod"⟩ ∧ ∃ images, images ⊆ [app, lib] ∧ fs = ofImages "rmod" images := by
  have either : (fs, request) = (before, .load ⟨"/App.rmod"⟩) ∨
      (fs, request) = (after, .load ⟨"/App.rmod"⟩) := by
    simpa [again, run, Run.next] using member
  rcases either with same | same
  · cases same
    exact ⟨rfl, _, List.Subset.refl _, rfl⟩
  · cases same
    exact ⟨rfl, _, by simp, rfl⟩

theorem directory_eq {fs : FileSystem} {directory : Location} (loads : again.LoadsFrom fs directory) :
    directory = [] ∧ ∃ images, images ⊆ [app, lib] ∧ fs = ofImages "rmod" images := by
  obtain ⟨request, location, base, wanted, member, target, rfl⟩ := loads
  obtain ⟨rfl, made⟩ := moments member
  refine ⟨?_, made⟩
  obtain ⟨images, part, rfl⟩ := made
  cases target with
  | load leads =>
      obtain ⟨e, present⟩ := (isTree part).canonicalize_present leads
      exact dropLast_eq_nil_of_ofImages present

theorem content {bytes : Text.Bytes} (held : again.Content bytes) :
    bytes = app.encode ∨ bytes = lib.encode := by
  obtain ⟨fs, request, location, member, read⟩ := held
  obtain ⟨-, images, part, rfl⟩ := moments member
  rcases entry?_ofImages (FileSystem.readAt_eq_ok.mp read) with ⟨-, other⟩ | ⟨image, listed, -, same⟩
  · cases other
  · cases same
    have either : image = app ∨ image = lib := by simpa using part listed
    exact either.imp (congrArg Image.encode) (congrArg Image.encode)

theorem distinct : Fingerprint.ofBytes app.encode ≠ .ofBytes lib.encode := by decide +kernel

theorem regular : again.Regular where
  policy := rfl
  beside member target := by
    obtain ⟨rfl, -⟩ := moments member
    cases target with
    | load leads => rfl
  tree loads := by
    obtain ⟨-, images, part, rfl⟩ := directory_eq loads
    exact isTree part
  tidy loads := by
    obtain ⟨rfl, images, part, rfl⟩ := directory_eq loads
    exact tidy_ofImages (decodes part)
  acyclic loads := by
    obtain ⟨rfl, images, part, rfl⟩ := directory_eq loads
    exact acyclic part
  distinct held held' same := by
    rcases content held with rfl | rfl <;> rcases content held' with rfl | rfl
    · rfl
    · exact absurd same distinct
    · exact absurd same.symm distinct
    · rfl

theorem load_eq : again.Regular ∧
    (run.finish.loader.load after ⟨"/App.rmod"⟩).1.map Module.unnumbered =
      (run.start.loader.load after ⟨"/App.rmod"⟩).1.map Module.unnumbered :=
  ⟨regular, Run.load_eq_load_start run after ⟨"/App.rmod"⟩ regular⟩

end Rebuilt
end RuleLint
