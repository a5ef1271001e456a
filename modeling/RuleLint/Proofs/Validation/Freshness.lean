import RuleLint.Proofs.Validation.Naming
import RuleLint.Proofs.Validation.Rebuilds

namespace RuleLint

open File (Path Location FileSystem)
open Hash (Fingerprint)
open Image (Reference)
open Text (Bytes)

def Module.FreshIn (fs : FileSystem) (m : Module) : Prop :=
  ∃ bytes, fs.readAt m.location = .ok bytes ∧ m.fingerprint = .ofBytes bytes ∧
    Image.decode bytes = .ok m.image

namespace Run

variable (run : Run)

/-- Contents of files, at whatever moments, are told apart by their fingerprints. -/
def Distinct : Prop :=
  ∀ bytes bytes', run.Content bytes → run.Content bytes' →
    Fingerprint.ofBytes bytes = .ofBytes bytes' → bytes = bytes'

def Drew (x : Module) : Prop :=
  ∃ bytes, run.Content bytes ∧ x.fingerprint = .ofBytes bytes ∧ Image.decode bytes = .ok x.image

structure Stored (place : Location) (e : CacheEntry) : Prop where
  location : e.module.location = place
  fingerprint : e.fingerprint = e.module.fingerprint
  nodes : ∀ x ∈ e.module.tree, run.Drew x

/-- The module stands for the file at `place`, and nothing in its tree is stale. -/
structure Fresh (fs : FileSystem) (place : Location) (m : Module) : Prop where
  location : m.location = place
  nodes : ∀ x ∈ m.tree, x.FreshIn fs

variable {run} {fs : FileSystem} {scope : Scope} {place location : Location} {m x : Module}
  {e : CacheEntry} {stack : List String} {image : Image} {links : List Link} {bytes : Bytes}

section

variable (reads : ∀ {place bytes}, fs.readAt place = .ok bytes → run.Content bytes)

include reads

theorem Drew.freshIn (drew : run.Drew x) (distinct : run.Distinct) (unchanged : x.UnchangedIn fs) :
    x.FreshIn fs := by
  obtain ⟨bytes, content, fingerprint, decoded⟩ := drew
  obtain ⟨bytes', read, same⟩ := unchanged
  obtain rfl : bytes' = bytes := distinct _ _ (reads read) content (same.trans fingerprint)
  exact ⟨bytes', read, fingerprint, decoded⟩

theorem Stored.fresh (stored : run.Stored place e) (distinct : run.Distinct)
    (current : e.Current fs .fingerprint place) : Fresh fs place e.module := by
  obtain ⟨⟨bytes, read, fingerprint⟩, below⟩ := current rfl
  have self : e.module.UnchangedIn fs :=
    ⟨bytes, stored.location ▸ read, fingerprint.symm.trans stored.fingerprint⟩
  have unchanged := Module.forall_mem_tree.mpr ⟨self, below⟩
  exact ⟨stored.location, fun x node =>
    (stored.nodes x node).freshIn reads distinct (unchanged x node)⟩

theorem Fresh.stored (fresh : Fresh fs place m) : run.Stored place ⟨m.fingerprint, m⟩ := by
  refine ⟨fresh.location, rfl, fun x node => ?_⟩
  obtain ⟨bytes, read, fingerprint, decoded⟩ := fresh.nodes x node
  exact ⟨bytes, reads read, fingerprint, decoded⟩

end

theorem fresh_of_answers (read : fs.readAt place = .ok bytes)
    (decoded : Image.decode bytes = .ok image)
    (answers : List.Forall₂ (Answer fs scope stack (Fresh fs)) image.references links) (l : Loader) :
    Fresh fs place (l.built place (.ofBytes bytes) image links) := by
  refine ⟨rfl, Module.forall_mem_tree.mpr ⟨⟨bytes, read, rfl, decoded⟩, fun d dependency => ?_⟩⟩
  obtain ⟨r, -, -, place, bytes, -, fresh⟩ := Answer.of_dependency answers dependency
  exact fresh.nodes

theorem keeps_stored (reads : ∀ {place bytes}, fs.readAt place = .ok bytes → run.Content bytes)
    (distinct : run.Distinct) :
    Keeps fs scope .fingerprint run.Stored (Fresh fs) fun _ _ => True where
  hit _ stored current := stored.fresh reads distinct current
  enter _ _ _ _ := trivial
  new := by
    intro stack image place bytes links _ _ found answers l
    obtain ⟨resolved, decoded, -⟩ := Scope.find_eq_image.mp found
    have fresh := fresh_of_answers (Scope.readAt_of_resolve resolved) decoded answers l
    exact ⟨fresh.stored reads, fresh⟩

theorem fresh_of_load {wanted : Image → Bool} {l l' : Loader}
    {result : Except LoadError (Option Module)}
    (reads : ∀ {place bytes}, fs.readAt place = .ok bytes → run.Content bytes)
    (distinct : run.Distinct) (load : Loads fs scope location wanted l result l')
    (policy : l.cache.policy = .fingerprint) (holds : l.Holds run.Stored) :
    l'.Holds run.Stored ∧ ∀ {m}, result = .ok (some m) → Fresh fs location m := by
  refine load.keeps (keeps_stored reads distinct)
    (fun stored current => stored.fresh reads distinct current) (fun _ _ => trivial) ?_ policy holds
  intro bytes image links read decoded _ answers l
  have fresh := fresh_of_answers read decoded answers l
  exact ⟨fresh.stored reads, fresh⟩

theorem holds_stored (distinct : run.Distinct) (policy : run.settings.cachePolicy = .fingerprint)
    {moments : List (FileSystem × Request)} (part : moments ⊆ run.moments) :
    (run.start.run moments).loader.Holds run.Stored := by
  refine holds_of_loads (fun member target load settings holds => ?_) part
  have ruled := (congrArg Settings.cachePolicy settings).trans policy
  exact (fresh_of_load (fun read => ⟨_, _, _, member, read⟩) distinct load ruled holds).1

end Run

/-- Whatever was loaded and rewritten before, a loaded module and all its dependencies are what their
files hold now. -/
theorem Run.load_fresh (run : Run) (fs : FileSystem) (path : Path) (m : Module)
    (policy : run.settings.cachePolicy = .fingerprint)
    (distinct : (run.next fs (.load path)).Distinct)
    (handed : (run.finish.loader.load fs path).1 = .ok m ∨ ∃ directory wanted,
      (run.finish.loader.loadIf fs (run.finish.loader.scope directory) path wanted).1 =
        .ok (some m)) :
    ∀ x ∈ m.tree, x.FreshIn fs := by
  have ruled : run.finish.loader.cache.policy = .fingerprint :=
    (congrArg Settings.cachePolicy run.settings_finish).trans policy
  have holds : run.finish.loader.Holds (run.next fs (.load path)).Stored :=
    holds_stored distinct policy (List.subset_append_left _ _)
  -- The files as they are at the load count among the contents of the run.
  have reads {place bytes} (read : fs.readAt place = .ok bytes) :
      (run.next fs (.load path)).Content bytes :=
    ⟨fs, .load path, place, List.mem_append_right _ (by simp), read⟩
  have fresh {scope location wanted result l'}
      (load : Loads fs scope location wanted run.finish.loader result l')
      (answer : result = .ok (some m)) : ∀ x ∈ m.tree, x.FreshIn fs :=
    ((fresh_of_load reads distinct load ruled holds).2 answer).nodes
  cases leads : fs.canonicalize path with
  | error cause =>
      rcases handed with loaded | ⟨directory, wanted, loaded⟩
      · simp [Loader.load_of_error leads] at loaded
      · simp [Loader.loadIf, Loader.locate, leads] at loaded
  | ok location =>
      rcases handed with loaded | ⟨directory, wanted, loaded⟩
      · have load := Loader.loadAtIf_loads fs
          (run.finish.loader.scope (Location.path location.dropLast)) location (fun _ => true)
          run.finish.loader
        rw [Loader.loadAt_eq, ← Loader.load_of_ok leads, loaded] at load
        exact fresh load rfl
      · simp only [Loader.loadIf, Loader.locate_of_ok leads] at loaded
        exact fresh (Loader.loadAtIf_loads ..) loaded

/-! The module `App` takes the file `Shared.rmod` out of the cache, which was loaded by itself and
declares another name. -/

namespace Misnamed

theorem content {bytes : Bytes} (held : (run.next files (.load ⟨"/App.rmod"⟩)).Content bytes) :
    bytes = other.encode ∨ bytes = app.encode := by
  obtain ⟨fs, request, location, member, read⟩ := held
  have same : fs = files := by
    have either : (fs, request) = (files, .load ⟨"/Shared.rmod"⟩) ∨
        (fs, request) = (files, .load ⟨"/App.rmod"⟩) := by
      simpa [run, Run.next] using member
    rcases either with same | same <;> exact congrArg Prod.fst same
  rw [same, FileSystem.readAt_eq_ok] at read
  unfold FileSystem.entry? at read
  split at read
  · cases read
  · have listed := mem_of_lookup_eq_some read
    simp only [files, List.mem_cons, Prod.mk.injEq, File.Entry.file.injEq, List.not_mem_nil,
      or_false] at listed
    exact listed.imp And.right And.right

theorem fingerprints_ne : Fingerprint.ofBytes other.encode ≠ .ofBytes app.encode := by
  decide +kernel

theorem distinct : (run.next files (.load ⟨"/App.rmod"⟩)).Distinct := by
  intro bytes bytes' held held' same
  rcases content held with rfl | rfl <;> rcases content held' with rfl | rfl
  · rfl
  · exact absurd same fingerprints_ne
  · exact absurd same.symm fingerprints_ne
  · rfl

theorem linked_fresh : run.settings.cachePolicy = .fingerprint ∧
    (run.next files (.load ⟨"/App.rmod"⟩)).Distinct ∧
    (run.finish.loader.load files ⟨"/App.rmod"⟩).1 = .ok linked ∧
    ∀ x ∈ linked.tree, x.FreshIn files :=
  ⟨rfl, distinct, load_app,
    Run.load_fresh run files ⟨"/App.rmod"⟩ linked rfl distinct (.inl load_app)⟩

end Misnamed

end RuleLint
