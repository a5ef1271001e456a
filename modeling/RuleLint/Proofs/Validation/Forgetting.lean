import RuleLint.Proofs.Module.Directories
import RuleLint.Proofs.Module.Gathering
import RuleLint.Proofs.Validation.Pinned
import RuleLint.Proofs.Validation.Renewing

/-!
# What an invalidation forgets

The entries at the locations that are gathered from the cached module go, every other stays, and
what is there in place of one that went is newer (`Run.invalidate_drops`). Where a tree holds two
modules from one location, the locations below one of them can be missed (`Run.invalidate_leaves`).
Where it holds another module from its own location, that is forgotten and the answer is that there
was none (`Run.invalidate_denies`).
-/

namespace RuleLint

open File (Path Location FileSystem)

namespace Run

variable {fs : FileSystem} {path : Path} {place gone : Location} {e : CacheEntry}

theorem loads_lt_of_entry {v : Validator} (absent : v.loader.cache.entry? gone = none)
    (later : List (FileSystem × Request))
    (entry : (v.run later).loader.cache.entry? gone = some e) :
    v.loader.loads < e.module.loadId := by
  refine ((v.run_renews later).recent entry).resolve_left fun before => ?_
  rw [absent] at before
  cases before

theorem loads_lt_of_load {v : Validator} (absent : v.loader.cache.entry? gone = none)
    {later : List (FileSystem × Request)} {m : Module} (leads : fs.canonicalize path = .ok gone)
    (loaded : ((v.run later).loader.load fs path).1 = .ok m) : v.loader.loads < m.loadId := by
  have load := Loader.loadAtIf_loads fs
    ((v.run later).loader.scope (Location.path gone.dropLast)) gone (fun _ => true)
    (v.run later).loader
  rw [Loader.loadAt_eq, ← Loader.load_of_ok leads, loaded] at load
  obtain ⟨e, entry, rfl⟩ := load.stored rfl
  refine loads_lt_of_entry absent (later ++ [(fs, .load path)]) ?_
  rw [Validator.run, List.foldl_append]
  exact entry

/-- Without an entry nothing is done. An entry goes together with those at the locations `below`
that are gathered from its dependencies. They are all that the tree has where no two of its modules
are from one location. Otherwise some can be missed, and the answer is that there was no entry where
the module's own place is gathered. -/
theorem invalidate_drops (run : Run) (fs : FileSystem) (path : Path) :
    ((∀ place, Loader.cacheKey? fs path = some place →
        run.finish.loader.cache.entry? place = none) →
      run.finish.invalidate fs path = (false, run.finish)) ∧
    ∀ place e, Loader.cacheKey? fs path = some place →
      run.finish.loader.cache.entry? place = some e →
        e.module.location = place ∧
        (e.module.Single → (run.finish.invalidate fs path).1 = true ∧ ∀ x ∈ e.module.tree,
          (run.finish.invalidate fs path).2.loader.cache.entry? x.location = none) ∧
        ∃ below, Module.Covers e.module.dependencies below ∧
          ((run.finish.invalidate fs path).1 = true ↔ place ∉ below) ∧
          (∀ other, (run.finish.invalidate fs path).2.loader.cache.entry? other =
            if other ∈ place :: below then none else run.finish.loader.cache.entry? other) ∧
          (∀ x ∈ e.module.tree,
            x.location ∈ place :: below ∨ Module.Misses [e.module] (place :: below) x) ∧
          ∀ gone ∈ place :: below, ∀ later,
            (∀ e', ((run.finish.invalidate fs path).2.run later).loader.cache.entry? gone =
                some e' → run.finish.loader.loads < e'.module.loadId) ∧
            ∀ fs' path' m, fs'.canonicalize path' = .ok gone →
              (((run.finish.invalidate fs path).2.run later).loader.load fs' path').1 = .ok m →
                run.finish.loader.loads < m.loadId := by
  refine ⟨fun absent => ?_, fun place e leads entry => ?_⟩
  · simp only [Validator.invalidate, Loader.invalidate_of_absent absent]
  · have located := run.located place e entry
    have answer : (run.finish.invalidate fs path).1 = true ↔
        place ∉ e.module.dependencyLocations [] := by
      simp [Validator.invalidate, Loader.invalidate_of_entry leads entry]
    have entries (other : Location) :
        (run.finish.invalidate fs path).2.loader.cache.entry? other =
          if other ∈ place :: e.module.dependencyLocations [] then none
          else run.finish.loader.cache.entry? other :=
      Loader.entry?_invalidate leads entry other
    have below := Module.covers_dependencyLocations e.module
    have covers : Module.Covers [e.module] (place :: e.module.dependencyLocations []) :=
      located ▸ below.add_root
    refine ⟨located, fun single => ⟨?_, fun x node => ?_⟩, _, below, answer, entries,
      fun x node => ?_, fun gone member later => ?_⟩
    · exact answer.mpr (located ▸ single.location_not_mem below)
    · exact (entries _).trans (if_pos (single.mem_of_covers covers x node))
    · exact covers.missed x (by rwa [Module.trees_singleton])
    · have absent := (entries gone).trans (if_pos member)
      have counted : (run.finish.invalidate fs path).2.loader.loads = run.finish.loader.loads :=
        Loader.invalidate_loads
      rw [← counted]
      exact ⟨fun e' entry' => loads_lt_of_entry absent later entry',
        fun fs' path' m leads' loaded => loads_lt_of_load absent leads' loaded⟩

end Run

def moduleOf (image : Image) (dependencies : List Module) (loadId : Nat) : Module :=
  ⟨[imageFile "rmod" image.name], .ofBytes image.encode, image, dependencies, [], loadId⟩

def holding (modules : List Module) (loads : Nat) : Loader where
  extension := "rmod"
  hosts := ["core"]
  cache := ⟨.pinned, modules.map fun m => (m.location, ⟨m.fingerprint, m⟩)⟩
  loads := loads
  scopes := .empty

/-! `Lib` keeps the module of `Base` from before `Base.rmod` was mended, when it did not refer to
`Unit`. It stands before the new one in the tree of `App`. -/

namespace Mended

def app : Image := .referring "App" ["Lib", "Base"]

def lib : Image := .referring "Lib" ["Base"]

def base : Image := .referring "Base" []

def mended : Image := .referring "Base" ["Unit"]

def unit : Image := .referring "Unit" []

def before : FileSystem := ofImages "rmod" [app, lib, base, unit]

def after : FileSystem := ofImages "rmod" [app, lib, mended, unit]

theorem decodes : ∀ image ∈ [app, lib, base, mended, unit], Image.decode image.encode = .ok image :=
  decodes_of_short (by decide +kernel)

def run : Run :=
  ⟨{ Settings.default with cachePolicy := .pinned }, Rule.expressive .builtin,
    [(before, .load ⟨"/Lib.rmod"⟩), (before, .invalidate ⟨"/Base.rmod"⟩),
      (after, .load ⟨"/App.rmod"⟩)]⟩

def baseModule : Module := moduleOf base [] 1

def libModule : Module := moduleOf lib [baseModule] 2

def unitModule : Module := moduleOf unit [] 3

def mendedModule : Module := moduleOf mended [unitModule] 4

def appModule : Module := moduleOf app [libModule, mendedModule] 5

theorem load_lib : (run.start.loader.load before ⟨"/Lib.rmod"⟩).2 =
    holding [libModule, baseModule] 2 := by
  have leads : before.canonicalize ⟨"/Lib.rmod"⟩ = .ok ["Lib.rmod"] := rfl
  have read : before.readAt ["Lib.rmod"] = .ok lib.encode := rfl
  have found : (run.scopeAt []).find before "Base" = .image ["Base.rmod"] base.encode base :=
    Scope.find_eq_image.mpr ⟨rfl, decodes base (by simp), rfl⟩
  have walk : Follows before (run.scopeAt []) ["Lib"] "Lib" lib.references ⟨run.start.loader, []⟩
      [.module baseModule] ⟨holding [baseModule] 1, []⟩ :=
    .linked (by decide) rfl found .nil (by decide) rfl .nil
  rw [Loader.load_of_ok leads]
  exact congrArg Prod.snd (Loader.loadAt_of_follows rfl read (decodes lib (by simp)) walk rfl)

theorem load_app : ((holding [libModule] 2).load after ⟨"/App.rmod"⟩).2 =
    holding [appModule, mendedModule, unitModule, libModule] 5 := by
  have leads : after.canonicalize ⟨"/App.rmod"⟩ = .ok ["App.rmod"] := rfl
  have read : after.readAt ["App.rmod"] = .ok app.encode := rfl
  have found : (run.scopeAt []).find after "Base" = .image ["Base.rmod"] mended.encode mended :=
    Scope.find_eq_image.mpr ⟨rfl, decodes mended (by simp), rfl⟩
  have found' : (run.scopeAt []).find after "Unit" = .image ["Unit.rmod"] unit.encode unit :=
    Scope.find_eq_image.mpr ⟨rfl, decodes unit (by simp), rfl⟩
  have inner : Follows after (run.scopeAt []) ["Base", "App"] "Base" mended.references
      ⟨holding [libModule] 2, []⟩ [.module unitModule] ⟨holding [unitModule, libModule] 3, []⟩ :=
    .linked (by decide) rfl found' .nil (by decide) rfl .nil
  have walk : Follows after (run.scopeAt []) ["App"] "App" app.references
      ⟨holding [libModule] 2, []⟩ [.module libModule, .module mendedModule]
      ⟨holding [mendedModule, unitModule, libModule] 4, []⟩ :=
    .cached (by decide) rfl (.linked (by decide) rfl found inner (by decide) rfl .nil)
  rw [Loader.load_of_ok leads]
  exact congrArg Prod.snd (Loader.loadAt_of_follows rfl read (decodes app (by simp)) walk rfl)

theorem finish_run :
    run.finish.loader = holding [appModule, mendedModule, unitModule, libModule] 5 := by
  change (((run.start.loader.load before ⟨"/Lib.rmod"⟩).2.invalidate before ⟨"/Base.rmod"⟩).2.load
    after ⟨"/App.rmod"⟩).2 = _
  rw [load_lib]
  exact load_app

theorem leads_app : Loader.cacheKey? after ⟨"/App.rmod"⟩ = some ["App.rmod"] := rfl

theorem entry_app : run.finish.loader.cache.entry? ["App.rmod"] =
    some ⟨appModule.fingerprint, appModule⟩ := by
  rw [finish_run]
  rfl

theorem entry_unit :
    (run.finish.invalidate after ⟨"/App.rmod"⟩).2.loader.cache.entry? ["Unit.rmod"] =
      some ⟨unitModule.fingerprint, unitModule⟩ := by
  change (run.finish.loader.invalidate after ⟨"/App.rmod"⟩).2.cache.entry? _ = _
  rw [finish_run]
  rfl

/-- The run up to the first load. -/
def outset : Run := { run with moments := [(before, .load ⟨"/Lib.rmod"⟩)] }

theorem entry_lib : outset.finish.loader.cache.entry? ["Lib.rmod"] =
    some ⟨libModule.fingerprint, libModule⟩ := by
  change (run.start.loader.load before ⟨"/Lib.rmod"⟩).2.cache.entry? _ = _
  rw [load_lib]
  rfl

theorem single_lib : libModule.Single := by
  have tree : libModule.tree = [libModule, baseModule] := rfl
  have apart : libModule.location ≠ baseModule.location := by decide
  intro y node z node' same
  rw [tree, List.mem_pair] at node node'
  rcases node with rfl | rfl <;> rcases node' with rfl | rfl
  · rfl
  · exact absurd same apart
  · exact absurd same.symm apart
  · rfl

/-- `Lib` is forgotten after the first load, with its whole tree. `App` is forgotten in the end, and
whatever is loaded for it later is decoded again. -/
theorem drops :
    (Loader.cacheKey? before ⟨"/Lib.rmod"⟩ = some ["Lib.rmod"] ∧
      outset.finish.loader.cache.entry? ["Lib.rmod"] = some ⟨libModule.fingerprint, libModule⟩ ∧
      libModule.Single ∧ (outset.finish.invalidate before ⟨"/Lib.rmod"⟩).1 = true ∧
      ∀ x ∈ libModule.tree, (outset.finish.invalidate before ⟨"/Lib.rmod"⟩).2.loader.cache.entry?
        x.location = none) ∧
    Loader.cacheKey? after ⟨"/App.rmod"⟩ = some ["App.rmod"] ∧
      run.finish.loader.cache.entry? ["App.rmod"] = some ⟨appModule.fingerprint, appModule⟩ ∧
      (run.finish.invalidate after ⟨"/App.rmod"⟩).2.loader.cache.entry? ["App.rmod"] = none ∧
      ∀ later fs path m, fs.canonicalize path = .ok ["App.rmod"] →
        (((run.finish.invalidate after ⟨"/App.rmod"⟩).2.run later).loader.load fs path).1 = .ok m →
          5 < m.loadId := by
  constructor
  · obtain ⟨-, whole, -⟩ :=
      (Run.invalidate_drops outset before ⟨"/Lib.rmod"⟩).2 _ _ rfl entry_lib
    exact ⟨rfl, entry_lib, single_lib, whole single_lib⟩
  · obtain ⟨-, -, below, -, -, entries, -, newer⟩ :=
      (Run.invalidate_drops run after ⟨"/App.rmod"⟩).2 _ _ leads_app entry_app
    have gone : (["App.rmod"] : Location) ∈ ["App.rmod"] :: below := List.mem_cons_self
    have counted : run.finish.loader.loads = 5 := by rw [finish_run]; rfl
    refine ⟨leads_app, entry_app, (entries _).trans (if_pos gone), fun later fs path m => ?_⟩
    exact counted ▸ (newer _ gone later).2 fs path m

end Mended

theorem Run.invalidate_leaves :
    ¬ ∀ (run : Run) (fs : FileSystem) (path : Path) (place : Location) (e : CacheEntry),
      Loader.cacheKey? fs path = some place → run.finish.loader.cache.entry? place = some e →
        ∀ x ∈ e.module.tree,
          (run.finish.invalidate fs path).2.loader.cache.entry? x.location = none := by
  intro forgets
  have node : Mended.unitModule ∈ Mended.appModule.tree :=
    Module.mem_tree_of_dependency (d := Mended.mendedModule) (.tail _ (.head _))
      (Module.mem_tree_of_dependency (.head _) (Module.self_mem_tree _))
  have gone := forgets _ _ _ _ _ Mended.leads_app Mended.entry_app _ node
  cases Mended.entry_unit.symm.trans gone

/-! `App` and `Lib` refer to each other, and the tree of a new module of `App` holds the old one. -/

namespace Echoed

open Pair (app back decodes)

def files : FileSystem := ofImages "rmod" [app, back]

def run : Run :=
  ⟨{ Settings.default with cachePolicy := .pinned }, Rule.expressive .builtin,
    [(files, .load ⟨"/Lib.rmod"⟩), (files, .invalidate ⟨"/App.rmod"⟩),
      (files, .load ⟨"/App.rmod"⟩)]⟩

def echo : Module := moduleOf app [] 1

def libModule : Module := moduleOf back [echo] 2

def appModule : Module := moduleOf app [libModule] 3

theorem load_lib : (run.start.loader.load files ⟨"/Lib.rmod"⟩).2 = holding [libModule, echo] 2 := by
  have leads : files.canonicalize ⟨"/Lib.rmod"⟩ = .ok ["Lib.rmod"] := rfl
  have read : files.readAt ["Lib.rmod"] = .ok back.encode := rfl
  have found : (run.scopeAt []).find files "App" = .image ["App.rmod"] app.encode app :=
    Scope.find_eq_image.mpr ⟨rfl, decodes app (by simp), rfl⟩
  have walk : Follows files (run.scopeAt []) ["Lib"] "Lib" back.references ⟨run.start.loader, []⟩
      [.module echo] ⟨holding [echo] 1, []⟩ :=
    .linked (by decide) rfl found (.cyclic (by decide) .nil) (by decide) rfl .nil
  rw [Loader.load_of_ok leads]
  exact congrArg Prod.snd (Loader.loadAt_of_follows rfl read (decodes back (by simp)) walk rfl)

theorem load_app : ((holding [libModule] 2).load files ⟨"/App.rmod"⟩).2 =
    holding [appModule, libModule] 3 := by
  have leads : files.canonicalize ⟨"/App.rmod"⟩ = .ok ["App.rmod"] := rfl
  have read : files.readAt ["App.rmod"] = .ok app.encode := rfl
  have walk : Follows files (run.scopeAt []) ["App"] "App" app.references
      ⟨holding [libModule] 2, []⟩ [.module libModule] ⟨holding [libModule] 2, []⟩ :=
    .cached (by decide) rfl .nil
  rw [Loader.load_of_ok leads]
  exact congrArg Prod.snd (Loader.loadAt_of_follows rfl read (decodes app (by simp)) walk rfl)

theorem finish_run : run.finish.loader = holding [appModule, libModule] 3 := by
  change (((run.start.loader.load files ⟨"/Lib.rmod"⟩).2.invalidate files ⟨"/App.rmod"⟩).2.load
    files ⟨"/App.rmod"⟩).2 = _
  rw [load_lib]
  exact load_app

end Echoed

theorem Run.invalidate_denies :
    ¬ ∀ (run : Run) (fs : FileSystem) (path : Path) (place : Location) (e : CacheEntry),
      Loader.cacheKey? fs path = some place → run.finish.loader.cache.entry? place = some e →
        (run.finish.invalidate fs path).1 = true := by
  intro tells
  have entry : Echoed.run.finish.loader.cache.entry? ["App.rmod"] =
      some ⟨Echoed.appModule.fingerprint, Echoed.appModule⟩ := by
    rw [Echoed.finish_run]
    rfl
  have told := tells Echoed.run Echoed.files ⟨"/App.rmod"⟩ ["App.rmod"] _ rfl entry
  change (Echoed.run.finish.loader.invalidate Echoed.files ⟨"/App.rmod"⟩).1 = true at told
  rw [Echoed.finish_run] at told
  cases told

end RuleLint
