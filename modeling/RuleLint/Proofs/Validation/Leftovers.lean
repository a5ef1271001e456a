import RuleLint.Proofs.Module.Remains
import RuleLint.Proofs.Validation.Unresolved

/-!
# What a failed load leaves behind

A load that fails leaves modules in the cache. Where no two modules lead to each other, nothing is
missing below any of them, so each of them would be loaded by a new loader too. A module of a circle
with the root is left behind as well: the loader hands it out from then on, while a new one fails
(`Loader.load_leaves_behind`).
-/

namespace RuleLint

open File (Path Location FileSystem)
open Relation (ReflTransGen)

section

variable {fs : FileSystem} {scope : Scope} {directory location place : Location} {root x y : Image}
  {name : String} {bytes : Text.Bytes} {path : Path}

namespace Orderly

variable (orderly : Orderly fs scope directory)

include orderly

theorem eq_of_find (inside : InDirectory fs directory root)
    (found : scope.find fs root.name = .image place bytes x) : x = root := by
  obtain ⟨-, -, here, read, decoded⟩ := orderly.find_eq_image.mp found
  have beside := inDirectory_of_read read decoded
  rw [here, List.dropLast_concat] at beside
  exact orderly.image_eq beside inside (Scope.find_eq_image.mp found).2.2

theorem shows_of_find (found : scope.find fs name = .image place bytes x)
    (leads : fs.canonicalize path = .ok place) :
    Shows fs path place x ∧ place.dropLast = directory := by
  obtain ⟨-, -, here, read, decoded⟩ := orderly.find_eq_image.mp found
  exact ⟨⟨bytes, leads, read, decoded⟩, by rw [here, List.dropLast_concat]⟩

theorem spans_of_leadsOn (inside : InDirectory fs directory root) (leads : scope.LeadsOn fs root x) :
    scope.Spans fs root x := by
  induction leads with
  | refl => exact .refl
  | @tail a b _ leads ih =>
      by_cases same : b.name = root.name
      · obtain ⟨r, -, place, bytes, found⟩ := leads
        rw [← (Scope.find_eq_image.mp found).2.2, same] at found
        rw [orderly.eq_of_find inside found]
        exact .refl
      · exact ih.tail ⟨leads, same⟩

end Orderly

theorem Scope.Spans.leadsOn (spans : scope.Spans fs root x) : scope.LeadsOn fs root x :=
  spans.lift id fun _ _ leads => leads.1

namespace Loader

variable {l l' : Loader} {failure : DependencyFailure}

theorem walk_of_unresolved (empty : ∀ place, l.cache.entry? place = none)
    (shown : Shows fs path location root)
    (failed : (l.load fs path).1 = .error (.unresolved failure)) :
    ∃ l₁ links s, (∀ place, l₁.cache.entry? place = none) ∧
      Follows fs (l.scope (Location.path location.dropLast)) [root.name] root.name root.references
        ⟨l₁, []⟩ links s ∧
      s.failures ≠ [] ∧ failure.failures = s.failures ∧ (l.load fs path).2 = s.loader := by
  obtain ⟨bytes, leads, read, decoded⟩ := shown
  have load := loadAtIf_loads fs (l.scope (Location.path location.dropLast)) location
    (fun _ => true) l
  rw [loadAt_eq, ← load_of_ok leads, failed] at load
  generalize (l.load fs path).2 = l' at load ⊢
  cases load with
  | unresolved forgets read' decoded' accepted walk broken =>
      obtain ⟨rfl, rfl⟩ := image_unique read decoded read' decoded'
      exact ⟨_, _, _, forgets.entry?_eq_none empty, walk, broken, rfl, rfl⟩

theorem load_of_entry {e : CacheEntry} (entry : l.cache.entry? location = some e)
    (leads : fs.canonicalize path = .ok location) (read : fs.readAt location = .ok bytes)
    (same : e.fingerprint = .ofBytes bytes) (unchanged : e.module.dependenciesCurrent fs = true) :
    (l.load fs path).1 = .ok e.module := by
  have handed : (l.loadAtIf fs (l.scope (Location.path location.dropLast)) location
      fun _ => true).1 = .ok (some e.module) := by
    rw [loadAtIf_of_entry entry read same unchanged]
    rfl
  rw [loadAt_eq, ← load_of_ok leads] at handed
  cases loaded : (l.load fs path).1 with
  | error cause => simp [loaded, Except.map] at handed
  | ok m => simpa [loaded, Except.map] using handed

end Loader

/-- A walk from a root in an orderly directory by a loader that remembered nothing. -/
structure FirstWalk (fs : FileSystem) (scope : Scope) (directory : Location) (root : Image)
    (s : LinkState) : Prop where
  orderly : Orderly fs scope directory
  inside : InDirectory fs directory root
  walked : ∃ l links, (∀ place, ModuleCache.entry? l.cache place = none) ∧
    Follows fs scope [root.name] root.name root.references ⟨l, []⟩ links s

namespace FirstWalk

variable {s : LinkState} {e : CacheEntry} (walk : FirstWalk fs scope directory root s)

include walk

theorem separates : scope.Separates fs := Scope.separates_of_noSlash walk.orderly.noSlash

theorem drawn : s.loader.Holds (Drawn fs scope root) := by
  obtain ⟨l, links, empty, walked⟩ := walk.walked
  exact (walked.drawn empty).1

theorem clear : s.loader.Holds fun place e => ClearAt fs scope root place e.module := by
  obtain ⟨l, links, empty, walked⟩ := walk.walked
  exact walked.clear walk.separates empty fun found => walk.orderly.eq_of_find walk.inside found

theorem mem_failures_iff {requester : String} :
    (∃ f ∈ s.failures, f.name = name ∧ f.requestedBy = requester) ↔
      ∃ x, scope.Spans fs root x ∧ x.name = requester ∧ ∃ r ∈ x.references, r.name = name ∧
        name ≠ root.name ∧ ∃ probes, scope.find fs name = .refused probes := by
  obtain ⟨l, links, empty, walked⟩ := walk.walked
  exact walked.mem_failures_iff walk.separates empty

theorem failures_eq_nil_iff :
    s.failures = [] ↔ ∀ x, scope.Spans fs root x → ¬ scope.Dangles fs root x := by
  obtain ⟨l, links, empty, walked⟩ := walk.walked
  exact walked.failures_eq_nil_iff walk.separates empty

theorem entangles_of_left (entry : s.loader.cache.entry? place = some e) {f : ResolutionFailure}
    (member : f ∈ s.failures) (onward : scope.LeadsOn fs e.module.image x)
    (mentions : x.Mentions f.name) : scope.Entangles fs e.module.image x := by
  obtain ⟨r, among, same⟩ := mentions
  obtain ⟨-, -, -, -, -, -, other, probes, refused⟩ :=
    walk.mem_failures_iff.mp ⟨f, member, rfl, rfl⟩
  rw [← same] at other refused
  exact ((walk.clear place e entry).2 x onward r among probes refused).resolve_right other

theorem reported_of_left (entry : s.loader.cache.entry? place = some e)
    (onward : scope.LeadsOn fs e.module.image x) {r : Image.Reference} (among : r ∈ x.references)
    (other : r.name ≠ root.name) {probes : List Probe}
    (refused : scope.find fs r.name = .refused probes) : ∃ f ∈ s.failures, f.name = r.name := by
  have spans : scope.Spans fs root e.module.image :=
    ((walk.drawn place e entry).nodes _ (Module.self_mem_tree _)).2
  have through := walk.orderly.spans_of_leadsOn walk.inside (spans.leadsOn.trans onward)
  obtain ⟨f, member, same, -⟩ := walk.mem_failures_iff.mpr
    ⟨x, through, rfl, r, among, rfl, other, probes, refused⟩
  exact ⟨f, member, same⟩

theorem entry_of_circle {q : Image} (spans : scope.Spans fs root q) (other : q ≠ root)
    (sound : scope.Sound fs root q) (read : fs.readAt place = .ok bytes)
    (decoded : Image.decode bytes = .ok q) (beside : place.dropLast = directory) :
    ∃ e, s.loader.cache.entry? place = some e ∧ e.module.image = q ∧
      e.fingerprint = .ofBytes bytes ∧ e.module.dependenciesCurrent fs = true := by
  obtain ⟨l, links, empty, walked⟩ := walk.walked
  obtain ⟨here, e, entry, rfl⟩ :=
    walked.caches_of_spans walk.separates empty spans other.symm sound
  obtain ⟨⟨bytes', found, fingerprint⟩, nodes⟩ := walk.drawn here e entry
  obtain ⟨-, -, same, read', -⟩ := walk.orderly.find_eq_image.mp found
  obtain rfl : place = here :=
    (walk.orderly.tidy.location_eq beside read decoded).trans same.symm
  rw [read] at read'
  cases read'
  exact ⟨e, entry, rfl, fingerprint, (Module.dependenciesCurrent_iff _).mpr
    fun d dependency x node => (nodes x (Module.mem_tree_of_dependency dependency node)).1⟩

theorem dangles_of_back {q : Image} (inside : InDirectory fs directory q)
    (spans : scope.Spans fs root q) (other : q ≠ root) (back : scope.LeadsOn fs q root)
    (broken : s.failures ≠ []) : ∃ x, scope.Spans fs q x ∧ scope.Dangles fs q x := by
  obtain ⟨f, member⟩ := List.exists_mem_of_ne_nil _ broken
  obtain ⟨x, reached, -, r, among, same, -, probes, refused⟩ :=
    walk.mem_failures_iff.mp ⟨f, member, rfl, rfl⟩
  refine ⟨x, walk.orderly.spans_of_leadsOn inside (back.trans reached.leadsOn), r, among, ?_,
    probes, same ▸ refused⟩
  intro own
  rcases spans.cases_tail with rfl | ⟨y, -, ⟨r', -, place, bytes, found⟩, -⟩
  · exact other rfl
  · rw [← (Scope.find_eq_image.mp found).2.2, ← own, same, refused] at found
    cases found

end FirstWalk

namespace Loader

variable {l : Loader} {q : Image} {s : LinkState}

theorem load_of_orderly (empty : ∀ place, l.cache.entry? place = none)
    (orderly : Orderly fs (l.scope (Location.path directory)) directory)
    (shown : Shows fs path place q) (beside : place.dropLast = directory) :
    ((∃ m, (l.load fs path).1 = .ok m) ∧
        ∀ x, (l.scope (Location.path directory)).Spans fs q x →
          ¬ (l.scope (Location.path directory)).Dangles fs q x) ∨
      ((∃ failure, (l.load fs path).1 = .error (.unresolved failure)) ∧
        ∃ x, (l.scope (Location.path directory)).Spans fs q x ∧
          (l.scope (Location.path directory)).Dangles fs q x) := by
  subst beside
  obtain ⟨l₁, links, s, fresh, walked, outcome⟩ := load_of_shows empty shown
  obtain ⟨bytes, leads, read, decoded⟩ := shown
  have walk : FirstWalk fs (l.scope (Location.path place.dropLast)) place.dropLast q s :=
    ⟨orderly, inDirectory_of_read read decoded, l₁, links, fresh, walked⟩
  rcases outcome with ⟨whole, loaded⟩ | ⟨broken, failed⟩
  · exact .inl ⟨loaded, walk.failures_eq_nil_iff.mp whole⟩
  · rw [ne_eq, walk.failures_eq_nil_iff] at broken
    push Not at broken
    exact .inr ⟨⟨_, failed⟩, broken⟩

/-- After a load that failed, a reference that was reported is found below a module in the cache only
past two modules that lead to each other, and a new loader loads the module unless there is such a
reference, or one to the root by a name that cannot be referred to. A module that the root leads to
and that leads back to it is in the cache, where nothing is missing on its own way: it is loaded from
then on, and fails to be loaded by a new loader. -/
theorem load_leaves_behind (l : Loader) (fs : FileSystem) (path : Path) (location : Location)
    (root : Image) (failure : DependencyFailure) (empty : ∀ place, l.cache.entry? place = none)
    (tree : fs.IsTree) (tidy : Tidy fs l.extension location.dropLast)
    (shown : Shows fs path location root)
    (failed : (l.load fs path).1 = .error (.unresolved failure)) :
    let scope := l.scope (Location.path location.dropLast)
    let after := (l.load fs path).2
    (∀ place e, after.cache.entry? place = some e →
      (∀ x, ∀ f ∈ failure.failures, scope.LeadsOn fs e.module.image x → x.Mentions f.name →
        scope.Entangles fs e.module.image x) ∧
      ∀ path', fs.canonicalize path' = .ok place →
        (∃ m, (l.load fs path').1 = .ok m) ∨
          ∃ x name, scope.LeadsOn fs e.module.image x ∧ x.Mentions name ∧
            ((∃ f ∈ failure.failures, f.name = name) ∧ scope.Entangles fs e.module.image x ∨
              name = root.name ∧ ∃ probes, scope.find fs name = .refused probes)) ∧
    ∀ path' place q, Shows fs path' place q → place.dropLast = location.dropLast → q ≠ root →
      scope.Spans fs root q → scope.LeadsOn fs q root → scope.Sound fs root q →
      (∃ e, after.cache.entry? place = some e ∧ e.module.image = q ∧
        (after.load fs path').1 = .ok e.module) ∧
      ∃ failure', (l.load fs path').1 = .error (.unresolved failure') := by
  intro scope after
  obtain ⟨l₁, links, s, fresh, walked, broken, reported, left⟩ :=
    walk_of_unresolved empty shown failed
  have inside : InDirectory fs location.dropLast root := by
    obtain ⟨bytes, -, read, decoded⟩ := shown
    exact inDirectory_of_read read decoded
  have orderly : Orderly fs scope location.dropLast := inside.orderly tree rfl tidy
  have walk : FirstWalk fs scope location.dropLast root s :=
    ⟨orderly, inside, l₁, links, fresh, walked⟩
  have same : after = s.loader := left
  rw [same, reported]
  constructor
  · intro place e entry
    refine ⟨fun x f member onward mentions => walk.entangles_of_left entry member onward mentions, ?_⟩
    intro path' leads
    obtain ⟨bytes, found⟩ := (walk.clear place e entry).1
    obtain ⟨shown', beside⟩ := orderly.shows_of_find found leads
    rcases load_of_orderly empty orderly shown' beside with
      ⟨loaded, -⟩ | ⟨-, x, spans, r, among, -, probes, refused⟩
    · exact .inl loaded
    · refine .inr ⟨x, r.name, spans.leadsOn, ⟨r, among, rfl⟩, ?_⟩
      -- References to the name of the root were passed over, so no failure was reported for them.
      by_cases own : r.name = root.name
      · exact .inr ⟨own, probes, refused⟩
      · obtain ⟨f, member, named⟩ := walk.reported_of_left entry spans.leadsOn among own refused
        exact .inl ⟨⟨f, member, named⟩,
          walk.entangles_of_left entry member spans.leadsOn ⟨r, among, named.symm⟩⟩
  · intro path' place q shown' beside other spans back sound
    obtain ⟨bytes, leads, read, decoded⟩ := shown'
    obtain ⟨e, entry, image, fingerprint, unchanged⟩ :=
      walk.entry_of_circle spans other sound read decoded beside
    have handed := load_of_entry entry leads read fingerprint unchanged
    refine ⟨⟨e, entry, image, handed⟩, ?_⟩
    have held : InDirectory fs location.dropLast q := beside ▸ inDirectory_of_read read decoded
    obtain ⟨x, reached, dangles⟩ := walk.dangles_of_back held spans other back broken
    rcases load_of_orderly empty orderly ⟨bytes, leads, read, decoded⟩ beside with
      ⟨-, whole⟩ | ⟨failed', -⟩
    · exact absurd dangles (whole x reached)
    · exact failed'

end Loader

end

/-! The module `App` refers to `Lib` and to a module that is missing, and `Lib` refers back to it. -/

namespace Stranded

def app : Image := .referring "App" ["Lib", "Gone"]

def lib : Image := .referring "Lib" ["App"]

def files : FileSystem := ofImages "rmod" [app, lib]

def start : Loader := .new .default

def scope : Scope := start.scope (Location.path [])

theorem decodes : ∀ image ∈ [app, lib], Image.decode image.encode = .ok image :=
  decodes_of_short (by decide +kernel)

theorem tree : files.IsTree := isTree_ofImages (by decide)

theorem tidy : Tidy files "rmod" [] := tidy_ofImages decodes

theorem shows_app : Shows files ⟨"/App.rmod"⟩ ["App.rmod"] app :=
  ⟨app.encode, rfl, rfl, decodes app (by simp)⟩

theorem shows_lib : Shows files ⟨"/Lib.rmod"⟩ ["Lib.rmod"] lib :=
  ⟨lib.encode, rfl, rfl, decodes lib (by simp)⟩

theorem orderly : Orderly files scope [] :=
  InDirectory.orderly ⟨"App.rmod", app.encode, rfl, decodes app (by simp)⟩ tree rfl tidy

theorem find_app : scope.find files "App" = .image ["App.rmod"] app.encode app :=
  Scope.find_eq_image.mpr ⟨rfl, decodes app (by simp), rfl⟩

theorem find_lib : scope.find files "Lib" = .image ["Lib.rmod"] lib.encode lib :=
  Scope.find_eq_image.mpr ⟨rfl, decodes lib (by simp), rfl⟩

theorem refers_to_app {r : Image.Reference} (member : r ∈ lib.references) : r.name = "App" := by
  rw [List.mem_singleton.mp member]

theorem sound_lib : scope.Sound files app lib := by
  intro x onward
  have same : x = lib := by
    rcases onward.cases_head with same | ⟨y, ⟨⟨r, member, place, bytes, found⟩, other⟩, -⟩
    · exact same.symm
    · rw [refers_to_app member, find_app] at found
      cases found
      exact absurd rfl other
  rintro ⟨r, member, other, -⟩
  exact other (refers_to_app (same ▸ member))

theorem load_app : ∃ failure, (start.load files ⟨"/App.rmod"⟩).1 = .error (.unresolved failure) := by
  have dangles : scope.Dangles files app app := ⟨⟨"Gone", none⟩, by simp [app], by decide, _, rfl⟩
  rcases Loader.load_of_orderly (l := start) (fun _ => rfl) orderly shows_app rfl with
    ⟨-, whole⟩ | ⟨failed, -⟩
  · exact absurd dangles (whole app .refl)
  · exact failed

/-- The failed load of `App` leaves `Lib`, which a new loader does not load. -/
theorem hands_out_lib :
    (∀ place, start.cache.entry? place = none) ∧ files.IsTree ∧ Tidy files "rmod" [] ∧
      Shows files ⟨"/App.rmod"⟩ ["App.rmod"] app ∧
      (∃ failure, (start.load files ⟨"/App.rmod"⟩).1 = .error (.unresolved failure)) ∧
      (∃ e, (start.load files ⟨"/App.rmod"⟩).2.cache.entry? ["Lib.rmod"] = some e ∧
        e.module.image = lib ∧
        ((start.load files ⟨"/App.rmod"⟩).2.load files ⟨"/Lib.rmod"⟩).1 = .ok e.module) ∧
      ∃ failure, (start.load files ⟨"/Lib.rmod"⟩).1 = .error (.unresolved failure) := by
  obtain ⟨failure, failed⟩ := load_app
  have spans : scope.Spans files app lib :=
    .single ⟨⟨⟨"Lib", none⟩, by simp [app], _, _, find_lib⟩, by decide⟩
  have back : scope.LeadsOn files lib app :=
    .single ⟨⟨"App", none⟩, by simp [lib], _, _, find_app⟩
  have behind := (Loader.load_leaves_behind start files ⟨"/App.rmod"⟩ ["App.rmod"] app failure
    (fun _ => rfl) tree tidy shows_app failed).2 ⟨"/Lib.rmod"⟩ ["Lib.rmod"] lib shows_lib rfl
    (by decide) spans back sound_lib
  exact ⟨fun _ => rfl, tree, tidy, shows_app, ⟨failure, failed⟩, behind⟩

end Stranded

end RuleLint
