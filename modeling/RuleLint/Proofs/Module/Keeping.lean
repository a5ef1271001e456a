import Mathlib.Data.List.Forall2
import RuleLint.Proofs.Module.Following
import RuleLint.Proofs.Module.Trees

/-!
# What loading keeps true of the cache

`Keeps` collects what has to be shown of a property of cache entries for it to outlast the walk over
the references of an image: a current entry gives a module that can be trusted, and a module whose
references were answered by such modules may be stored. `Follows.keeps` is the induction over the
walk, and `Loads.keeps` carries it to a whole load.
-/

namespace RuleLint

open File (Location FileSystem)
open Hash (Fingerprint)
open Image (Reference)
open Text (Bytes)

def CacheEntry.Current (fs : FileSystem) (policy : CachePolicy) (place : Location)
    (e : CacheEntry) : Prop :=
  policy = .fingerprint →
    (∃ bytes, fs.readAt place = .ok bytes ∧ e.fingerprint = .ofBytes bytes) ∧
      ∀ d ∈ e.module.dependencies, ∀ x ∈ d.tree, x.UnchangedIn fs

def Loader.Holds (K : Location → CacheEntry → Prop) (l : Loader) : Prop :=
  ∀ place e, l.cache.entry? place = some e → K place e

/-- What becomes of a reference that does not fail. A module that answers it is trusted for the
place that the reference leads to. -/
inductive Answer (fs : FileSystem) (scope : Scope) (stack : List String)
    (T : Location → Module → Prop) : Reference → Link → Prop
  | cyclic {r : Reference} (onStack : r.name ∈ stack) : Answer fs scope stack T r .skipped
  | hosted {r : Reference} (fresh : r.name ∉ stack) (hosted : r.name ∈ scope.hosts) :
      Answer fs scope stack T r (.host r.name)
  | module {r : Reference} {place : Location} {bytes : Bytes} {m : Module} (fresh : r.name ∉ stack)
      (leads : scope.resolve fs r.name = .image place bytes) (trusted : T place m) :
      Answer fs scope stack T r (.module m)

/-- The properties `K` of entries, `T` of modules and `S` of an image that is being linked on a
stack are kept by loading. -/
structure Keeps (fs : FileSystem) (scope : Scope) (policy : CachePolicy)
    (K : Location → CacheEntry → Prop) (T : Location → Module → Prop)
    (S : List String → Image → Prop) : Prop where
  hit : ∀ {name place bytes e}, scope.resolve fs name = .image place bytes → K place e →
    e.Current fs policy place → T place e.module
  enter : ∀ {stack image r place bytes next}, S stack image → r ∈ image.references →
    r.name ∉ stack → scope.find fs r.name = .image place bytes next → S (r.name :: stack) next
  new : ∀ {stack image place bytes links}, S stack image → image.name ∈ stack →
    scope.find fs image.name = .image place bytes image →
    List.Forall₂ (Answer fs scope stack T) image.references links →
    ∀ l : Loader, K place ⟨.ofBytes bytes, l.built place (.ofBytes bytes) image links⟩ ∧
      T place (l.built place (.ofBytes bytes) image links)

section

variable {fs : FileSystem} {scope : Scope} {policy : CachePolicy} {stack : List String}
  {K : Location → CacheEntry → Prop} {T : Location → Module → Prop}
  {S : List String → Image → Prop}

theorem exists_of_forall₂ {α β : Type} {S : α → β → Prop} {xs : List α} {ys : List β}
    (each : List.Forall₂ S xs ys) {x : α} (member : x ∈ xs) : ∃ y ∈ ys, S x y := by
  induction each with
  | nil => cases member
  | cons related rest ih =>
      rcases List.mem_cons.mp member with rfl | later
      · exact ⟨_, by simp, related⟩
      · obtain ⟨y, among, related⟩ := ih later
        exact ⟨y, List.mem_cons_of_mem _ among, related⟩

namespace Answer

variable {references : List Reference} {links : List Link}

theorem dependencies (answers : List.Forall₂ (Answer fs scope stack T) references links) :
    List.Forall₂ (fun r d => ∃ place bytes, scope.resolve fs r.name = .image place bytes ∧ T place d)
      (references.filter fun r => r.name ∉ stack ∧ r.name ∉ scope.hosts)
      (links.filterMap Link.module?) := by
  induction answers with
  | nil => exact .nil
  | @cons r link references links answer rest ih =>
      cases answer with
      | cyclic onStack =>
          rw [List.filter_cons_of_neg (by simp [onStack]), List.filterMap_cons_none rfl]
          exact ih
      | hosted fresh hosted =>
          rw [List.filter_cons_of_neg (by simp [hosted]), List.filterMap_cons_none rfl]
          exact ih
      | @module place bytes m fresh leads trusted =>
          have unhosted : r.name ∉ scope.hosts := (Scope.resolve_eq_image.mp leads).1
          rw [List.filter_cons_of_pos (by simp [fresh, unhosted]),
            List.filterMap_cons_some (f := Link.module?) rfl]
          exact .cons ⟨place, bytes, leads, trusted⟩ ih

theorem hostReferences (answers : List.Forall₂ (Answer fs scope stack T) references links) :
    links.filterMap Link.hostName? =
      (references.filter fun r => r.name ∉ stack ∧ r.name ∈ scope.hosts).map (·.name) := by
  induction answers with
  | nil => rfl
  | @cons r link references links answer rest ih =>
      cases answer with
      | cyclic onStack =>
          rw [List.filter_cons_of_neg (by simp [onStack]), List.filterMap_cons_none rfl]
          exact ih
      | hosted fresh hosted =>
          rw [List.filter_cons_of_pos (by simp [fresh, hosted]),
            List.filterMap_cons_some (f := Link.hostName?) rfl, ih, List.map_cons]
      | module fresh leads trusted =>
          have unhosted : r.name ∉ scope.hosts := (Scope.resolve_eq_image.mp leads).1
          rw [List.filter_cons_of_neg (by simp [unhosted]), List.filterMap_cons_none rfl]
          exact ih

theorem of_dependency (answers : List.Forall₂ (Answer fs scope stack T) references links)
    {d : Module} (dependency : d ∈ links.filterMap Link.module?) :
    ∃ r ∈ references, r.name ∉ stack ∧ ∃ place bytes,
      scope.resolve fs r.name = .image place bytes ∧ T place d := by
  obtain ⟨link, member, same⟩ := List.mem_filterMap.mp dependency
  induction answers with
  | nil => cases member
  | @cons r head references links answer rest ih =>
      rcases List.mem_cons.mp member with rfl | later
      · cases answer with
        | cyclic onStack => cases same
        | hosted fresh hosted => cases same
        | @module place bytes m fresh leads trusted =>
            cases same
            exact ⟨r, by simp, fresh, place, bytes, leads, trusted⟩
      · obtain ⟨r', inside, found⟩ := ih (List.mem_filterMap.mpr ⟨link, later, same⟩) later
        exact ⟨r', List.mem_cons_of_mem _ inside, found⟩

end Answer

namespace Loader

variable {l l' : Loader} {place location : Location} {bytes : Bytes} {image : Image} {m : Module}
  {links : List Link} {f : Fingerprint}

theorem Holds.forget (holds : l.Holds K) (forgets : l.Forgets l') : l'.Holds K :=
  fun place e found => holds place e (forgets.entries found)

theorem Holds.adopt (holds : l.Holds K) (stale : l.cache.lookup location (some f) = none)
    (storable : K location ⟨f, l.built location f image links⟩) :
    (l.adopt location f image links).2.Holds K := by
  intro place e found
  rw [(adopt_of_stale _ _ stale).2] at found
  split at found
  · rename_i same
    cases found
    exact same ▸ storable
  · exact holds place e found

theorem entry_of_current (read : fs.readAt place = .ok bytes)
    (hit : l.current fs place (.ofBytes bytes) = (some m, l')) :
    ∃ e, l.cache.entry? place = some e ∧ e.module = m ∧ e.Current fs l.cache.policy place := by
  obtain ⟨-, found, unchanged⟩ := current_eq_some hit
  obtain ⟨e, entry, current, rfl⟩ := ModuleCache.lookup_eq_some.mp found
  refine ⟨e, entry, rfl, fun byFingerprint => ⟨⟨bytes, read, ?_⟩, ?_⟩⟩
  · have same : some (Fingerprint.ofBytes bytes) = some e.fingerprint := by
      simpa [ModuleCache.isCurrent, byFingerprint] using current
    exact (Option.some.inj same).symm
  · exact (Module.dependenciesCurrent_iff _).mp (unchanged byFingerprint)

end Loader

theorem Follows.keeps (keeps : Keeps fs scope policy K T S) {requester : String}
    {references : List Reference} {s s' : LinkState} {links : List Link}
    (walk : Follows fs scope stack requester references s links s') {image : Image}
    (standing : S stack image) (part : references ⊆ image.references)
    (ruled : s.loader.cache.policy = policy) (holds : s.loader.Holds K) :
    s'.loader.Holds K ∧ (s'.failures = s.failures →
      List.Forall₂ (Answer fs scope stack T) references links) := by
  induction walk generalizing image with
  | nil => exact ⟨holds, fun _ => .nil⟩
  | cyclic onStack rest ih =>
      obtain ⟨kept, answers⟩ := ih standing (List.subset_of_cons_subset part) ruled holds
      exact ⟨kept, fun whole => .cons (.cyclic onStack) (answers whole)⟩
  | hosted fresh found rest ih =>
      obtain ⟨kept, answers⟩ := ih standing (List.subset_of_cons_subset part) ruled holds
      exact ⟨kept, fun whole => .cons (.hosted fresh (Scope.find_eq_host.mp found)) (answers whole)⟩
  | cached fresh recalled rest ih =>
      obtain ⟨kept, answers⟩ := ih standing (List.subset_of_cons_subset part) ruled holds
      obtain ⟨-, place, bytes, resolved, hit⟩ := Loader.recollect_eq_some recalled
      obtain ⟨e, entry, rfl, current⟩ :=
        Loader.entry_of_current (Scope.readAt_of_resolve resolved) hit
      have trusted := keeps.hit resolved (holds place e entry) (ruled ▸ current)
      exact ⟨kept, fun whole => .cons (.module fresh resolved trusted) (answers whole)⟩
  | refused fresh missed found rest ih =>
      have forgets := (Loader.recollect_eq_none missed).1
      obtain ⟨kept, answers⟩ := ih standing (List.subset_of_cons_subset part)
        (forgets.policy.trans ruled) (holds.forget forgets)
      refine ⟨kept, fun whole => ?_⟩
      -- A failure was recorded here, and none is taken back.
      have longer := rest.failures_length_le
      rw [LinkState.fail_failures, LinkState.withLoader_failures, whole, List.length_append,
        List.length_singleton] at longer
      omega
  | broken fresh missed found entered failed rest inner ih =>
      have forgets := (Loader.recollect_eq_none missed).1
      have below := inner (keeps.enter standing (part (by simp)) fresh found) (List.Subset.refl _)
        (forgets.policy.trans ruled) (holds.forget forgets)
      obtain ⟨kept, answers⟩ := ih standing (List.subset_of_cons_subset part)
        (entered.policy_eq.trans (forgets.policy.trans ruled)) below.1
      refine ⟨kept, fun whole => ?_⟩
      have longer := rest.failures_length_le
      rw [whole] at longer
      omega
  | @linked stack _ r _ s s₁ s' inside links l l' place bytes next m fresh missed found entered
      whole adopted rest inner ih =>
      obtain ⟨forgets, stale⟩ := Loader.recollect_eq_none missed
      obtain ⟨resolved, decoded, named⟩ := Scope.find_eq_image.mp found
      have read := Scope.readAt_of_resolve resolved
      have entering := keeps.enter standing (part (by simp)) fresh found
      obtain ⟨below, answers⟩ := inner entering (List.Subset.refl _)
        (forgets.policy.trans ruled) (holds.forget forgets)
      have still := entered.lookup_eq_none read decoded (by simp [named]) (stale resolved)
      obtain ⟨storable, trusted⟩ := keeps.new entering (by simp [named]) (named.symm ▸ found)
        (answers (entered.failures_eq whole)) s₁.loader
      have stored : s₁.loader.adopt place (.ofBytes bytes) next inside = (m, l') := adopted
      have kept : l'.Holds K := by
        have after := below.adopt still storable
        rwa [stored] at after
      have same : s₁.loader.built place (.ofBytes bytes) next inside = m := by
        rw [← (Loader.adopt_of_stale _ _ still).1, stored]
      have policies : l'.cache.policy = policy := by
        have after : (s₁.loader.adopt place (.ofBytes bytes) next inside).2.cache.policy =
            s₁.loader.cache.policy := Loader.adopt_policy
        rw [stored] at after
        exact after.trans (entered.policy_eq.trans (forgets.policy.trans ruled))
      obtain ⟨last, others⟩ := ih standing (List.subset_of_cons_subset part) policies kept
      refine ⟨last, fun unfailed => .cons (.module fresh resolved (same ▸ trusted)) (others ?_)⟩
      exact unfailed.trans (entered.failures_eq whole).symm

end

end RuleLint
