import RuleLint.Proofs.Module.Loads

namespace RuleLint

open File (Location FileSystem)
open Hash (Fingerprint)
open Image (Reference)
open Text (Bytes)

structure CacheEntry.Unchanged (fs : FileSystem) (place : Location) (e : CacheEntry) : Prop where
  file : ∃ bytes, fs.readAt place = .ok bytes ∧ e.fingerprint = .ofBytes bytes
  nodes : ∀ x ∈ e.module.tree, x.UnchangedIn fs

def Loader.Settled (fs : FileSystem) (l : Loader) : Prop :=
  l.cache.policy = .fingerprint → l.Holds (CacheEntry.Unchanged fs)

/-- The loader `l'` holds what `l` holds, and one module for each image that was built since. -/
structure Loader.Extends (l l' : Loader) : Prop where
  settings : l'.settings = l.settings
  entries : ∀ {place e}, l.cache.entry? place = some e → l'.cache.entry? place = some e
  recent : ∀ {place e}, l'.cache.entry? place = some e → l.cache.entry? place = some e ∨
    l.loads < e.module.loadId ∧ e.module.loadId ≤ l'.loads
  loads_le : l.loads ≤ l'.loads
  size : l'.loads + l.cache.size = l.loads + l'.cache.size

variable {fs : FileSystem} {scope : Scope} {l l' l'' : Loader} {place location : Location}
  {bytes : Bytes} {f : Fingerprint} {image : Image} {links : List Link} {e : CacheEntry}

/-! ## The size of the cache -/

namespace ModuleCache

variable {c : ModuleCache} {m : Module}

theorem erase_of_absent (absent : c.entry? place = none) : c.erase place = c := by
  have kept : c.entries.filter (·.1 ≠ place) = c.entries := by
    rw [List.filter_eq_self]
    intro entry member
    have other : place ≠ entry.1 := by
      simpa using List.lookup_eq_none_iff.mp absent entry member
    simpa using other.symm
  simp only [erase, kept]

theorem size_insert (absent : c.entry? place = none) :
    (c.insert place f m).2.size = c.size + 1 := by
  have stale : c.lookup place (some f) = none := by simp [lookup, absent]
  simp only [insert, stale, erase_of_absent absent, size, List.length_cons]

end ModuleCache

namespace Loader

@[simp] theorem adopt_loads :
    (l.adopt location f image links).2.loads = l.loads + 1 := rfl

theorem adopt_of_absent (f : Fingerprint) (image : Image) (links : List Link)
    (absent : l.cache.entry? location = none) :
    (l.adopt location f image links).1 = l.built location f image links ∧
      ∀ place, ModuleCache.entry? (l.adopt location f image links).2.cache place =
        if place = location then some ⟨f, l.built location f image links⟩
        else l.cache.entry? place :=
  adopt_of_stale image links (by simp [ModuleCache.lookup, absent])

theorem size_adopt (absent : l.cache.entry? location = none) :
    (l.adopt location f image links).2.cache.size = l.cache.size + 1 :=
  ModuleCache.size_insert absent

/-! ## Growing loaders -/

namespace Extends

theorem refl (l : Loader) : l.Extends l := ⟨rfl, id, .inl, Nat.le_refl _, rfl⟩

theorem trans (first : l.Extends l') (second : l'.Extends l'') : l.Extends l'' where
  settings := second.settings.trans first.settings
  entries entry := second.entries (first.entries entry)
  recent := by
    intro place e entry
    have low := first.loads_le
    have high := second.loads_le
    rcases second.recent entry with before | ⟨later, bound⟩
    · refine (first.recent before).imp_right fun ⟨later, bound⟩ => ⟨later, ?_⟩
      omega
    · exact .inr ⟨by omega, bound⟩
  loads_le := Nat.le_trans first.loads_le second.loads_le
  size := by
    have one := first.size
    have two := second.size
    omega

theorem adopt (absent : l.cache.entry? location = none) :
    l.Extends (l.adopt location f image links).2 := by
  have stored := (adopt_of_absent f image links absent).2
  refine ⟨adopt_settings, ?_, ?_, by simp, ?_⟩
  · intro place e entry
    rw [stored, if_neg, entry]
    rintro rfl
    rw [absent] at entry
    cases entry
  · intro place e entry
    rw [stored] at entry
    split at entry
    · cases entry
      exact .inr ⟨Nat.lt_succ_self _, Nat.le_refl _⟩
    · exact .inl entry
  · rw [size_adopt absent, adopt_loads]
    omega

end Extends

/-! ## Settled loaders -/

theorem settled_of_pinned (pinned : l.cache.policy = .pinned) : l.Settled fs := by
  simp [Settled, pinned]

theorem current_of_entry_current (entry : l.cache.entry? place = some e)
    (current : e.Current fs l.cache.policy place) (read : fs.readAt place = .ok bytes) :
    l.current fs place (.ofBytes bytes) = (some e.module, l) := by
  cases policy : l.cache.policy with
  | pinned =>
      have found : l.cache.lookup place (some (.ofBytes bytes)) = some e.module :=
        ModuleCache.lookup_eq_some.mpr ⟨e, entry, by simp [ModuleCache.isCurrent, policy], rfl⟩
      simp [Loader.current, found, policy]
  | fingerprint =>
      obtain ⟨⟨bytes', read', same⟩, below⟩ := current policy
      rw [read] at read'
      cases read'
      exact current_of_entry entry same ((Module.dependenciesCurrent_iff _).mpr below)

namespace Settled

variable (settled : l.Settled fs)

include settled

theorem current (entry : l.cache.entry? place = some e) : e.Current fs l.cache.policy place := by
  intro policy
  obtain ⟨file, nodes⟩ := settled policy place e entry
  exact ⟨file, fun d dependency x node => nodes x (Module.mem_tree_of_dependency dependency node)⟩

theorem entry_eq_none (read : fs.readAt place = .ok bytes)
    (stale : l.cache.lookup place (some (.ofBytes bytes)) = none) : l.cache.entry? place = none := by
  cases entry : l.cache.entry? place with
  | none => rfl
  | some e =>
      have hit := current_of_entry_current entry (settled.current entry) read
      obtain ⟨-, found, -⟩ := current_eq_some hit
      rw [stale] at found
      cases found

theorem recollect_eq_none {name : String} (missed : l.recollect fs scope name = (none, l')) :
    l' = l ∧ ∀ {place bytes}, scope.resolve fs name = .image place bytes →
      l.cache.entry? place = none := by
  have absent {place bytes} (resolved : scope.resolve fs name = .image place bytes) :
      l.cache.entry? place = none := by
    cases entry : l.cache.entry? place with
    | none => rfl
    | some e =>
        have read := Scope.readAt_of_resolve resolved
        rw [recollect_of_image resolved,
          current_of_entry_current entry (settled.current entry) read] at missed
        cases missed
  refine ⟨?_, absent⟩
  unfold recollect at missed
  split at missed
  · rename_i place bytes resolved
    simp only [Loader.current, ModuleCache.lookup, absent resolved] at missed
    cases missed
    rfl
  · cases missed
    rfl

end Settled

end Loader

/-! ## Walks -/

theorem unchanged_built {stack : List String} (read : fs.readAt place = .ok bytes)
    (answers : List.Forall₂ (Answer fs scope stack fun _ m => ∀ x ∈ m.tree, x.UnchangedIn fs)
      image.references links) (l : Loader) :
    CacheEntry.Unchanged fs place
        ⟨.ofBytes bytes, l.built place (.ofBytes bytes) image links⟩ ∧
      ∀ x ∈ (l.built place (.ofBytes bytes) image links).tree, x.UnchangedIn fs := by
  have nodes : ∀ x ∈ (l.built place (.ofBytes bytes) image links).tree, x.UnchangedIn fs := by
    refine Module.forall_mem_tree.mpr ⟨⟨bytes, read, rfl⟩, fun d dependency => ?_⟩
    obtain ⟨r, -, -, place, bytes, -, below⟩ := Answer.of_dependency answers dependency
    exact below
  exact ⟨⟨⟨bytes, read, rfl⟩, nodes⟩, nodes⟩

theorem keeps_unchanged (fs : FileSystem) (scope : Scope) (policy : CachePolicy) :
    Keeps fs scope policy (CacheEntry.Unchanged fs) (fun _ m => ∀ x ∈ m.tree, x.UnchangedIn fs)
      fun _ _ => True where
  hit _ unchanged _ := unchanged.nodes
  enter _ _ _ _ := trivial
  new _ _ found answers l :=
    unchanged_built (Scope.readAt_of_resolve (Scope.find_eq_image.mp found).1) answers l

namespace Follows

variable {stack : List String} {requester : String} {references : List Reference}
  {s s' : LinkState}

theorem settled (walk : Follows fs scope stack requester references s links s')
    (settled : s.loader.Settled fs) : s'.loader.Settled fs := by
  intro policy
  have whole : references ⊆ Image.references ⟨requester, none, references, []⟩ :=
    List.Subset.refl _
  exact (walk.keeps (keeps_unchanged fs scope _) trivial whole rfl
    (settled (walk.policy_eq ▸ policy))).1

theorem entry_eq_none (walk : Follows fs scope stack requester references s links s')
    (settled : s.loader.Settled fs) {name : String} (member : name ∈ stack)
    (found : scope.find fs name = .image place bytes image)
    (absent : s.loader.cache.entry? place = none) : s'.loader.cache.entry? place = none := by
  obtain ⟨resolved, decoded, named⟩ := Scope.find_eq_image.mp found
  have read := Scope.readAt_of_resolve resolved
  have stale := walk.lookup_eq_none (f := some (.ofBytes bytes)) read decoded (named ▸ member)
    (by simp [ModuleCache.lookup, absent])
  exact (walk.settled settled).entry_eq_none read stale

theorem grows (walk : Follows fs scope stack requester references s links s')
    (settled : s.loader.Settled fs) : s.loader.Extends s'.loader := by
  induction walk with
  | nil => exact .refl _
  | cyclic onStack rest ih => exact ih settled
  | hosted fresh found rest ih => exact ih settled
  | cached fresh recalled rest ih => exact ih settled
  | refused fresh missed found rest ih =>
      obtain ⟨rfl, -⟩ := settled.recollect_eq_none missed
      exact ih settled
  | broken fresh missed found entered failed rest inner ih =>
      obtain ⟨rfl, -⟩ := settled.recollect_eq_none missed
      exact (inner settled).trans (ih (entered.settled settled))
  | @linked stack requester r rs s s₁ s' inside links l l' place bytes next m fresh missed found
      entered whole adopted rest inner ih =>
      obtain ⟨rfl, absent⟩ := settled.recollect_eq_none missed
      have empty := entered.entry_eq_none settled (by simp) found
        (absent (Scope.find_eq_image.mp found).1)
      have grown : s₁.loader.Extends (s₁.loader.adopt place (.ofBytes bytes) next inside).2 :=
        .adopt empty
      rw [adopted] at grown
      -- the first reference by itself is a walk too, and leaves a settled loader
      have first : Follows fs scope stack requester [r] s [.module m] (s₁.withLoader l') :=
        .linked fresh missed found entered whole adopted .nil
      exact (inner settled).trans (grown.trans (ih (first.settled settled)))

end Follows

/-! ## Loads -/

namespace Loader

variable {wanted : Image → Bool} {m : Module}

theorem loadAtIf_of_current (entry : l.cache.entry? location = some e)
    (current : e.Current fs l.cache.policy location) :
    l.loadAtIf fs scope location wanted =
      (.ok (if wanted e.module.image then some e.module else none), l) := by
  cases policy : l.cache.policy with
  | pinned =>
      have found : l.cache.lookup location none = some e.module :=
        ModuleCache.lookup_eq_some.mpr ⟨e, entry, by simp [ModuleCache.isCurrent, policy], rfl⟩
      simp [loadAtIf, fetch, found]
  | fingerprint =>
      obtain ⟨⟨bytes, read, same⟩, below⟩ := current policy
      exact loadAtIf_of_entry entry read same ((Module.dependenciesCurrent_iff _).mpr below)

theorem loadAtIf_of_absent (absent : l.cache.entry? location = none) :
    l.loadAtIf fs scope location wanted =
      match fs.readAt location with
      | .error cause => (.error (.io location.path cause), l)
      | .ok bytes =>
        match Image.decode bytes with
        | .error cause => (.error (.image location.path cause), l)
        | .ok image =>
          if wanted image then
            ((l.link fs scope location (.ofBytes bytes) image).1.map some,
              (l.link fs scope location (.ofBytes bytes) image).2)
          else (.ok none, l) := by
  have missing {f : Option Fingerprint} : l.cache.lookup location f = none := by
    simp [ModuleCache.lookup, absent]
  unfold loadAtIf fetch
  rw [missing]
  cases fs.readAt location with
  | error cause => rfl
  | ok bytes =>
      simp only [Loader.current, missing]
      cases Image.decode bytes <;> rfl

/-- What a load of an image that is `wanted` from `location` comes to where nothing is forgotten. It
may leave the loader as it is, or link an image that has no entry yet. -/
inductive Gains (fs : FileSystem) (scope : Scope) (location : Location) (wanted : Image → Bool)
    (l : Loader) : Except LoadError (Option Module) → Loader → Prop
  | known {e : CacheEntry} (entry : l.cache.entry? location = some e) :
      Gains fs scope location wanted l
        (.ok (if wanted e.module.image then some e.module else none)) l
  | nothing {result : Except LoadError (Option Module)} (empty : ∀ m, result ≠ .ok (some m)) :
      Gains fs scope location wanted l result l
  | linked {bytes : Bytes} {image : Image} {links : List Link} {s : LinkState}
      (absent : l.cache.entry? location = none) (read : fs.readAt location = .ok bytes)
      (decoded : Image.decode bytes = .ok image)
      (walk : Follows fs scope [image.name] image.name image.references ⟨l, []⟩ links s)
      (whole : s.failures = []) (vacant : s.loader.cache.entry? location = none) :
      Gains fs scope location wanted l
        (.ok (some (s.loader.adopt location (.ofBytes bytes) image links).1))
        (s.loader.adopt location (.ofBytes bytes) image links).2
  | unresolved {bytes : Bytes} {image : Image} {links : List Link} {s : LinkState}
      {failure : DependencyFailure} (absent : l.cache.entry? location = none)
      (read : fs.readAt location = .ok bytes) (decoded : Image.decode bytes = .ok image)
      (walk : Follows fs scope [image.name] image.name image.references ⟨l, []⟩ links s) :
      Gains fs scope location wanted l (.error (.unresolved failure)) s.loader

namespace Settled

variable (settled : l.Settled fs)

include settled

theorem gains (scope : Scope) (location : Location) (wanted : Image → Bool) :
    Gains fs scope location wanted l (l.loadAtIf fs scope location wanted).1
      (l.loadAtIf fs scope location wanted).2 := by
  cases entry : l.cache.entry? location with
  | some e =>
      rw [loadAtIf_of_current entry (settled.current entry)]
      exact .known entry
  | none =>
      rw [loadAtIf_of_absent entry]
      cases read : fs.readAt location with
      | error cause => exact .nothing (by simp)
      | ok bytes =>
          simp only
          cases decoded : Image.decode bytes with
          | error cause => exact .nothing (by simp)
          | ok image =>
              simp only
              split
              · have walk := linkReferences_follows fs scope [image.name] image.name
                  image.references ⟨l, []⟩
                rw [link_of_follows walk]
                split
                · rename_i whole
                  have stale := walk.lookup_eq_none (f := some (.ofBytes bytes)) read decoded
                    (by simp) (by simp [ModuleCache.lookup, entry])
                  exact .linked entry read decoded walk whole
                    ((walk.settled settled).entry_eq_none read stale)
                · exact .unresolved entry read decoded walk
              · exact .nothing (by simp)

theorem loadAtIf : (l.loadAtIf fs scope location wanted).2.Settled fs := by
  intro policy
  have load := loadAtIf_loads fs scope location wanted l
  have same : l.cache.policy = .fingerprint :=
    (congrArg Settings.cachePolicy load.settings_eq).symm.trans policy
  exact (load.keeps (keeps_unchanged fs scope .fingerprint) (fun unchanged _ => unchanged.nodes)
    (fun _ _ => trivial) (fun read _ _ answers l => unchanged_built read answers l) same
    (settled same)).1

end Settled

namespace Gains

variable {result : Except LoadError (Option Module)}
  (gains : Gains fs scope location wanted l result l')

include gains

theorem extends_loader (settled : l.Settled fs) : l.Extends l' := by
  cases gains with
  | known entry => exact .refl l
  | nothing empty => exact .refl l
  | linked absent read decoded walk whole vacant => exact (walk.grows settled).trans (.adopt vacant)
  | unresolved absent read decoded walk => exact walk.grows settled

theorem stored (given : result = .ok (some m)) :
    ∃ e, l'.cache.entry? location = some e ∧ e.module = m := by
  cases gains with
  | @known e entry =>
      split at given
      · cases given
        exact ⟨e, entry, rfl⟩
      · cases given
  | nothing empty => exact absurd given (empty m)
  | @linked bytes image links s absent read decoded walk whole vacant =>
      obtain ⟨adopted, entries⟩ := adopt_of_absent (.ofBytes bytes) image links vacant
      cases given
      exact ⟨_, by rw [entries, if_pos rfl], adopted.symm⟩
  | unresolved absent read decoded walk => cases given

end Gains

end Loader

end RuleLint
