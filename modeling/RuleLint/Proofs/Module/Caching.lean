import RuleLint.Module.Loading

namespace RuleLint

open File (Path Location FileSystem)
open Hash (Fingerprint)

theorem lookup_filter_ne {α β : Type} [BEq α] [LawfulBEq α] [DecidableEq α]
    (entries : List (α × β)) (k k' : α) :
    (entries.filter (·.1 ≠ k)).lookup k' = if k' = k then none else entries.lookup k' := by
  induction entries with
  | nil => simp
  | cons entry entries ih =>
      obtain ⟨key, value⟩ := entry
      by_cases dropped : key = k
      · subst dropped
        rw [List.filter_cons_of_neg (by simp), ih, List.lookup_cons]
        by_cases same : k' = key
        · simp [same]
        · have differs : (k' == key) = false := beq_eq_false_iff_ne.mpr same
          simp [same, differs]
      · rw [List.filter_cons_of_pos (by simpa using dropped), List.lookup_cons, List.lookup_cons, ih]
        by_cases same : k' = key
        · subst same
          simp [dropped]
        · have differs : (k' == key) = false := beq_eq_false_iff_ne.mpr same
          simp [differs]

namespace ModuleCache

variable {c : ModuleCache} {l l' : Location} {f : Fingerprint} {m m' : Module} {e : CacheEntry}

@[simp] theorem erase_policy : (c.erase l).policy = c.policy := rfl

@[simp] theorem entry?_empty (policy : CachePolicy) : ModuleCache.entry? (empty policy) l = none := rfl

@[simp] theorem entry?_clear : c.clear.entry? l = none := rfl

@[simp] theorem entry?_erase :
    ModuleCache.entry? (c.erase l) l' = if l' = l then none else c.entry? l' := by
  simp only [erase, entry?]
  rw [lookup_filter_ne]

theorem entry?_of_erase (found : ModuleCache.entry? (c.erase l) l' = some e) : c.entry? l' = some e := by
  rw [entry?_erase] at found
  split at found
  · cases found
  · exact found

theorem lookup_eq_some {f : Option Fingerprint} :
    c.lookup l f = some m ↔ ∃ e, c.entry? l = some e ∧ c.isCurrent e f = true ∧ e.module = m := by
  unfold lookup
  split
  · rename_i e found
    split <;> simp_all
  · simp_all

theorem lookup_of_entry (entry : c.entry? l = some e) (same : e.fingerprint = f) :
    c.lookup l (some f) = some e.module := by
  refine lookup_eq_some.mpr ⟨e, entry, ?_, rfl⟩
  unfold isCurrent
  split
  · rfl
  · simp [same]

theorem insert_of_current (current : c.lookup l (some f) = some m') :
    c.insert l f m = (m', c) := by
  simp [insert, current]

theorem insert_of_stale (stale : c.lookup l (some f) = none) :
    (c.insert l f m).1 = m ∧ (c.insert l f m).2.policy = c.policy ∧
      ∀ l', ModuleCache.entry? (c.insert l f m).2 l' = if l' = l then some ⟨f, m⟩ else c.entry? l' := by
  simp only [insert, stale, true_and]
  intro l'
  have rest : ModuleCache.entry? (c.erase l) l' = _ := entry?_erase
  unfold entry? at rest ⊢
  rw [List.lookup_cons, rest]
  by_cases same : l' = l
  · simp [same]
  · have differs : (l' == l) = false := by
      simpa using same
    simp [same, differs]

theorem insert_policy : (c.insert l f m).2.policy = c.policy := by
  cases current : c.lookup l (some f) with
  | some m' => rw [insert_of_current current]
  | none => exact (insert_of_stale current).2.1

end ModuleCache

namespace Loader

variable {fs : FileSystem} {l l' : Loader} {location : Location} {f : Fingerprint} {m : Module}

def settings (l : Loader) : Settings := ⟨l.extension, l.hosts, l.cache.policy⟩

@[simp] theorem settings_new (settings : Settings) : (new settings).settings = settings := rfl

@[simp] theorem withHost_extension (l : Loader) (name : String) :
    (l.withHost name).extension = l.extension := by
  unfold withHost
  split <;> rfl

@[simp] theorem withHost_cache (l : Loader) (name : String) :
    (l.withHost name).cache = l.cache := by
  unfold withHost
  split <;> rfl

@[simp] theorem new_extension (settings : Settings) :
    (new settings).extension = settings.extension := rfl

@[simp] theorem entry?_new (settings : Settings) (place : Location) :
    ModuleCache.entry? (new settings).cache place = none := rfl

theorem scope_eq_of_settings (same : l'.settings = l.settings) (directory : Path) :
    l'.scope directory = l.scope directory := by
  have hosts : l'.hosts = l.hosts := congrArg Settings.hostModules same
  have extension : l'.extension = l.extension := congrArg Settings.extension same
  simp only [scope, hosts, extension]

structure Forgets (l l' : Loader) : Prop where
  entries : ∀ {location e}, l'.cache.entry? location = some e → l.cache.entry? location = some e
  settings : l'.settings = l.settings

theorem Forgets.policy (forgets : l.Forgets l') : l'.cache.policy = l.cache.policy :=
  congrArg Settings.cachePolicy forgets.settings

theorem Forgets.refl (l : Loader) : l.Forgets l := ⟨id, rfl⟩

theorem Forgets.trans {l l' l'' : Loader} (first : l.Forgets l') (second : l'.Forgets l'') :
    l.Forgets l'' where
  entries found := first.entries (second.entries found)
  settings := second.settings.trans first.settings

theorem Forgets.entry?_eq_none (forgets : l.Forgets l')
    (empty : ∀ place, l.cache.entry? place = none) (place : Location) :
    l'.cache.entry? place = none := by
  cases entry : l'.cache.entry? place with
  | none => rfl
  | some e => exact absurd (forgets.entries entry) (by simp [empty])

theorem Forgets.erase (l : Loader) (location : Location) :
    l.Forgets { l with cache := l.cache.erase location } :=
  ⟨ModuleCache.entry?_of_erase, rfl⟩

theorem current_eq_some (hit : l.current fs location f = (some m, l')) :
    l' = l ∧ l.cache.lookup location (some f) = some m ∧
      (l.cache.policy = .fingerprint → m.dependenciesCurrent fs = true) := by
  unfold current at hit
  split at hit
  · simp at hit
  · rename_i found
    split at hit
    · simp at hit
    · rename_i unchanged
      simp only [Prod.mk.injEq, Option.some.injEq] at hit
      obtain ⟨rfl, rfl⟩ := hit
      refine ⟨rfl, found, fun policy => ?_⟩
      simpa [policy] using unchanged

theorem current_eq_none (miss : l.current fs location f = (none, l')) :
    l.Forgets l' ∧ l'.cache.lookup location (some f) = none := by
  unfold current at miss
  split at miss
  · rename_i absent
    cases miss
    exact ⟨.refl l, absent⟩
  · split at miss
    · cases miss
      refine ⟨.erase l location, ?_⟩
      simp [ModuleCache.lookup]
    · simp at miss

theorem current_of_entry {e : CacheEntry} (entry : l.cache.entry? location = some e)
    (same : e.fingerprint = f) (unchanged : e.module.dependenciesCurrent fs = true) :
    l.current fs location f = (some e.module, l) := by
  simp [current, ModuleCache.lookup_of_entry entry same, unchanged]

end Loader

end RuleLint
