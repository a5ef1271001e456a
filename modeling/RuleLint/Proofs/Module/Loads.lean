import RuleLint.Proofs.Module.Keeping

namespace RuleLint

open File (Path Location FileSystem FileError)
open Hash (Fingerprint)
open Image (Reference DecodeError)
open Text (Bytes)

/-- The load of an image that is `wanted` from `location` by the loader `l` gives the result and
leaves the loader `l'`. -/
inductive Loads (fs : FileSystem) (scope : Scope) (location : Location) (wanted : Image → Bool)
    (l : Loader) : Except LoadError (Option Module) → Loader → Prop
  | cached {e : CacheEntry} (entry : l.cache.entry? location = some e)
      (current : e.Current fs l.cache.policy location) :
      Loads fs scope location wanted l
        (.ok (if wanted e.module.image then some e.module else none)) l
  | unreadable {cause : FileError} (failed : fs.readAt location = .error cause) :
      Loads fs scope location wanted l (.error (.io location.path cause)) l
  | malformed {l' : Loader} {bytes : Bytes} {cause : DecodeError} (forgets : l.Forgets l')
      (read : fs.readAt location = .ok bytes) (failed : Image.decode bytes = .error cause) :
      Loads fs scope location wanted l (.error (.image location.path cause)) l'
  | unwanted {l' : Loader} {bytes : Bytes} {image : Image} (forgets : l.Forgets l')
      (read : fs.readAt location = .ok bytes) (decoded : Image.decode bytes = .ok image)
      (refused : wanted image = false) :
      Loads fs scope location wanted l (.ok none) l'
  | linked {l' : Loader} {bytes : Bytes} {image : Image} {links : List Link} {s : LinkState}
      (forgets : l.Forgets l') (read : fs.readAt location = .ok bytes)
      (decoded : Image.decode bytes = .ok image) (accepted : wanted image = true)
      (walk : Follows fs scope [image.name] image.name image.references ⟨l', []⟩ links s)
      (whole : s.failures = [])
      (stale : s.loader.cache.lookup location (some (.ofBytes bytes)) = none) :
      Loads fs scope location wanted l
        (.ok (some (s.loader.built location (.ofBytes bytes) image links)))
        (s.loader.adopt location (.ofBytes bytes) image links).2
  | unresolved {l' : Loader} {bytes : Bytes} {image : Image} {links : List Link} {s : LinkState}
      (forgets : l.Forgets l') (read : fs.readAt location = .ok bytes)
      (decoded : Image.decode bytes = .ok image) (accepted : wanted image = true)
      (walk : Follows fs scope [image.name] image.name image.references ⟨l', []⟩ links s)
      (broken : s.failures ≠ []) :
      Loads fs scope location wanted l
        (.error (.unresolved ⟨image.name, location.path, s.failures⟩)) s.loader

namespace Loader

variable {fs : FileSystem} {scope : Scope} {location : Location} {wanted : Image → Bool}
  {l l' : Loader} {m : Module}

theorem entry_of_lookup_none (found : l.cache.lookup location none = some m) :
    ∃ e, l.cache.entry? location = some e ∧ e.module = m ∧ l.cache.policy = .pinned := by
  obtain ⟨e, entry, current, same⟩ := ModuleCache.lookup_eq_some.mp found
  refine ⟨e, entry, same, ?_⟩
  cases policy : l.cache.policy with
  | pinned => rfl
  | fingerprint => simp [ModuleCache.isCurrent, policy] at current

theorem link_eq (location : Location) (f : Fingerprint) (image : Image) :
    l.link fs scope location f image =
      let (links, s) := linkReferences fs scope [image.name] image.name image.references ⟨l, []⟩
      if s.failures = [] then
        (.ok (s.loader.adopt location f image links).1, (s.loader.adopt location f image links).2)
      else (.error (.unresolved ⟨image.name, location.path, s.failures⟩), s.loader) := rfl

theorem loadAtIf_loads (fs : FileSystem) (scope : Scope) (location : Location)
    (wanted : Image → Bool) (l : Loader) :
    Loads fs scope location wanted l (l.loadAtIf fs scope location wanted).1
      (l.loadAtIf fs scope location wanted).2 := by
  unfold loadAtIf fetch
  cases pinned : l.cache.lookup location none with
  | some m =>
      obtain ⟨e, entry, rfl, policy⟩ := entry_of_lookup_none pinned
      exact .cached entry fun byFingerprint => by simp [policy] at byFingerprint
  | none =>
      cases read : fs.readAt location with
      | error cause => exact .unreadable read
      | ok bytes =>
          simp only
          cases answer : l.current fs location (.ofBytes bytes) with
          | mk found l' =>
              cases found with
              | some m =>
                  obtain ⟨rfl, -⟩ := current_eq_some answer
                  obtain ⟨e, entry, rfl, current⟩ := entry_of_current read answer
                  exact .cached entry current
              | none =>
                  obtain ⟨forgets, absent⟩ := current_eq_none answer
                  cases decoded : Image.decode bytes with
                  | error cause => exact .malformed forgets read decoded
                  | ok image =>
                      simp only
                      cases accepted : wanted image with
                      | false => exact .unwanted forgets read decoded accepted
                      | true =>
                          have walk := linkReferences_follows fs scope [image.name] image.name
                            image.references ⟨l', []⟩
                          simp only [link_eq, if_true]
                          split
                          · rename_i whole
                            have stale := walk.lookup_eq_none read decoded (by simp) absent
                            rw [(adopt_of_stale image _ stale).1]
                            exact .linked forgets read decoded accepted walk whole stale
                          · rename_i broken
                            exact .unresolved forgets read decoded accepted walk broken

theorem loadAt_eq (fs : FileSystem) (scope : Scope) (location : Location) (l : Loader) :
    (l.loadAtIf fs scope location fun _ => true) =
      ((l.loadAt fs scope location).1.map some, (l.loadAt fs scope location).2) := by
  unfold loadAtIf loadAt
  split
  · rfl
  · rfl
  · rfl

end Loader

namespace Loader

variable {fs : FileSystem} {scope : Scope} {location : Location} {wanted : Image → Bool}
  {l : Loader} {bytes : Bytes} {image : Image} {f : Fingerprint} {links : List Link} {s : LinkState}

theorem fetch_of_absent (absent : l.cache.entry? location = none)
    (read : fs.readAt location = .ok bytes) (decoded : Image.decode bytes = .ok image) :
    l.fetch fs location = (.ok (.decoded (.ofBytes bytes) image), l) := by
  have missing {f : Option Fingerprint} : l.cache.lookup location f = none := by
    simp [ModuleCache.lookup, absent]
  simp [fetch, current, missing, read, decoded]

theorem loadAtIf_of_entry {e : CacheEntry} (entry : l.cache.entry? location = some e)
    (read : fs.readAt location = .ok bytes) (same : e.fingerprint = .ofBytes bytes)
    (unchanged : e.module.dependenciesCurrent fs = true) :
    l.loadAtIf fs scope location wanted =
      (.ok (if wanted e.module.image then some e.module else none), l) := by
  unfold loadAtIf fetch
  cases pinned : l.cache.lookup location none with
  | some m =>
      obtain ⟨e', entry', rfl, -⟩ := entry_of_lookup_none pinned
      rw [entry] at entry'
      cases entry'
      rfl
  | none => simp only [read, current_of_entry entry same unchanged]

theorem link_of_follows
    (walk : Follows fs scope [image.name] image.name image.references ⟨l, []⟩ links s) :
    l.link fs scope location f image =
      if s.failures = [] then
        (.ok (s.loader.adopt location f image links).1, (s.loader.adopt location f image links).2)
      else (.error (.unresolved ⟨image.name, location.path, s.failures⟩), s.loader) := by
  rw [link_eq, walk.eq]

theorem loadAt_of_follows (absent : l.cache.entry? location = none)
    (read : fs.readAt location = .ok bytes) (decoded : Image.decode bytes = .ok image)
    (walk : Follows fs scope [image.name] image.name image.references ⟨l, []⟩ links s)
    (whole : s.failures = []) :
    l.loadAt fs scope location =
      (.ok (s.loader.adopt location (.ofBytes bytes) image links).1,
        (s.loader.adopt location (.ofBytes bytes) image links).2) := by
  simp only [loadAt, fetch_of_absent absent read decoded, link_of_follows walk, whole, if_true]

theorem loadAtIf_of_follows (absent : l.cache.entry? location = none)
    (read : fs.readAt location = .ok bytes) (decoded : Image.decode bytes = .ok image)
    (accepted : wanted image = true)
    (walk : Follows fs scope [image.name] image.name image.references ⟨l, []⟩ links s)
    (whole : s.failures = []) :
    l.loadAtIf fs scope location wanted =
      (.ok (some (s.loader.adopt location (.ofBytes bytes) image links).1),
        (s.loader.adopt location (.ofBytes bytes) image links).2) := by
  simp only [loadAtIf, fetch_of_absent absent read decoded, accepted, link_of_follows walk, whole,
    if_true]
  rfl

end Loader

namespace Loads

variable {fs : FileSystem} {scope : Scope} {policy : CachePolicy} {location : Location}
  {wanted : Image → Bool} {l l' : Loader} {result : Except LoadError (Option Module)}
  {K : Location → CacheEntry → Prop} {T : Location → Module → Prop} {S : List String → Image → Prop}

theorem settings_eq (load : Loads fs scope location wanted l result l') :
    l'.settings = l.settings := by
  cases load with
  | cached entry current => rfl
  | unreadable failed => rfl
  | malformed forgets read failed => exact forgets.settings
  | unwanted forgets read decoded refused => exact forgets.settings
  | linked forgets read decoded accepted walk whole stale =>
      exact Loader.adopt_settings.trans (walk.settings_eq.trans forgets.settings)
  | unresolved forgets read decoded accepted walk broken =>
      exact walk.settings_eq.trans forgets.settings

theorem keeps (keeps : Keeps fs scope policy K T S)
    (hit : ∀ {e}, K location e → e.Current fs policy location → T location e.module)
    (start : ∀ {bytes image}, fs.readAt location = .ok bytes → Image.decode bytes = .ok image →
      S [image.name] image)
    (root : ∀ {bytes image links}, fs.readAt location = .ok bytes → Image.decode bytes = .ok image →
      wanted image = true → List.Forall₂ (Answer fs scope [image.name] T) image.references links →
      ∀ l : Loader, K location ⟨.ofBytes bytes, l.built location (.ofBytes bytes) image links⟩ ∧
        T location (l.built location (.ofBytes bytes) image links))
    (load : Loads fs scope location wanted l result l') (ruled : l.cache.policy = policy)
    (holds : l.Holds K) :
    l'.Holds K ∧ ∀ {m}, result = .ok (some m) → T location m := by
  cases load with
  | @cached e entry current =>
      refine ⟨holds, fun {m} same => ?_⟩
      have trusted := hit (holds location e entry) (ruled ▸ current)
      split at same
      · cases same
        exact trusted
      · cases same
  | unreadable failed => exact ⟨holds, nofun⟩
  | malformed forgets read failed => exact ⟨holds.forget forgets, nofun⟩
  | unwanted forgets read decoded refused => exact ⟨holds.forget forgets, nofun⟩
  | linked forgets read decoded accepted walk whole stale =>
      obtain ⟨kept, answers⟩ := walk.keeps keeps (start read decoded) (List.Subset.refl _)
        (forgets.policy.trans ruled) (holds.forget forgets)
      obtain ⟨storable, trusted⟩ := root read decoded accepted (answers whole) _
      refine ⟨kept.adopt stale storable, fun {m} same => ?_⟩
      cases same
      exact trusted
  | unresolved forgets read decoded accepted walk broken =>
      exact ⟨(walk.keeps keeps (start read decoded) (List.Subset.refl _)
        (forgets.policy.trans ruled) (holds.forget forgets)).1, nofun⟩

end Loads

end RuleLint
