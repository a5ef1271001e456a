import RuleLint.Proofs.Module.Caching
import RuleLint.Proofs.Module.Finding

namespace RuleLint

open File (Location FileSystem)
open Hash (Fingerprint)
open Image (Reference)
open Text (Bytes)

namespace Loader

def recollect (fs : FileSystem) (scope : Scope) (name : String) (l : Loader) :
    Option Module × Loader :=
  match scope.resolve fs name with
  | .image location bytes => l.current fs location (.ofBytes bytes)
  | _ => (none, l)

def adopt (location : Location) (f : Fingerprint) (image : Image) (links : List Link) (l : Loader) :
    Module × Loader :=
  let (m, l) := l.build location f image (links.filterMap Link.module?)
    (links.filterMap Link.hostName?)
  l.store m

variable {fs : FileSystem} {scope : Scope} {name : String} {l l' : Loader} {m : Module}
  {location : Location} {f : Fingerprint} {image : Image} {links : List Link}

theorem recollect_eq_some (hit : l.recollect fs scope name = (some m, l')) :
    l' = l ∧ ∃ location bytes, scope.resolve fs name = .image location bytes ∧
      l.current fs location (.ofBytes bytes) = (some m, l) := by
  unfold recollect at hit
  split at hit
  · rename_i location bytes resolved
    obtain ⟨rfl, -⟩ := current_eq_some hit
    exact ⟨rfl, location, bytes, resolved, hit⟩
  · simp at hit

theorem recollect_of_image {bytes : Bytes} (resolved : scope.resolve fs name = .image location bytes) :
    l.recollect fs scope name = l.current fs location (.ofBytes bytes) := by
  simp [recollect, resolved]

theorem recollect_eq_none (miss : l.recollect fs scope name = (none, l')) :
    l.Forgets l' ∧ ∀ {location bytes}, scope.resolve fs name = .image location bytes →
      l'.cache.lookup location (some (.ofBytes bytes)) = none := by
  unfold recollect at miss
  split at miss
  · rename_i location bytes resolved
    refine ⟨(current_eq_none miss).1, ?_⟩
    intro place contents same
    cases resolved.symm.trans same
    exact (current_eq_none miss).2
  · rename_i other
    cases miss
    exact ⟨.refl l, fun resolved => absurd resolved (other _ _)⟩

theorem recollect_of_host (hosted : scope.find fs name = .host) :
    l.recollect fs scope name = (none, l) := by
  have resolved : scope.resolve fs name = .host :=
    Scope.resolve_eq_host.mpr (Scope.find_eq_host.mp hosted)
  simp [recollect, resolved]

theorem adopt_of_current (current : l.cache.lookup location (some f) = some m) :
    l.adopt location f image links = (m, { l with loads := l.loads + 1 }) := by
  simp [adopt, build, store, ModuleCache.insert_of_current current]

def built (location : Location) (f : Fingerprint) (image : Image) (links : List Link) (l : Loader) :
    Module :=
  ⟨location, f, image, links.filterMap Link.module?, links.filterMap Link.hostName?, l.loads + 1⟩

theorem adopt_of_stale (image : Image) (links : List Link)
    (stale : l.cache.lookup location (some f) = none) :
    (l.adopt location f image links).1 = l.built location f image links ∧
      ∀ place, ModuleCache.entry? (l.adopt location f image links).2.cache place =
        if place = location then some ⟨f, l.built location f image links⟩
        else l.cache.entry? place := by
  have stored := ModuleCache.insert_of_stale (m := l.built location f image links) stale
  exact ⟨stored.1, stored.2.2⟩

theorem adopt_settings : (l.adopt location f image links).2.settings = l.settings := by
  have policy := ModuleCache.insert_policy (c := l.cache) (l := location) (f := f)
    (m := l.built location f image links)
  exact congrArg (Settings.mk l.extension l.hosts) policy

theorem adopt_policy :
    (l.adopt location f image links).2.cache.policy = l.cache.policy :=
  congrArg Settings.cachePolicy adopt_settings

end Loader

namespace LinkState

def withLoader (s : LinkState) (l : Loader) : LinkState := { s with loader := l }

@[simp] theorem withLoader_loader (s : LinkState) (l : Loader) : (s.withLoader l).loader = l := rfl

@[simp] theorem withLoader_failures (s : LinkState) (l : Loader) :
    (s.withLoader l).failures = s.failures := rfl

@[simp] theorem withLoader_self (s : LinkState) : s.withLoader s.loader = s := rfl

@[simp] theorem fail_loader (s : LinkState) (name requestedBy : String) (probes : List Probe) :
    (s.fail name requestedBy probes).loader = s.loader := rfl

@[simp] theorem fail_failures (s : LinkState) (name requestedBy : String) (probes : List Probe) :
    (s.fail name requestedBy probes).failures = s.failures ++ [⟨name, requestedBy, probes⟩] := rfl

end LinkState

theorem linkReference_eq (fs : FileSystem) (scope : Scope) (stack : List String)
    (requester name : String) (s : LinkState) :
    linkReference fs scope stack requester name s =
      if name ∈ stack then (.skipped, s)
      else
        match s.loader.recollect fs scope name with
        | (some m, l) => (.module m, s.withLoader l)
        | (none, l) =>
          match scope.find fs name with
          | .host => (.host name, s.withLoader l)
          | .refused probes => (.skipped, (s.withLoader l).fail name requester probes)
          | .image location bytes image =>
            let (links, s') :=
              linkReferences fs scope (name :: stack) image.name image.references (s.withLoader l)
            if s.failures.length < s'.failures.length then (.skipped, s')
            else
              let (m, l) := s'.loader.adopt location (.ofBytes bytes) image links
              (.module m, s'.withLoader l) := by
  -- Where `recollect` and `find` each look the name up, `linkReference` does it once for both.
  rw [linkReference]
  split
  · rfl
  · split
    · rename_i resolved
      simp [Loader.recollect, Scope.find, resolved, LinkState.withLoader]
    · rename_i probes resolved
      simp [Loader.recollect, Scope.find, resolved, LinkState.withLoader]
    · rename_i location bytes resolved
      cases answer : s.loader.current fs location (.ofBytes bytes) with
      | mk found l =>
          cases found with
          | some m => simp [Loader.recollect, resolved, answer, LinkState.withLoader]
          | none =>
              simp only [Loader.recollect, Scope.find, resolved, answer]
              split
              · rename_i cause decoded
                simp [decoded, LinkState.withLoader]
              · rename_i image decoded
                split
                · rename_i named
                  simp [decoded, named, LinkState.withLoader, Loader.adopt]
                · rename_i other
                  simp [decoded, other, LinkState.withLoader]

/-- The walk over the references of `requester` from the state `s`, while the modules on the stack
are being linked, gives the links and ends in the state `s'`. -/
inductive Follows (fs : FileSystem) (scope : Scope) :
    List String → String → List Reference → LinkState → List Link → LinkState → Prop
  | nil {stack : List String} {requester : String} {s : LinkState} :
      Follows fs scope stack requester [] s [] s
  | cyclic {stack : List String} {requester : String} {r : Reference} {rs : List Reference}
      {s s' : LinkState} {links : List Link} (onStack : r.name ∈ stack)
      (rest : Follows fs scope stack requester rs s links s') :
      Follows fs scope stack requester (r :: rs) s (.skipped :: links) s'
  | hosted {stack : List String} {requester : String} {r : Reference} {rs : List Reference}
      {s s' : LinkState} {links : List Link} (fresh : r.name ∉ stack)
      (found : scope.find fs r.name = .host)
      (rest : Follows fs scope stack requester rs s links s') :
      Follows fs scope stack requester (r :: rs) s (.host r.name :: links) s'
  | cached {stack : List String} {requester : String} {r : Reference} {rs : List Reference}
      {s s' : LinkState} {links : List Link} {m : Module} (fresh : r.name ∉ stack)
      (recalled : s.loader.recollect fs scope r.name = (some m, s.loader))
      (rest : Follows fs scope stack requester rs s links s') :
      Follows fs scope stack requester (r :: rs) s (.module m :: links) s'
  | refused {stack : List String} {requester : String} {r : Reference} {rs : List Reference}
      {s s' : LinkState} {links : List Link} {l : Loader} {probes : List Probe}
      (fresh : r.name ∉ stack) (missed : s.loader.recollect fs scope r.name = (none, l))
      (found : scope.find fs r.name = .refused probes)
      (rest : Follows fs scope stack requester rs ((s.withLoader l).fail r.name requester probes)
        links s') :
      Follows fs scope stack requester (r :: rs) s (.skipped :: links) s'
  | broken {stack : List String} {requester : String} {r : Reference} {rs : List Reference}
      {s s₁ s' : LinkState} {inner links : List Link} {l : Loader} {location : Location}
      {bytes : Bytes} {image : Image} (fresh : r.name ∉ stack)
      (missed : s.loader.recollect fs scope r.name = (none, l))
      (found : scope.find fs r.name = .image location bytes image)
      (entered : Follows fs scope (r.name :: stack) image.name image.references (s.withLoader l)
        inner s₁)
      (failed : s.failures.length < s₁.failures.length)
      (rest : Follows fs scope stack requester rs s₁ links s') :
      Follows fs scope stack requester (r :: rs) s (.skipped :: links) s'
  | linked {stack : List String} {requester : String} {r : Reference} {rs : List Reference}
      {s s₁ s' : LinkState} {inner links : List Link} {l l' : Loader} {location : Location}
      {bytes : Bytes} {image : Image} {m : Module} (fresh : r.name ∉ stack)
      (missed : s.loader.recollect fs scope r.name = (none, l))
      (found : scope.find fs r.name = .image location bytes image)
      (entered : Follows fs scope (r.name :: stack) image.name image.references (s.withLoader l)
        inner s₁)
      (whole : ¬ s.failures.length < s₁.failures.length)
      (adopted : s₁.loader.adopt location (.ofBytes bytes) image inner = (m, l'))
      (rest : Follows fs scope stack requester rs (s₁.withLoader l') links s') :
      Follows fs scope stack requester (r :: rs) s (.module m :: links) s'

theorem linkReferences_follows (fs : FileSystem) (scope : Scope) (stack : List String)
    (requester : String) (references : List Reference) (s : LinkState) :
    Follows fs scope stack requester references s
      (linkReferences fs scope stack requester references s).1
      (linkReferences fs scope stack requester references s).2 := by
  match references with
  | [] =>
      rw [linkReferences]
      exact .nil
  | r :: rs =>
      have rest := linkReferences_follows fs scope stack requester rs
      rw [linkReferences, linkReference_eq]
      by_cases onStack : r.name ∈ stack
      · simp only [onStack, if_true]
        exact .cyclic onStack (rest s)
      · simp only [onStack, if_false]
        cases recalled : s.loader.recollect fs scope r.name with
        | mk answer l =>
            cases answer with
            | some m =>
                obtain ⟨rfl, -⟩ := Loader.recollect_eq_some recalled
                exact .cached onStack recalled (rest s)
            | none =>
                simp only
                cases found : scope.find fs r.name with
                | host =>
                    obtain ⟨-, rfl⟩ := Prod.mk.inj ((Loader.recollect_of_host found).symm.trans recalled)
                    exact .hosted onStack found (rest s)
                | refused probes => exact .refused onStack recalled found (rest _)
                | image location bytes image =>
                    obtain ⟨resolved, decoded, named⟩ := Scope.find_eq_image.mp found
                    have : unlinkedCount fs (r.name :: stack) < unlinkedCount fs stack :=
                      unlinkedCount_cons_lt onStack
                        (named ▸ mem_moduleNames (Scope.readAt_of_resolve resolved) decoded)
                    have entered := linkReferences_follows fs scope (r.name :: stack) image.name
                      image.references (s.withLoader l)
                    simp only
                    split
                    · rename_i failed
                      exact .broken onStack recalled found entered failed (rest _)
                    · rename_i whole
                      exact .linked onStack recalled found entered whole rfl (rest _)
termination_by (unlinkedCount fs stack, references.length)

theorem Follows.eq {fs : FileSystem} {scope : Scope} {stack : List String} {requester : String}
    {references : List Reference} {s s' : LinkState} {links : List Link}
    (walk : Follows fs scope stack requester references s links s') :
    linkReferences fs scope stack requester references s = (links, s') := by
  induction walk with
  | nil => rw [linkReferences]
  | cyclic onStack rest ih =>
      rw [linkReferences, linkReference_eq]
      simp only [onStack, if_true, ih]
  | hosted fresh found rest ih =>
      rw [linkReferences, linkReference_eq]
      simp only [fresh, if_false, Loader.recollect_of_host found, found, LinkState.withLoader_self, ih]
  | cached fresh recalled rest ih =>
      rw [linkReferences, linkReference_eq]
      simp only [fresh, if_false, recalled, LinkState.withLoader_self, ih]
  | refused fresh missed found rest ih =>
      rw [linkReferences, linkReference_eq]
      simp only [fresh, if_false, missed, found, ih]
  | broken fresh missed found entered failed rest inner ih =>
      rw [linkReferences, linkReference_eq]
      simp only [fresh, if_false, missed, found, inner, failed, if_true, ih]
  | linked fresh missed found entered whole adopted rest inner ih =>
      rw [linkReferences, linkReference_eq]
      simp only [fresh, if_false, missed, found, inner, whole, adopted, ih]

namespace Loader

variable {l l' : Loader} {location place : Location} {f : Fingerprint} {image : Image}
  {links : List Link}

theorem Forgets.lookup_eq_none {f : Option Fingerprint} (forgets : l.Forgets l')
    (stale : l.cache.lookup place f = none) : l'.cache.lookup place f = none := by
  cases answer : l'.cache.lookup place f with
  | none => rfl
  | some m =>
      obtain ⟨e, found, current, same⟩ := ModuleCache.lookup_eq_some.mp answer
      have before : l.cache.lookup place f = some m := by
        refine ModuleCache.lookup_eq_some.mpr ⟨e, forgets.entries found, ?_, same⟩
        simpa [ModuleCache.isCurrent, forgets.policy] using current
      rw [stale] at before
      cases before

theorem lookup_adopt_of_ne {g : Option Fingerprint} (other : place ≠ location) :
    (l.adopt location f image links).2.cache.lookup place g = l.cache.lookup place g := by
  cases current : l.cache.lookup location (some f) with
  | some m => rw [adopt_of_current current]
  | none =>
      have stored := (adopt_of_stale image links current).2 place
      simp only [ModuleCache.lookup, stored, other, if_false, ModuleCache.isCurrent, adopt_policy]
      rfl

end Loader

namespace Follows

variable {fs : FileSystem} {scope : Scope} {stack : List String} {requester : String}
  {references : List Reference} {s s' : LinkState} {links : List Link}

theorem failures_append (walk : Follows fs scope stack requester references s links s') :
    ∃ new, s'.failures = s.failures ++ new := by
  induction walk with
  | nil => exact ⟨[], (List.append_nil _).symm⟩
  | cyclic onStack rest ih => exact ih
  | hosted fresh found rest ih => exact ih
  | cached fresh recalled rest ih => exact ih
  | refused fresh missed found rest ih =>
      obtain ⟨new, after⟩ := ih
      exact ⟨_, by rw [after, LinkState.fail_failures, List.append_assoc]; rfl⟩
  | broken fresh missed found entered failed rest inner ih =>
      obtain ⟨first, middle⟩ := inner
      obtain ⟨second, after⟩ := ih
      exact ⟨first ++ second, by rw [after, middle, List.append_assoc]; rfl⟩
  | linked fresh missed found entered whole adopted rest inner ih =>
      obtain ⟨first, middle⟩ := inner
      obtain ⟨second, after⟩ := ih
      refine ⟨first ++ second, ?_⟩
      rw [after, LinkState.withLoader_failures, middle, List.append_assoc]
      rfl

theorem failures_length_le (walk : Follows fs scope stack requester references s links s') :
    s.failures.length ≤ s'.failures.length := by
  obtain ⟨new, after⟩ := walk.failures_append
  simp [after]

theorem failures_eq (walk : Follows fs scope stack requester references s links s')
    (whole : ¬ s.failures.length < s'.failures.length) : s'.failures = s.failures := by
  obtain ⟨new, after⟩ := walk.failures_append
  have none : new = [] := by
    rw [after, List.length_append] at whole
    exact List.length_eq_zero_iff.mp (by omega)
  rw [after, none, List.append_nil]

theorem settings_eq (walk : Follows fs scope stack requester references s links s') :
    s'.loader.settings = s.loader.settings := by
  induction walk with
  | nil => rfl
  | cyclic onStack rest ih => exact ih
  | hosted fresh found rest ih => exact ih
  | cached fresh recalled rest ih => exact ih
  | refused fresh missed found rest ih => exact ih.trans (Loader.recollect_eq_none missed).1.settings
  | broken fresh missed found entered failed rest inner ih =>
      exact ih.trans (inner.trans (Loader.recollect_eq_none missed).1.settings)
  | linked fresh missed found entered whole adopted rest inner ih =>
      have stored := congrArg (·.2.settings) adopted
      refine ih.trans (Eq.trans ?_ (inner.trans (Loader.recollect_eq_none missed).1.settings))
      exact stored.symm.trans Loader.adopt_settings

theorem policy_eq (walk : Follows fs scope stack requester references s links s') :
    s'.loader.cache.policy = s.loader.cache.policy :=
  congrArg Settings.cachePolicy walk.settings_eq

/-- While an image is being linked no walk stores a module in its place: whoever led there would
have to ask for the image's own name. -/
theorem lookup_eq_none (walk : Follows fs scope stack requester references s links s')
    {location : Location} {bytes : Bytes} {image : Image} {f : Option Fingerprint}
    (read : fs.readAt location = .ok bytes) (decoded : Image.decode bytes = .ok image)
    (onStack : image.name ∈ stack) (stale : s.loader.cache.lookup location f = none) :
    s'.loader.cache.lookup location f = none := by
  induction walk with
  | nil => exact stale
  | cyclic _ rest ih => exact ih onStack stale
  | hosted fresh found rest ih => exact ih onStack stale
  | cached fresh recalled rest ih => exact ih onStack stale
  | refused fresh missed found rest ih =>
      exact ih onStack ((Loader.recollect_eq_none missed).1.lookup_eq_none stale)
  | broken fresh missed found entered failed rest inner ih =>
      exact ih onStack (inner (List.mem_cons_of_mem _ onStack)
        ((Loader.recollect_eq_none missed).1.lookup_eq_none stale))
  | @linked _ _ r _ _ _ _ _ _ _ _ place contents image' m fresh missed found entered whole adopted
      rest inner ih =>
      apply ih onStack
      have kept := inner (List.mem_cons_of_mem _ onStack)
        ((Loader.recollect_eq_none missed).1.lookup_eq_none stale)
      have elsewhere : location ≠ place := by
        rintro rfl
        obtain ⟨resolved, again, named⟩ := Scope.find_eq_image.mp found
        have same := (Scope.readAt_of_resolve resolved).symm.trans read
        cases same
        cases again.symm.trans decoded
        exact fresh (named ▸ onStack)
      have stored := congrArg (·.2.cache.lookup location f) adopted
      exact stored.symm.trans ((Loader.lookup_adopt_of_ne elsewhere).trans kept)

end Follows

end RuleLint
