import RuleLint.Proofs.Module.Settled

namespace RuleLint

open File (Location FileSystem)
open Image (Reference)
open Text (Bytes)

def Loader.Stores (l : Loader) (place : Location) (m : Module) : Prop :=
  ∃ e, l.cache.entry? place = some e ∧ e.module = m

/-- The module of the entry was linked with what the loader held for the files that it refers to,
except by the name `own`. -/
structure CacheEntry.Joined (fs : FileSystem) (scope : Scope) (own : String) (l : Loader)
    (e : CacheEntry) : Prop where
  numbered : e.module.loadId ≤ l.loads
  joins : ∀ r ∈ e.module.image.references, ∀ place bytes d,
    scope.resolve fs r.name = .image place bytes → l.cache.entry? place = some d →
      d.module.loadId < e.module.loadId → r.name ≠ own → d.module ∈ e.module.dependencies
  held : ∀ m ∈ e.module.dependencies, ∃ place, l.Stores place m

def Loader.Vacant (fs : FileSystem) (scope : Scope) (own : String) (stack : List String)
    (l : Loader) : Prop :=
  ∀ name ∈ stack, name ≠ own → ∃ place bytes image,
    scope.find fs name = .image place bytes image ∧ l.cache.entry? place = none

variable {fs : FileSystem} {scope : Scope} {own : String} {stack : List String} {l l' : Loader}
  {place location : Location} {bytes : Bytes} {image : Image} {links : List Link} {e : CacheEntry}

theorem Loader.Stores.grow {m : Module} (stores : l.Stores place m) (grows : l.Extends l') :
    l'.Stores place m := by
  obtain ⟨e, entry, same⟩ := stores
  exact ⟨e, grows.entries entry, same⟩

theorem CacheEntry.Joined.grow (joined : e.Joined fs scope own l) (grows : l.Extends l') :
    e.Joined fs scope own l' where
  numbered := Nat.le_trans joined.numbered grows.loads_le
  joins r member place bytes d leads entry earlier other := by
    rcases grows.recent entry with before | ⟨later, -⟩
    · exact joined.joins r member place bytes d leads before earlier other
    · have bound := joined.numbered
      omega
  held m dependency := by
    obtain ⟨place, stores⟩ := joined.held m dependency
    exact ⟨place, stores.grow grows⟩

namespace Loader.Vacant

theorem root (fs : FileSystem) (scope : Scope) (own : String) (l : Loader) :
    l.Vacant fs scope own [own] := by
  intro name member other
  exact absurd (List.mem_singleton.mp member) other

theorem enter {name : String} (vacant : l.Vacant fs scope own stack)
    (found : scope.find fs name = .image place bytes image)
    (absent : l.cache.entry? place = none) : l.Vacant fs scope own (name :: stack) := by
  intro other member different
  rcases List.mem_cons.mp member with rfl | before
  · exact ⟨place, bytes, image, found, absent⟩
  · exact vacant other before different

theorem walk {requester : String} {references : List Reference} {s s' : LinkState}
    (vacant : s.loader.Vacant fs scope own stack) (settled : s.loader.Settled fs)
    (walk : Follows fs scope stack requester references s links s') :
    s'.loader.Vacant fs scope own stack := by
  intro name member other
  obtain ⟨place, bytes, image, found, absent⟩ := vacant name member other
  exact ⟨place, bytes, image, found, walk.entry_eq_none settled member found absent⟩

end Loader.Vacant

theorem joined_adopt (bytes : Bytes)
    (answers : List.Forall₂ (Answer fs scope stack l.Stores) image.references links)
    (vacant : l.Vacant fs scope own stack) (absent : l.cache.entry? location = none) :
    CacheEntry.Joined fs scope own (l.adopt location (.ofBytes bytes) image links).2
      ⟨.ofBytes bytes, l.built location (.ofBytes bytes) image links⟩ := by
  have entries := (Loader.adopt_of_absent (.ofBytes bytes) image links absent).2
  have grows : l.Extends (l.adopt location (.ofBytes bytes) image links).2 := .adopt absent
  refine ⟨Nat.le_refl _, ?_, ?_⟩
  · intro r member place bytes' d leads entry earlier other
    have before : l.cache.entry? place = some d := by
      rw [entries] at entry
      split at entry
      · cases entry
        exact absurd earlier (Nat.lt_irrefl _)
      · exact entry
    obtain ⟨link, among, answer⟩ := exists_of_forall₂ answers member
    cases answer with
    | cyclic onStack =>
        obtain ⟨place', bytes', image', found, empty⟩ := vacant r.name onStack other
        cases (Scope.find_eq_image.mp found).1.symm.trans leads
        rw [before] at empty
        cases empty
    | hosted fresh hosted => exact absurd hosted (Scope.resolve_eq_image.mp leads).1
    | @module place' bytes' m fresh leads' trusted =>
        cases leads'.symm.trans leads
        obtain ⟨d', entry', rfl⟩ := trusted
        rw [before] at entry'
        cases entry'
        exact List.mem_filterMap.mpr ⟨_, among, rfl⟩
  · intro m dependency
    obtain ⟨r, -, -, place, bytes', -, stores⟩ := Answer.of_dependency answers dependency
    exact ⟨place, stores.grow grows⟩

/-- What is in the cache after a walk was there before it or is joined, and a walk without failures
answers each reference with what is stored for its file. -/
theorem Follows.joins {requester : String} {references : List Reference} {s s' : LinkState}
    (walk : Follows fs scope stack requester references s links s')
    (settled : s.loader.Settled fs) (vacant : s.loader.Vacant fs scope own stack) :
    (∀ place e, s'.loader.cache.entry? place = some e →
        s.loader.cache.entry? place = some e ∨ e.Joined fs scope own s'.loader) ∧
      (s'.failures = s.failures →
        List.Forall₂ (Answer fs scope stack s'.loader.Stores) references links) := by
  -- The loader stays settled on the way, and the files of the names on the stack have no entries.
  induction walk with
  | nil => exact ⟨fun place e entry => .inl entry, fun _ => .nil⟩
  | cyclic onStack rest ih =>
      obtain ⟨entries, answers⟩ := ih settled vacant
      exact ⟨entries, fun whole => .cons (.cyclic onStack) (answers whole)⟩
  | hosted fresh found rest ih =>
      obtain ⟨entries, answers⟩ := ih settled vacant
      exact ⟨entries, fun whole =>
        .cons (.hosted fresh (Scope.find_eq_host.mp found)) (answers whole)⟩
  | cached fresh recalled rest ih =>
      obtain ⟨entries, answers⟩ := ih settled vacant
      obtain ⟨-, place, bytes, resolved, hit⟩ := Loader.recollect_eq_some recalled
      obtain ⟨e, entry, rfl, -⟩ := Loader.entry_of_current (Scope.readAt_of_resolve resolved) hit
      have stores : Loader.Stores _ place e.module := ⟨e, entry, rfl⟩
      exact ⟨entries, fun whole =>
        .cons (.module fresh resolved (stores.grow (rest.grows settled))) (answers whole)⟩
  | refused fresh missed found rest ih =>
      obtain ⟨rfl, -⟩ := settled.recollect_eq_none missed
      obtain ⟨entries, answers⟩ := ih settled vacant
      refine ⟨entries, fun whole => ?_⟩
      have longer := rest.failures_length_le
      rw [LinkState.fail_failures, LinkState.withLoader_failures, whole, List.length_append,
        List.length_singleton] at longer
      omega
  | @broken stack requester r _ s s₁ _ _ _ _ _ _ _ fresh missed found entered failed rest inner
      ih =>
      -- the first reference by itself is a walk too, over which the stack stays vacant
      have first : Follows fs scope stack requester [r] s [.skipped] s₁ :=
        .broken fresh missed found entered failed .nil
      have vacant' := vacant.walk settled first
      have settled' := first.settled settled
      obtain ⟨rfl, absent⟩ := settled.recollect_eq_none missed
      obtain ⟨below, -⟩ := inner settled
        (vacant.enter found (absent (Scope.find_eq_image.mp found).1))
      obtain ⟨entries, -⟩ := ih settled' vacant'
      constructor
      · intro place e entry
        rcases entries place e entry with middle | joined
        · exact (below place e middle).imp_right fun joined => joined.grow (rest.grows settled')
        · exact .inr joined
      · intro whole
        have longer := rest.failures_length_le
        rw [whole] at longer
        omega
  | @linked stack requester r rs s s₁ s' inside links l l' place bytes next m fresh missed found
      entered whole adopted rest inner ih =>
      have first : Follows fs scope stack requester [r] s [.module m] (s₁.withLoader l') :=
        .linked fresh missed found entered whole adopted .nil
      have vacant' := vacant.walk settled first
      have settled' := first.settled settled
      obtain ⟨rfl, absent⟩ := settled.recollect_eq_none missed
      have resolved := (Scope.find_eq_image.mp found).1
      have entering := vacant.enter found (absent resolved)
      have empty := entered.entry_eq_none settled (by simp) found (absent resolved)
      obtain ⟨below, within⟩ := inner settled entering
      obtain ⟨entries, answers⟩ := ih settled' vacant'
      have grows := rest.grows settled'
      have built := joined_adopt bytes (within (entered.failures_eq whole))
        (entering.walk settled entered) empty
      have stored : s₁.loader.Extends (s₁.loader.adopt place (.ofBytes bytes) next inside).2 :=
        .adopt empty
      obtain ⟨same, after⟩ := Loader.adopt_of_absent (.ofBytes bytes) next inside empty
      rw [adopted] at built stored same after
      constructor
      · intro here e entry
        rcases entries here e entry with middle | joined
        · rw [LinkState.withLoader_loader, after] at middle
          split at middle
          · cases middle
            exact .inr (built.grow grows)
          · exact (below here e middle).imp_right fun joined =>
              joined.grow (stored.trans grows)
        · exact .inr joined
      · intro unfailed
        have stores : l'.Stores place m := ⟨_, by rw [after, if_pos rfl], same.symm⟩
        exact .cons (.module fresh resolved (stores.grow grows))
          (answers (unfailed.trans (entered.failures_eq whole).symm))

namespace Loader

structure Linked (fs : FileSystem) (scope : Scope) (location : Location) (l : Loader)
    (e : CacheEntry) : Prop where
  joins : ∀ r ∈ e.module.image.references, ∀ place bytes d,
    scope.resolve fs r.name = .image place bytes → l.cache.entry? place = some d →
      d.module.loadId < e.module.loadId → d.module ∈ e.module.dependencies ∨
        place ≠ location ∧ ∃ bytes root, fs.readAt location = .ok bytes ∧
          Image.decode bytes = .ok root ∧ r.name = root.name
  held : ∀ m ∈ e.module.dependencies, ∃ place, l.Stores place m

theorem linked_of_joined (read : fs.readAt location = .ok bytes)
    (decoded : Image.decode bytes = .ok image) (joined : e.Joined fs scope image.name l)
    (last : ∀ d, l.cache.entry? location = some d → e.module.loadId ≤ d.module.loadId) :
    l.Linked fs scope location e := by
  refine ⟨?_, joined.held⟩
  intro r member place bytes' d leads entry earlier
  by_cases own : r.name = image.name
  · refine .inr ⟨?_, bytes, image, read, decoded, own⟩
    rintro rfl
    have later := last d entry
    omega
  · exact .inl (joined.joins r member place bytes' d leads entry earlier own)

theorem Gains.linked_of_new {wanted : Image → Bool} {result : Except LoadError (Option Module)}
    (gains : Gains fs scope location wanted l result l') (settled : l.Settled fs)
    (entry : l'.cache.entry? place = some e) :
    l.cache.entry? place = some e ∨ l'.Linked fs scope location e := by
  cases gains with
  | known _ => exact .inl entry
  | nothing _ => exact .inl entry
  | @linked bytes image links s absent read decoded walk whole vacant =>
      obtain ⟨entries, answers⟩ := walk.joins settled (.root fs scope image.name l)
      have stacked := (Vacant.root fs scope image.name l).walk settled walk
      have built := joined_adopt bytes (answers whole) stacked vacant
      have grows : s.loader.Extends (s.loader.adopt location (.ofBytes bytes) image links).2 :=
        .adopt vacant
      have stored := (adopt_of_absent (.ofBytes bytes) image links vacant).2
      have last (joined : e.Joined fs scope image.name _) :=
        linked_of_joined read decoded joined fun d here => by
          rw [stored, if_pos rfl] at here
          cases here
          exact joined.numbered
      have after := entry
      rw [stored] at after
      split at after
      · cases after
        exact .inr (last built)
      · exact (entries place e after).imp_right fun joined => last (joined.grow grows)
  | @unresolved bytes image links s failure absent read decoded walk =>
      obtain ⟨entries, -⟩ := walk.joins settled (.root fs scope image.name l)
      have stale := walk.lookup_eq_none (f := some (.ofBytes bytes)) read decoded (by simp)
        (by simp [ModuleCache.lookup, absent])
      have vacant := (walk.settled settled).entry_eq_none read stale
      refine (entries place e entry).imp_right fun joined =>
        linked_of_joined read decoded joined fun d here => ?_
      rw [vacant] at here
      cases here

end Loader

end RuleLint
