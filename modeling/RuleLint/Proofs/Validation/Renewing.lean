import RuleLint.Proofs.Validation.Requests

namespace RuleLint

open File (Path Location FileSystem)
open Hash (Fingerprint)
open Image (Reference)

namespace Loader

variable {fs : FileSystem} {scope : Scope} {location : Location} {wanted : Image → Bool}
  {l l' l'' : Loader} {f : Fingerprint} {image : Image} {links : List Link} {name : String}

structure Renews (l l' : Loader) : Prop where
  loads_le : l.loads ≤ l'.loads
  recent : ∀ {place e}, l'.cache.entry? place = some e →
    l.cache.entry? place = some e ∨ l.loads < e.module.loadId

theorem Renews.refl (l : Loader) : l.Renews l := ⟨Nat.le_refl _, .inl⟩

theorem Renews.trans (first : l.Renews l') (second : l'.Renews l'') : l.Renews l'' where
  loads_le := Nat.le_trans first.loads_le second.loads_le
  recent entry := by
    rcases second.recent entry with before | later
    · exact first.recent before
    · exact .inr (Nat.lt_of_le_of_lt first.loads_le later)

theorem Forgets.renews (forgets : l.Forgets l') (same : l'.loads = l.loads) : l.Renews l' :=
  ⟨Nat.le_of_eq same.symm, fun entry => .inl (forgets.entries entry)⟩

theorem current_loads (fs : FileSystem) (l : Loader) (location : Location) (f : Fingerprint) :
    (l.current fs location f).2.loads = l.loads := by
  unfold current
  split
  · rfl
  · split <;> rfl

theorem recollect_renews (missed : l.recollect fs scope name = (none, l')) : l.Renews l' := by
  refine (recollect_eq_none missed).1.renews ?_
  unfold recollect at missed
  split at missed
  · exact (congrArg (·.2.loads) missed).symm.trans (current_loads ..)
  · cases missed
    rfl

theorem adopt_renews {m : Module} (adopted : l.adopt location f image links = (m, l')) :
    l.Renews l' := by
  obtain rfl : (l.adopt location f image links).2 = l' := congrArg (·.2) adopted
  refine ⟨Nat.le_succ _, fun {place e} entry => ?_⟩
  cases current : l.cache.lookup location (some f) with
  | some m =>
      rw [adopt_of_current current] at entry
      exact .inl entry
  | none =>
      rw [(adopt_of_stale image links current).2] at entry
      split at entry
      · cases entry
        exact .inr (Nat.lt_succ_self _)
      · exact .inl entry

end Loader

theorem Follows.renews {fs : FileSystem} {scope : Scope} {stack : List String} {requester : String}
    {references : List Reference} {s s' : LinkState} {links : List Link}
    (walk : Follows fs scope stack requester references s links s') :
    s.loader.Renews s'.loader := by
  induction walk with
  | nil => exact .refl _
  | cyclic onStack rest ih => exact ih
  | hosted fresh found rest ih => exact ih
  | cached fresh recalled rest ih => exact ih
  | refused fresh missed found rest ih => exact (Loader.recollect_renews missed).trans ih
  | broken fresh missed found entered failed rest inner ih =>
      exact (Loader.recollect_renews missed).trans (inner.trans ih)
  | linked fresh missed found entered whole adopted rest inner ih =>
      exact (Loader.recollect_renews missed).trans
        (inner.trans ((Loader.adopt_renews adopted).trans ih))

namespace Loader

variable {fs : FileSystem} {scope : Scope} {location : Location} {wanted : Image → Bool}
  {path : Path} {l l' : Loader} {m : Module}

theorem fetch_renews (fs : FileSystem) (location : Location) (l : Loader) :
    l.Renews (l.fetch fs location).2 := by
  unfold fetch
  split
  · exact .refl l
  · split
    · exact .refl l
    · rename_i bytes read
      have counted := current_loads fs l location (.ofBytes bytes)
      simp only
      split
      · rename_i answer
        rw [(current_eq_some answer).1]
        exact .refl l
      · rename_i answer
        rw [answer] at counted
        have renews := (current_eq_none answer).1.renews counted
        split <;> exact renews

theorem link_renews (f : Fingerprint) (image : Image) :
    l.Renews (l.link fs scope location f image).2 := by
  have walk := (linkReferences_follows fs scope [image.name] image.name image.references
    ⟨l, []⟩).renews
  rw [link_eq]
  simp only
  split
  · exact walk.trans (adopt_renews rfl)
  · exact walk

theorem loadAtIf_renews : l.Renews (l.loadAtIf fs scope location wanted).2 := by
  have first := fetch_renews fs location l
  unfold loadAtIf
  split
  · rename_i fetched
    rwa [fetched] at first
  · rename_i fetched
    rwa [fetched] at first
  · rename_i fetched
    rw [fetched] at first
    split
    · exact first.trans (link_renews _ _)
    · exact first

theorem invalidate_loads : (l.invalidate fs path).2.loads = l.loads := by
  unfold invalidate
  split
  · rfl
  · split <;> rfl

end Loader

theorem Loads.stored {fs : FileSystem} {scope : Scope} {location : Location}
    {wanted : Image → Bool} {l l' : Loader} {result : Except LoadError (Option Module)} {m : Module}
    (load : Loads fs scope location wanted l result l') (given : result = .ok (some m)) :
    ∃ e, l'.cache.entry? location = some e ∧ e.module = m := by
  cases load with
  | @cached e entry current =>
      split at given
      · cases given
        exact ⟨e, entry, rfl⟩
      · cases given
  | unreadable failed => cases given
  | malformed forgets read failed => cases given
  | unwanted forgets read decoded refused => cases given
  | linked forgets read decoded accepted walk whole stale =>
      cases given
      exact ⟨_, by rw [(Loader.adopt_of_stale _ _ stale).2, if_pos rfl], rfl⟩
  | unresolved forgets read decoded accepted walk broken => cases given

namespace Validator

theorem after_renews (fs : FileSystem) (v : Validator) (request : Request) :
    v.loader.Renews (v.after fs request).loader := by
  have loaded (lasting : request.Lasting) : v.loader.Renews (v.after fs request).loader := by
    rcases after_of_lasting fs v lasting with same | ⟨location, directory, wanted, -, same⟩
    · rw [same]
      exact .refl _
    · rw [same]
      exact Loader.loadAtIf_renews
  cases request with
  | load path | loadIf directory path wanted | check path | ruleSites path => exact loaded trivial
  | invalidate path => exact Loader.invalidate_forgets.renews Loader.invalidate_loads
  | clear => exact Loader.clear_forgets.renews rfl

theorem run_renews (v : Validator) (moments : List (FileSystem × Request)) :
    v.loader.Renews (v.run moments).loader :=
  run_keeps (P := fun w => v.loader.Renews w.loader)
    (fun w fs request _ before => before.trans (after_renews fs w request)) (.refl _)

end Validator

end RuleLint
