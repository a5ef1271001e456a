import RuleLint.Proofs.Module.Coverage

namespace RuleLint

open File (Location FileSystem)
open Image (Reference)

/-- What becomes of a reference of the image in a walk that has come to the images `seen`. -/
inductive Accounted (fs : FileSystem) (scope : Scope) (stack : List String) (seen : Image → Prop)
    (s : LinkState) (image : Image) (r : Reference) : Prop
  | host (hosted : r.name ∈ scope.hosts)
  | cyclic (onStack : r.name ∈ stack)
  | failed {f : ResolutionFailure} (member : f ∈ s.failures) (name : f.name = r.name)
      (requested : f.requestedBy = image.name) (found : scope.find fs r.name = .refused f.probes)
  | seen {place : Location} {bytes : Text.Bytes} {next : Image}
      (found : scope.find fs r.name = .image place bytes next) (among : seen next)

/-- The walk has accounted for all references of the images `seen`, and cached no other images. -/
structure Surveyed (fs : FileSystem) (scope : Scope) (stack : List String) (seen : Image → Prop)
    (s : LinkState) : Prop where
  closed : ∀ x, seen x → ∀ r ∈ x.references, Accounted fs scope stack seen s x r
  cached : s.loader.Holds fun _ e => seen e.module.image

variable {fs : FileSystem} {scope : Scope} {root image next : Image} {stack : List String}
  {seen seen' : Image → Prop} {s s' : LinkState} {r : Reference} {place : Location}
  {bytes : Text.Bytes}

theorem Accounted.mono {stack' : List String} (accounted : Accounted fs scope stack seen s image r)
    (onStack : r.name ∈ stack → Accounted fs scope stack' seen' s' image r)
    (grows : ∀ x, seen x → seen' x) (later : s.failures ⊆ s'.failures) :
    Accounted fs scope stack' seen' s' image r := by
  cases accounted with
  | host hosted => exact .host hosted
  | cyclic below => exact onStack below
  | failed member name requested found => exact .failed (later member) name requested found
  | seen found among => exact .seen found (grows _ among)

theorem Accounted.seen_of_found (accounted : Accounted fs scope [root.name] seen s image r)
    (found : scope.find fs r.name = .image place bytes next) (other : r.name ≠ root.name) :
    seen next := by
  cases accounted with
  | host hosted =>
      rw [Scope.find_eq_host.mpr hosted] at found
      cases found
  | cyclic onStack => exact absurd (List.mem_singleton.mp onStack) other
  | failed _ _ _ refused =>
      rw [refused] at found
      cases found
  | seen found' among =>
      rw [found] at found'
      cases found'
      exact among

theorem Accounted.failed_of_refused (accounted : Accounted fs scope [root.name] seen s image r)
    {probes : List Probe} (found : scope.find fs r.name = .refused probes)
    (other : r.name ≠ root.name) :
    ∃ f ∈ s.failures, f.name = r.name ∧ f.requestedBy = image.name := by
  cases accounted with
  | host hosted =>
      rw [Scope.find_eq_host.mpr hosted] at found
      cases found
  | cyclic onStack => exact absurd (List.mem_singleton.mp onStack) other
  | failed member named requested _ => exact ⟨_, member, named, requested⟩
  | seen found' _ =>
      rw [found] at found'
      cases found'

namespace Surveyed

theorem enter (surveyed : Surveyed fs scope stack seen s) (name : String) :
    Surveyed fs scope (name :: stack) seen s where
  closed x among r member := (surveyed.closed x among r member).mono
    (fun below => .cyclic (List.mem_cons_of_mem _ below)) (fun _ => id) (List.Subset.refl _)
  cached := surveyed.cached

theorem fail (surveyed : Surveyed fs scope stack seen s) (name requester : String)
    (probes : List Probe) : Surveyed fs scope stack seen (s.fail name requester probes) where
  closed x among r member := (surveyed.closed x among r member).mono .cyclic (fun _ => id) (by simp)
  cached := surveyed.cached

/-- The walk has come to a module when all its references are accounted for, whether it was cached
or not. From then on the references that were left alone lead to an image that was seen. -/
theorem leave (surveyed : Surveyed fs scope (r.name :: stack) seen s)
    (each : ∀ r' ∈ next.references, Accounted fs scope (r.name :: stack) seen s next r')
    (found : scope.find fs r.name = .image place bytes next) {l : Loader}
    (stored : ∀ {place e}, l.cache.entry? place = some e →
      s.loader.cache.entry? place = some e ∨ e.module.image = next) :
    Surveyed fs scope stack (fun x => seen x ∨ x = next) (s.withLoader l) := by
  have outside {image r'} (accounted : Accounted fs scope (r.name :: stack) seen s image r') :
      Accounted fs scope stack (fun x => seen x ∨ x = next) (s.withLoader l) image r' := by
    refine accounted.mono (fun onStack => ?_) (fun _ => .inl) (by simp)
    rcases List.mem_cons.mp onStack with same | below
    · exact .seen (same ▸ found) (.inr rfl)
    · exact .cyclic below
  refine ⟨?_, fun here e entry => ?_⟩
  · rintro x (among | rfl) r' member
    · exact outside (surveyed.closed x among r' member)
    · exact outside (each r' member)
  · exact (stored entry).imp_left (surveyed.cached here e)

end Surveyed

namespace Follows

variable {requester : String} {references : List Reference} {links : List Link}

theorem failures_subset (walk : Follows fs scope stack requester references s links s') :
    s.failures ⊆ s'.failures := by
  obtain ⟨new, after⟩ := walk.failures_append
  simp [after]

theorem accounted_cons (rest : Follows fs scope stack requester references s links s')
    (first : Accounted fs scope stack seen s image r)
    (others : ∃ seen', (∀ x, seen x → seen' x) ∧ Surveyed fs scope stack seen' s' ∧
      ∀ r ∈ references, Accounted fs scope stack seen' s' image r) :
    ∃ seen', (∀ x, seen x → seen' x) ∧ Surveyed fs scope stack seen' s' ∧
      ∀ r' ∈ r :: references, Accounted fs scope stack seen' s' image r' := by
  obtain ⟨seen', grows, surveyed, each⟩ := others
  refine ⟨seen', grows, surveyed, fun r' member => ?_⟩
  rcases List.mem_cons.mp member with rfl | later
  · exact first.mono .cyclic grows rest.failures_subset
  · exact each r' later

theorem surveys (separates : scope.Separates fs)
    (walk : Follows fs scope stack requester references s links s')
    (spans : scope.Spans fs root image) (below : root.name ∈ stack) (named : requester = image.name)
    (part : references ⊆ image.references) (holds : s.loader.Holds (Drawn fs scope root))
    (surveyed : Surveyed fs scope stack seen s) :
    ∃ seen', (∀ x, seen x → seen' x) ∧ Surveyed fs scope stack seen' s' ∧
      ∀ r ∈ references, Accounted fs scope stack seen' s' image r := by
  induction walk generalizing image seen with
  | nil => exact ⟨seen, fun _ => id, surveyed, nofun⟩
  | cyclic onStack rest ih =>
      exact rest.accounted_cons (.cyclic onStack)
        (ih spans below named (List.subset_of_cons_subset part) holds surveyed)
  | hosted fresh found rest ih =>
      exact rest.accounted_cons (.host (Scope.find_eq_host.mp found))
        (ih spans below named (List.subset_of_cons_subset part) holds surveyed)
  | cached fresh recalled rest ih =>
      have others := ih spans below named (List.subset_of_cons_subset part) holds surveyed
      obtain ⟨-, place, bytes, resolved, hit⟩ := Loader.recollect_eq_some recalled
      obtain ⟨e, entry, rfl, -⟩ := Loader.entry_of_current (Scope.readAt_of_resolve resolved) hit
      obtain ⟨bytes', found, -⟩ := (holds place e entry).found
      have same := separates.name_eq found resolved
      exact rest.accounted_cons (.seen (same ▸ found) (surveyed.cached place e entry)) others
  | @refused stack requester r _ s _ _ _ probes fresh missed found rest ih =>
      obtain ⟨rfl, -⟩ := holds.settled.recollect_eq_none missed
      have others := ih spans below named (List.subset_of_cons_subset part) holds
        (surveyed.fail _ _ _)
      have reported : Accounted fs scope stack seen (s.fail r.name requester probes) image r :=
        .failed (f := ⟨r.name, requester, probes⟩) (by simp) rfl named found
      exact rest.accounted_cons reported others
  | @broken stack requester r _ s s₁ s' _ _ _ place bytes next fresh missed found entered failed rest
      inner ih =>
      obtain ⟨rfl, -⟩ := holds.settled.recollect_eq_none missed
      have keeps := keeps_drawn fs scope root s.loader.cache.policy
      have entering := keeps.enter ⟨below, spans⟩ (part (by simp)) fresh found
      have drawn := (entered.keeps keeps entering (List.Subset.refl _) rfl holds).1
      obtain ⟨seen₁, grows, under, each⟩ := inner entering.2 entering.1 rfl (List.Subset.refl _)
        holds (surveyed.enter r.name)
      have left := under.leave (l := s₁.loader) each found .inl
      obtain ⟨seen', grows', last⟩ := rest.accounted_cons (.seen found (.inr rfl))
        (ih spans below named (List.subset_of_cons_subset part) drawn left)
      exact ⟨seen', fun x among => grows' x (.inl (grows x among)), last⟩
  | @linked stack requester r _ s s₁ s' inside links l l' place bytes next m fresh missed found
      entered whole adopted rest inner ih =>
      obtain ⟨rfl, -⟩ := holds.settled.recollect_eq_none missed
      have entering := (keeps_drawn fs scope root s.loader.cache.policy).enter ⟨below, spans⟩
        (part (by simp)) fresh found
      have step := adopted_of_linked spans below (part (by simp)) holds fresh missed found entered
        whole adopted
      obtain ⟨seen₁, grows, under, each⟩ := inner entering.2 entering.1 rfl (List.Subset.refl _)
        holds (surveyed.enter r.name)
      have left := under.leave (l := l') each found step.entry_eq_or
      obtain ⟨seen', grows', last⟩ := rest.accounted_cons (.seen found (.inr rfl))
        (ih spans below named (List.subset_of_cons_subset part) step.after left)
      exact ⟨seen', fun x among => grows' x (.inl (grows x among)), last⟩

def Reports (fs : FileSystem) (scope : Scope) (root : Image) (f : ResolutionFailure) : Prop :=
  ∃ x, scope.Spans fs root x ∧ x.name = f.requestedBy ∧ ∃ r ∈ x.references, r.name = f.name ∧
    f.name ≠ root.name ∧ scope.find fs f.name = .refused f.probes

theorem failures_report (walk : Follows fs scope stack requester references s links s')
    (spans : scope.Spans fs root image) (below : root.name ∈ stack) (named : requester = image.name)
    (part : references ⊆ image.references) (before : ∀ f ∈ s.failures, Reports fs scope root f) :
    ∀ f ∈ s'.failures, Reports fs scope root f := by
  have enter {stack image r place bytes next} (spans : scope.Spans fs root image)
      (below : root.name ∈ stack) (member : r ∈ image.references) (fresh : r.name ∉ stack)
      (found : scope.find fs r.name = .image place bytes next) :=
    (keeps_drawn fs scope root .pinned).enter ⟨below, spans⟩ member fresh found
  induction walk generalizing image with
  | nil => exact before
  | cyclic onStack rest ih => exact ih spans below named (List.subset_of_cons_subset part) before
  | hosted fresh found rest ih => exact ih spans below named (List.subset_of_cons_subset part) before
  | cached fresh recalled rest ih =>
      exact ih spans below named (List.subset_of_cons_subset part) before
  | @refused _ requester r _ _ _ _ _ probes fresh missed found rest ih =>
      refine ih spans below named (List.subset_of_cons_subset part) fun f member => ?_
      rcases List.mem_append.mp member with earlier | last
      · exact before f earlier
      · rw [List.mem_singleton.mp last]
        have other : r.name ≠ root.name := fun same => fresh (same ▸ below)
        exact ⟨image, spans, named.symm, r, part (by simp), rfl, other, found⟩
  | broken fresh missed found entered failed rest inner ih =>
      obtain ⟨below', spans'⟩ := enter spans below (part (by simp)) fresh found
      exact ih spans below named (List.subset_of_cons_subset part)
        (inner spans' below' rfl (List.Subset.refl _) before)
  | linked fresh missed found entered whole adopted rest inner ih =>
      obtain ⟨below', spans'⟩ := enter spans below (part (by simp)) fresh found
      exact ih spans below named (List.subset_of_cons_subset part)
        (inner spans' below' rfl (List.Subset.refl _) before)

variable {l : Loader}

theorem mem_failures_iff (separates : scope.Separates fs)
    (walk : Follows fs scope [root.name] root.name root.references ⟨l, []⟩ links s)
    (empty : ∀ place, l.cache.entry? place = none) {name requester : String} :
    (∃ f ∈ s.failures, f.name = name ∧ f.requestedBy = requester) ↔
      ∃ x, scope.Spans fs root x ∧ x.name = requester ∧ ∃ r ∈ x.references, r.name = name ∧
        name ≠ root.name ∧ ∃ probes, scope.find fs name = .refused probes := by
  constructor
  · rintro ⟨f, member, rfl, rfl⟩
    obtain ⟨x, spans, requested, r, among, same, other, found⟩ :=
      walk.failures_report .refl (by simp) rfl (List.Subset.refl _) (by simp) f member
    exact ⟨x, spans, requested, r, among, same, other, f.probes, found⟩
  · rintro ⟨x, spans, rfl, r, among, rfl, other, probes, found⟩
    have unseen : Surveyed fs scope [root.name] (fun _ => False) ⟨l, []⟩ :=
      ⟨nofun, fun place e entry => by simp [empty] at entry⟩
    obtain ⟨seen, -, surveyed, each⟩ := walk.surveys separates .refl (by simp) rfl
      (List.Subset.refl _) (fun place e entry => by simp [empty] at entry) unseen
    have accounted {x} (come : x = root ∨ seen x) {r} (member : r ∈ x.references) :
        Accounted fs scope [root.name] seen s x r := by
      rcases come with rfl | among
      · exact each r member
      · exact surveyed.closed x among r member
    have come : x = root ∨ seen x := by
      clear among found
      induction spans with
      | refl => exact .inl rfl
      | tail _ leads come =>
          obtain ⟨⟨r, member, place, bytes, found⟩, different⟩ := leads
          have named := (Scope.find_eq_image.mp found).2.2
          exact .inr ((accounted come member).seen_of_found found (named ▸ different))
    exact (accounted come among).failed_of_refused found other

end Follows

end RuleLint
