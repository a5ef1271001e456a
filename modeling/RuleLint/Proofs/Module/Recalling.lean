import RuleLint.Proofs.Module.Directories
import RuleLint.Proofs.Module.Faithful
import RuleLint.Proofs.Module.Loads

/-!
# Cached modules in place of fresh ones

In an orderly directory a walk skips a reference only to the module itself or to one on the trail
that led to it. `Steady` says for which images such a reference changes nothing. Below these a loader
that holds trusted modules answers as one that holds none: both give what the files say (`Gives`).
-/

namespace RuleLint

open File (Location FileSystem)
open Hash (Fingerprint)
open Image (Reference)
open Text (Bytes)

/-- The module may be handed out for the file at `place`. Where `H` holds of its image all nodes of
its tree are faithful. -/
structure Trusted (fs : FileSystem) (scope : Scope) (H : Image → Prop) (N : Module → Prop)
    (place : Location) (m : Module) : Prop where
  location : m.location = place
  read : ∃ bytes, fs.readAt place = .ok bytes ∧ m.fingerprint = .ofBytes bytes ∧
    Image.decode bytes = .ok m.image
  tree : H m.image → ∀ x ∈ m.tree, Faithful fs scope x ∧ N x

/-- Where `H` holds of an image, a reference that is skipped on a trail would not have been followed
either if the image had been linked by itself. -/
structure Steady (fs : FileSystem) (scope : Scope) (directory : Location) (passed : List String)
    (H : Image → Prop) (N : Module → Prop) : Prop where
  orderly : Orderly fs scope directory
  part : passed ⊆ scope.hosts
  down : ∀ {a b}, H a → Refers fs directory passed a b → H b
  excused : ∀ {stack image r}, H image → OnTrail fs directory passed stack image →
    r ∈ image.references → r.name ∈ stack → r.name = image.name ∨ r.name ∈ scope.hosts
  listed : ∀ {stack image}, H image → OnTrail fs directory passed stack image →
    image.name ∈ stack → ∀ m : Module, m.image = image →
      m.hostReferences = (image.references.filter fun r =>
        r.name ∉ stack ∧ r.name ∈ scope.hosts).map (·.name) → N m

variable {fs : FileSystem} {scope : Scope} {directory location place : Location}
  {passed stack : List String} {H : Image → Prop} {N : Module → Prop} {image : Image}
  {bytes : Bytes} {links : List Link} {policy : CachePolicy} {K : Location → CacheEntry → Prop}

theorem Orderly.find_of_trusted (orderly : Orderly fs scope directory) {name : String} {m : Module}
    (resolved : scope.resolve fs name = .image place bytes)
    (trusted : Trusted fs scope H N place m) :
    scope.find fs name = .image m.location bytes m.image := by
  obtain ⟨contents, read, -, decoded⟩ := trusted.read
  rw [Scope.readAt_of_resolve resolved] at read
  cases read
  rw [trusted.location]
  exact orderly.find_of_resolve resolved decoded

namespace Steady

variable (steady : Steady fs scope directory passed H N)

include steady

theorem followed_eq (holds : H image) (trail : OnTrail fs directory passed stack image)
    (own : image.name ∈ stack) :
    image.references.filter (fun r => r.name ∉ stack ∧ r.name ∉ scope.hosts) =
      scope.followed image := by
  refine List.filter_congr fun r member => ?_
  rw [decide_eq_decide]
  constructor
  · rintro ⟨fresh, unhosted⟩
    exact ⟨unhosted, fun same => fresh (same ▸ own)⟩
  · rintro ⟨unhosted, other⟩
    refine ⟨fun onStack => ?_, unhosted⟩
    exact (steady.excused holds trail member onStack).elim other unhosted

theorem trusted_of_answers (read : fs.readAt place = .ok bytes)
    (decoded : Image.decode bytes = .ok image) (trail : OnTrail fs directory passed stack image)
    (own : image.name ∈ stack)
    (answers : List.Forall₂ (Answer fs scope stack (Trusted fs scope H N)) image.references links)
    (l : Loader) : Trusted fs scope H N place (l.built place (.ofBytes bytes) image links) := by
  refine ⟨rfl, ⟨bytes, read, rfl, decoded⟩, fun (holds : H image) => Module.forall_mem_tree.mpr ⟨?_, ?_⟩⟩
  · have hosts := Answer.hostReferences answers
    refine ⟨⟨⟨bytes, read, rfl, decoded⟩, ?_⟩, steady.listed holds trail own _ rfl hosts⟩
    have answered := Answer.dependencies answers
    rw [steady.followed_eq holds trail own] at answered
    refine answered.imp ?_
    rintro r d ⟨place, bytes, resolved, trusted⟩
    exact ⟨bytes, steady.orderly.find_of_trusted resolved trusted⟩
  · intro d dependency
    obtain ⟨r, member, -, place, bytes, resolved, trusted⟩ :=
      Answer.of_dependency answers dependency
    have found := steady.orderly.find_of_trusted resolved trusted
    exact trusted.tree (steady.down holds (steady.orderly.refers_of_find member found steady.part))

theorem keeps
    (hit : ∀ {place e}, place.dropLast = directory → K place e → e.Current fs policy place →
      Trusted fs scope H N place e.module)
    (stored : ∀ {place m}, place.dropLast = directory → Trusted fs scope H N place m →
      K place ⟨m.fingerprint, m⟩) :
    Keeps fs scope policy K (Trusted fs scope H N) (OnTrail fs directory passed) where
  hit := by
    intro name place bytes e resolved known current
    obtain ⟨-, -, here, -⟩ := steady.orderly.resolve_eq_image.mp resolved
    exact hit (by rw [here, List.dropLast_concat]) known current
  enter := by
    intro stack image r place bytes next trail member fresh found
    rw [← (Scope.find_eq_image.mp found).2.2]
    exact trail.enter (steady.orderly.refers_of_find member found steady.part)
  new := by
    intro stack image place bytes links trail own found answers l
    obtain ⟨-, -, here, read, decoded⟩ := steady.orderly.find_eq_image.mp found
    have trusted := steady.trusted_of_answers read decoded trail own answers l
    exact ⟨stored (by rw [here, List.dropLast_concat]) trusted, trusted⟩

theorem lacks (keeps : Keeps fs scope policy K (Trusted fs scope H N) (OnTrail fs directory passed))
    {requester : String} {references : List Reference} {s s' : LinkState}
    (walk : Follows fs scope stack requester references s links s') (holds : H image)
    (trail : OnTrail fs directory passed stack image) (own : image.name ∈ stack)
    (named : requester = image.name) (part : references ⊆ image.references)
    (ruled : s.loader.cache.policy = policy) (known : s.loader.Holds K) :
    ∃ new, s'.failures = s.failures ++ new ∧ Lacks fs scope requester references new := by
  have other {r : Reference} {stack : List String} {requester : String} {image : Image}
      (own : image.name ∈ stack) (named : requester = image.name) (fresh : r.name ∉ stack) :
      r.name ≠ requester := fun same => fresh (same ▸ named ▸ own)
  induction walk generalizing image with
  | nil => exact ⟨[], (List.append_nil _).symm, .nil⟩
  | cyclic onStack rest ih =>
      obtain ⟨new, after, lacks⟩ :=
        ih holds trail own named (List.subset_of_cons_subset part) ruled known
      rw [named] at lacks ⊢
      exact ⟨new, after, .passed (steady.excused holds trail (part (by simp)) onStack) lacks⟩
  | hosted fresh found rest ih =>
      obtain ⟨new, after, lacks⟩ :=
        ih holds trail own named (List.subset_of_cons_subset part) ruled known
      exact ⟨new, after, .passed (.inr (Scope.find_eq_host.mp found)) lacks⟩
  | cached fresh recalled rest ih =>
      obtain ⟨new, after, lacks⟩ :=
        ih holds trail own named (List.subset_of_cons_subset part) ruled known
      obtain ⟨-, place, bytes, resolved, hit⟩ := Loader.recollect_eq_some recalled
      obtain ⟨e, entry, rfl, current⟩ :=
        Loader.entry_of_current (Scope.readAt_of_resolve resolved) hit
      -- Nothing is missing below a trusted module, so the reference to it adds no failure.
      have trusted := keeps.hit resolved (known place e entry) (ruled ▸ current)
      have found := steady.orderly.find_of_trusted resolved trusted
      have below := steady.down holds
        (steady.orderly.refers_of_find (part (by simp)) found steady.part)
      have none := Lacks.nil_of_faithful e.module fun x inside => (trusted.tree below x inside).1
      exact ⟨new, after, .image (other own named fresh) found none lacks⟩
  | refused fresh missed found rest ih =>
      have forgets := (Loader.recollect_eq_none missed).1
      obtain ⟨new, after, lacks⟩ := ih holds trail own named (List.subset_of_cons_subset part)
        (forgets.policy.trans ruled) (known.forget forgets)
      refine ⟨_, ?_, .refused (other own named fresh) found lacks⟩
      rw [after, LinkState.fail_failures, List.append_assoc]
      rfl
  | broken fresh missed found entered failed rest inner ih =>
      have forgets := (Loader.recollect_eq_none missed).1
      have refers := steady.orderly.refers_of_find (part (by simp)) found steady.part
      have entering := keeps.enter trail (part (by simp)) fresh found
      have kept := (entered.keeps keeps entering (List.Subset.refl _) (forgets.policy.trans ruled)
        (known.forget forgets)).1
      obtain ⟨below, middle, inside⟩ := inner (steady.down holds refers) entering
        (by simp [(Scope.find_eq_image.mp found).2.2]) rfl (List.Subset.refl _)
        (forgets.policy.trans ruled) (known.forget forgets)
      obtain ⟨new, after, lacks⟩ := ih holds trail own named (List.subset_of_cons_subset part)
        (entered.policy_eq.trans (forgets.policy.trans ruled)) kept
      refine ⟨below ++ new, ?_, .image (other own named fresh) found inside lacks⟩
      rw [after, middle, List.append_assoc]
      rfl
  | @linked _ requester r _ s s₁ _ _ _ _ l' _ _ _ m fresh missed found entered whole adopted rest
      inner ih =>
      have forgets := (Loader.recollect_eq_none missed).1
      have refers := steady.orderly.refers_of_find (part (by simp)) found steady.part
      have entering := keeps.enter trail (part (by simp)) fresh found
      obtain ⟨below, middle, inside⟩ := inner (steady.down holds refers) entering
        (by simp [(Scope.find_eq_image.mp found).2.2]) rfl (List.Subset.refl _)
        (forgets.policy.trans ruled) (known.forget forgets)
      -- the walk over the first reference alone ends where the rest begins
      have first : Follows fs scope _ requester [r] s [.module m] (s₁.withLoader l') :=
        .linked fresh missed found entered whole adopted .nil
      have kept := (first.keeps keeps trail (by simpa using part (List.mem_cons_self ..)) ruled
        known).1
      obtain ⟨new, after, lacks⟩ := ih holds trail own named (List.subset_of_cons_subset part)
        (first.policy_eq.trans ruled) kept
      refine ⟨below ++ new, ?_, .image (other own named fresh) found inside lacks⟩
      rw [after, LinkState.withLoader_failures, middle, List.append_assoc]
      rfl

end Steady

/-- What the files say a load of the module at `location` gives: an error where there is no image to
be linked, nothing for an image that is not wanted, all references that lead nowhere, or a module
that can be trusted. -/
def Gives (fs : FileSystem) (scope : Scope) (H : Image → Prop) (N : Module → Prop)
    (location : Location) (wanted : Image → Bool) (result : Except LoadError (Option Module)) :
    Prop :=
  match fs.readAt location with
  | .error cause => result = .error (.io location.path cause)
  | .ok bytes =>
    match Image.decode bytes with
    | .error cause => result = .error (.image location.path cause)
    | .ok image =>
      if wanted image = true then
        (∃ m, result = .ok (some m) ∧ Lacks fs scope image.name image.references [] ∧
          Trusted fs scope H N location m) ∨
        ∃ failures, failures ≠ [] ∧ Lacks fs scope image.name image.references failures ∧
          result = .error (.unresolved ⟨image.name, location.path, failures⟩)
      else result = .ok none

theorem Gives.agree {α : Type} {f : Module → α} {wanted : Image → Bool}
    {result result' : Except LoadError (Option Module)}
    (gives : Gives fs scope H N location wanted result)
    (gives' : Gives fs scope H N location wanted result')
    (same : ∀ m m', Trusted fs scope H N location m → Trusted fs scope H N location m' →
      f m = f m') : result.map (Option.map f) = result'.map (Option.map f) := by
  cases read : fs.readAt location with
  | error cause =>
      simp only [Gives, read] at gives gives'
      rw [gives, gives']
  | ok bytes =>
      cases decoded : Image.decode bytes with
      | error cause =>
          simp only [Gives, read, decoded] at gives gives'
          rw [gives, gives']
      | ok image =>
          simp only [Gives, read, decoded] at gives gives'
          by_cases accepted : wanted image = true
          · rw [if_pos accepted] at gives gives'
            rcases gives with ⟨m, rfl, lacks, trusted⟩ | ⟨failures, broken, lacks, rfl⟩
            · rcases gives' with ⟨m', rfl, -, trusted'⟩ | ⟨failures, broken, lacks', rfl⟩
              · simp [Except.map, same m m' trusted trusted']
              · exact absurd (lacks'.unique lacks) broken
            · rcases gives' with ⟨m', rfl, lacks', trusted'⟩ | ⟨failures', broken', lacks', rfl⟩
              · exact absurd (lacks.unique lacks') broken
              · rw [lacks.unique lacks']
          · rw [if_neg accepted] at gives gives'
            rw [gives, gives']

section

variable {wanted : Image → Bool} {l l' : Loader} {result : Except LoadError (Option Module)}
  (inside : location.dropLast = directory)
  (hit : ∀ {place e}, place.dropLast = directory → K place e → e.Current fs policy place →
    Trusted fs scope H N place e.module)
  (stored : ∀ {place m}, place.dropLast = directory → Trusted fs scope H N place m →
    K place ⟨m.fingerprint, m⟩)
  (load : Loads fs scope location wanted l result l') (ruled : l.cache.policy = policy)
  (known : l.Holds K)

include inside hit stored load ruled known

theorem Steady.gives (steady : Steady fs scope directory passed H N)
    (read : fs.readAt location = .ok bytes) (decoded : Image.decode bytes = .ok image) :
    l'.Holds K ∧ (H image → Gives fs scope H N location wanted result) := by
  have keeps := steady.keeps hit stored
  have trail {bytes image} (read : fs.readAt location = .ok bytes)
      (decoded : Image.decode bytes = .ok image) :
      OnTrail fs directory passed [image.name] image :=
    .start (inside ▸ inDirectory_of_read read decoded)
  obtain ⟨kept, trusted⟩ := load.keeps keeps (hit inside) trail
    (fun read decoded _ answers l =>
      have trusted := steady.trusted_of_answers read decoded (trail read decoded) (by simp)
        answers l
      ⟨stored inside trusted, trusted⟩) ruled known
  refine ⟨kept, fun holds => ?_⟩
  simp only [Gives, read, decoded]
  cases load with
  | @cached e entry current =>
      have trusted := hit inside (known location e entry) (ruled ▸ current)
      obtain ⟨contents, read', -, decoded'⟩ := trusted.read
      obtain ⟨rfl, rfl⟩ := image_unique read decoded read' decoded'
      split
      · have faithful := fun x inside => (trusted.tree holds x inside).1
        exact .inl ⟨e.module, rfl, Lacks.nil_of_faithful e.module faithful, trusted⟩
      · rfl
  | unreadable failed =>
      rw [read] at failed
      cases failed
  | malformed forgets read' failed =>
      rw [read] at read'
      cases read'
      rw [decoded] at failed
      cases failed
  | unwanted forgets read' decoded' refused =>
      obtain ⟨rfl, rfl⟩ := image_unique read decoded read' decoded'
      rw [if_neg (by simp [refused])]
  | linked forgets read' decoded' accepted walk whole stale =>
      obtain ⟨rfl, rfl⟩ := image_unique read decoded read' decoded'
      obtain ⟨new, after, lacks⟩ := steady.lacks keeps walk holds (trail read decoded) (by simp)
        rfl (List.Subset.refl _) (forgets.policy.trans ruled) (known.forget forgets)
      have none : new = [] := by simpa [whole] using after.symm
      rw [if_pos accepted]
      exact .inl ⟨_, rfl, none ▸ lacks, trusted rfl⟩
  | unresolved forgets read' decoded' accepted walk broken =>
      obtain ⟨rfl, rfl⟩ := image_unique read decoded read' decoded'
      obtain ⟨new, after, lacks⟩ := steady.lacks keeps walk holds (trail read decoded) (by simp)
        rfl (List.Subset.refl _) (forgets.policy.trans ruled) (known.forget forgets)
      rw [if_pos accepted]
      exact .inr ⟨_, broken, by simpa [after] using lacks, rfl⟩

omit stored in
theorem Loads.gives_of_hidden
    (hidden : ∀ bytes image, fs.readAt location = .ok bytes → Image.decode bytes ≠ .ok image) :
    l'.Holds K ∧ Gives fs scope H N location wanted result := by
  cases load with
  | @cached e entry current =>
      obtain ⟨bytes, read, -, decoded⟩ :=
        (hit inside (known location e entry) (ruled ▸ current)).read
      exact absurd decoded (hidden _ _ read)
  | unreadable failed => exact ⟨known, by simp [Gives, failed]⟩
  | malformed forgets read failed => exact ⟨known.forget forgets, by simp [Gives, read, failed]⟩
  | unwanted forgets read decoded refused => exact absurd decoded (hidden _ _ read)
  | linked forgets read decoded accepted walk whole stale =>
      exact absurd decoded (hidden _ _ read)
  | unresolved forgets read decoded accepted walk broken =>
      exact absurd decoded (hidden _ _ read)

theorem Loads.gives (steady : ∀ {image}, InDirectory fs directory image →
      Steady fs scope directory passed H N) :
    l'.Holds K ∧ ((∀ {bytes image}, fs.readAt location = .ok bytes →
      Image.decode bytes = .ok image → H image) → Gives fs scope H N location wanted result) := by
  by_cases held : ∃ bytes image, fs.readAt location = .ok bytes ∧ Image.decode bytes = .ok image
  · obtain ⟨bytes, image, read, decoded⟩ := held
    have settled := steady (inside ▸ inDirectory_of_read read decoded)
    obtain ⟨kept, gives⟩ := settled.gives inside hit stored load ruled known read decoded
    exact ⟨kept, fun holds => gives (holds read decoded)⟩
  · have hidden : ∀ bytes image, fs.readAt location = .ok bytes → Image.decode bytes ≠ .ok image :=
      fun bytes image read decoded => held ⟨bytes, image, read, decoded⟩
    obtain ⟨kept, gives⟩ := load.gives_of_hidden inside hit ruled known hidden
    exact ⟨kept, fun _ => gives⟩

end

end RuleLint
