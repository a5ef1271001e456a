import RuleLint.Proofs.Module.Keeping

namespace RuleLint

open File (Location FileSystem)
open Hash (Fingerprint)
open Image (Reference)
open Text (Bytes)

namespace Scope

def followed (s : Scope) (image : Image) : List Reference :=
  image.references.filter fun r => r.name ∉ s.hosts ∧ r.name ≠ image.name

def hosted (s : Scope) (image : Image) : List String :=
  (image.references.filter fun r => r.name ∈ s.hosts).map (·.name)

end Scope

variable {fs : FileSystem} {scope : Scope}

/-- The module is what its file holds, and its dependencies are what its references lead to. -/
structure Faithful (fs : FileSystem) (scope : Scope) (x : Module) : Prop where
  read : ∃ bytes, fs.readAt x.location = .ok bytes ∧ x.fingerprint = .ofBytes bytes ∧
    Image.decode bytes = .ok x.image
  answered : List.Forall₂
    (fun r d => ∃ bytes, scope.find fs r.name = .image d.location bytes d.image)
    (scope.followed x.image) x.dependencies

theorem map_eq_of_forall₂ {α β γ : Type} {R : α → γ → Prop} {f : γ → β} {as : List α}
    {bs cs : List γ} (left : List.Forall₂ R as bs) (right : List.Forall₂ R as cs)
    (same : ∀ a b c, b ∈ bs → c ∈ cs → R a b → R a c → f b = f c) : bs.map f = cs.map f := by
  induction left generalizing cs with
  | nil =>
      cases right
      rfl
  | @cons a b as bs here rest ih =>
      cases right with
      | @cons _ c _ cs here' rest' =>
          have heads := same a b c (by simp) (by simp) here here'
          have tails := ih rest' fun a b c inside inside' =>
            same a b c (List.mem_cons_of_mem _ inside) (List.mem_cons_of_mem _ inside')
          rw [List.map_cons, List.map_cons, heads, tails]

namespace Faithful

theorem same {α : Type} {N : Module → Prop} {f : Module → α}
    (build : ∀ {m m' : Module}, N m → N m' → m.location = m'.location →
      m.fingerprint = m'.fingerprint → m.image = m'.image →
      m.dependencies.map f = m'.dependencies.map f → f m = f m')
    (m m' : Module) (place : m.location = m'.location)
    (faithful : ∀ x ∈ m.tree, Faithful fs scope x ∧ N x)
    (faithful' : ∀ x ∈ m'.tree, Faithful fs scope x ∧ N x) : f m = f m' := by
  induction m using Module.induction generalizing m' with
  | node m ih =>
      obtain ⟨⟨⟨bytes, read, fingerprint, decoded⟩, answered⟩, node⟩ := faithful m (by simp)
      obtain ⟨⟨⟨bytes', read', fingerprint', decoded'⟩, answered'⟩, node'⟩ := faithful' m' (by simp)
      rw [place, read'] at read
      cases read
      rw [decoded'] at decoded
      have image : m.image = m'.image := (Except.ok.inj decoded).symm
      rw [image] at answered
      refine build node node' place (fingerprint.trans fingerprint'.symm) image ?_
      refine map_eq_of_forall₂ answered answered' ?_
      rintro r d d' dependency dependency' ⟨contents, found⟩ ⟨contents', found'⟩
      rw [found] at found'
      refine ih d dependency d' (by injection found') ?_ ?_
      · exact fun x inside => faithful x (Module.mem_tree_of_dependency dependency inside)
      · exact fun x inside => faithful' x (Module.mem_tree_of_dependency dependency' inside)

end Faithful

/-- The references of the module of that name, and of the modules they lead to, that lead nowhere.
References to the host and of a module to itself are passed over. -/
inductive Lacks (fs : FileSystem) (scope : Scope) :
    String → List Reference → List ResolutionFailure → Prop
  | nil {name : String} : Lacks fs scope name [] []
  | passed {name : String} {r : Reference} {rs : List Reference} {failures : List ResolutionFailure}
      (excused : r.name = name ∨ r.name ∈ scope.hosts) (rest : Lacks fs scope name rs failures) :
      Lacks fs scope name (r :: rs) failures
  | refused {name : String} {r : Reference} {rs : List Reference}
      {failures : List ResolutionFailure} {probes : List Probe} (other : r.name ≠ name)
      (found : scope.find fs r.name = .refused probes) (rest : Lacks fs scope name rs failures) :
      Lacks fs scope name (r :: rs) (⟨r.name, name, probes⟩ :: failures)
  | image {name : String} {r : Reference} {rs : List Reference}
      {below failures : List ResolutionFailure} {place : Location} {bytes : Bytes} {next : Image}
      (other : r.name ≠ name) (found : scope.find fs r.name = .image place bytes next)
      (inside : Lacks fs scope next.name next.references below)
      (rest : Lacks fs scope name rs failures) :
      Lacks fs scope name (r :: rs) (below ++ failures)

namespace Lacks

variable {name : String} {references : List Reference} {failures failures' : List ResolutionFailure}

theorem unique (lacks : Lacks fs scope name references failures)
    (lacks' : Lacks fs scope name references failures') : failures = failures' := by
  induction lacks generalizing failures' with
  | nil =>
      cases lacks'
      rfl
  | passed excused rest ih =>
      cases lacks' with
      | passed _ rest' => exact ih rest'
      | refused other found rest' =>
          rw [Scope.find_eq_host.mpr (excused.resolve_left other)] at found
          cases found
      | image other found inside rest' =>
          rw [Scope.find_eq_host.mpr (excused.resolve_left other)] at found
          cases found
  | refused other found rest ih =>
      cases lacks' with
      | passed excused rest' =>
          rw [Scope.find_eq_host.mpr (excused.resolve_left other)] at found
          cases found
      | refused _ found' rest' =>
          rw [found] at found'
          cases found'
          rw [ih rest']
      | image _ found' inside rest' =>
          rw [found] at found'
          cases found'
  | image other found inside rest ihInside ih =>
      cases lacks' with
      | passed excused rest' =>
          rw [Scope.find_eq_host.mpr (excused.resolve_left other)] at found
          cases found
      | refused _ found' rest' =>
          rw [found] at found'
          cases found'
      | image _ found' inside' rest' =>
          rw [found] at found'
          cases found'
          rw [ihInside inside', ih rest']

theorem nil_of_answered {own : String} {references : List Reference} {dependencies : List Module}
    (answered : List.Forall₂
      (fun r d => ∃ bytes, scope.find fs r.name = .image d.location bytes d.image)
      (references.filter fun r => r.name ∉ scope.hosts ∧ r.name ≠ own) dependencies)
    (below : ∀ d ∈ dependencies, Lacks fs scope d.image.name d.image.references []) :
    Lacks fs scope own references [] := by
  induction references generalizing dependencies with
  | nil => exact .nil
  | cons r references ih =>
      by_cases taken : r.name ∉ scope.hosts ∧ r.name ≠ own
      · rw [List.filter_cons_of_pos (by simpa using taken)] at answered
        cases answered with
        | @cons _ d _ ds found rest =>
            obtain ⟨bytes, found⟩ := found
            have others := ih rest fun d' inside => below d' (List.mem_cons_of_mem _ inside)
            exact .image taken.2 found (below d (by simp)) others
      · rw [List.filter_cons_of_neg (by simpa using taken)] at answered
        refine .passed ?_ (ih answered below)
        by_cases same : r.name = own
        · exact .inl same
        · exact .inr (by simpa [same] using taken)

theorem nil_of_faithful (m : Module) (faithful : ∀ x ∈ m.tree, Faithful fs scope x) :
    Lacks fs scope m.image.name m.image.references [] := by
  induction m using Module.induction with
  | node m ih =>
      refine nil_of_answered (faithful m (by simp)).answered fun d dependency => ?_
      exact ih d dependency fun x inside =>
        faithful x (Module.mem_tree_of_dependency dependency inside)

end Lacks

end RuleLint
