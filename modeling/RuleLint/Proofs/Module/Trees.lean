import RuleLint.Module.Loader

namespace RuleLint

open File (Location FileSystem)
open Hash (Fingerprint)

namespace Module

theorem sizeOf_lt_of_mem_dependencies {m d : Module} (member : d ∈ m.dependencies) :
    sizeOf d < sizeOf m := by
  cases m
  have smaller := List.sizeOf_lt_of_mem member
  simp only [mk.sizeOf_spec] at smaller ⊢
  omega

theorem induction {motive : Module → Prop}
    (node : ∀ m, (∀ d ∈ m.dependencies, motive d) → motive m) (m : Module) : motive m :=
  node m fun d _member => induction node d
termination_by sizeOf m
decreasing_by exact sizeOf_lt_of_mem_dependencies _member

mutual

/-- The nodes of a module's tree, the module first and each dependency before the next. -/
def tree : Module → List Module
  | ⟨location, fingerprint, image, dependencies, hosted, loadId⟩ =>
    ⟨location, fingerprint, image, dependencies, hosted, loadId⟩ :: trees dependencies

def trees : List Module → List Module
  | [] => []
  | m :: ms => m.tree ++ trees ms

end

variable {m d x y : Module} {fs : FileSystem} {name : String}

theorem trees_eq_flatMap (ms : List Module) : trees ms = ms.flatMap tree := by
  induction ms with
  | nil => rfl
  | cons m ms ih => rw [trees, ih, List.flatMap_cons]

theorem tree_eq (m : Module) : m.tree = m :: m.dependencies.flatMap tree := by
  cases m
  rw [tree, trees_eq_flatMap]

theorem mem_tree : x ∈ m.tree ↔ x = m ∨ ∃ d ∈ m.dependencies, x ∈ d.tree := by
  rw [tree_eq, List.mem_cons, List.mem_flatMap]

@[simp] theorem self_mem_tree (m : Module) : m ∈ m.tree := mem_tree.mpr (.inl rfl)

theorem forall_mem_tree {P : Module → Prop} :
    (∀ x ∈ m.tree, P x) ↔ P m ∧ ∀ d ∈ m.dependencies, ∀ x ∈ d.tree, P x := by
  constructor
  · intro each
    exact ⟨each m (mem_tree.mpr (.inl rfl)), fun d dependency x inside =>
      each x (mem_tree.mpr (.inr ⟨d, dependency, inside⟩))⟩
  · rintro ⟨self, below⟩ x node
    rcases mem_tree.mp node with rfl | ⟨d, dependency, inside⟩
    · exact self
    · exact below d dependency x inside

theorem mem_tree_of_dependency (dependency : d ∈ m.dependencies) (node : x ∈ d.tree) : x ∈ m.tree :=
  mem_tree.mpr (.inr ⟨d, dependency, node⟩)

theorem mem_tree_trans (below : y ∈ x.tree) (node : x ∈ m.tree) : y ∈ m.tree := by
  induction m using induction with
  | node m ih =>
      rcases mem_tree.mp node with rfl | ⟨d, dependency, inside⟩
      · exact below
      · exact mem_tree_of_dependency dependency (ih d dependency inside)

theorem forall_mem_tree_of_dependencies {P : Module → Prop} (self : P m)
    (below : ∀ x ∈ m.tree, ∀ d ∈ x.dependencies, P d) : ∀ x ∈ m.tree, P x := by
  induction m using induction with
  | node m ih =>
      refine forall_mem_tree.mpr ⟨self, fun d dependency => ?_⟩
      exact ih d dependency (below m (self_mem_tree m) d dependency) fun x node =>
        below x (mem_tree_of_dependency dependency node)

theorem findTypeIn?_eq (ms : List Module) (name : String)
    (each : ∀ m ∈ ms, m.findType? name = (m.tree.map (·.image)).findSome? (·.findType? name)) :
    findTypeIn? name ms = ((trees ms).map (·.image)).findSome? (·.findType? name) := by
  induction ms with
  | nil => rfl
  | cons m ms ih =>
      have rest := ih fun m' member => each m' (List.mem_cons_of_mem _ member)
      rw [findTypeIn?, trees, List.map_append, List.findSome?_append, rest, each m (by simp)]

theorem findType?_eq (m : Module) (name : String) :
    m.findType? name = (m.tree.map (·.image)).findSome? (·.findType? name) := by
  induction m using induction with
  | node m ih =>
      have below := findTypeIn?_eq m.dependencies name ih
      cases m
      rw [findType?, tree, List.map_cons, List.findSome?_cons, below]
      cases Image.findType? _ name <;> rfl

def UnchangedIn (fs : FileSystem) (m : Module) : Prop :=
  ∃ bytes, fs.readAt m.location = .ok bytes ∧ Fingerprint.ofBytes bytes = m.fingerprint

theorem allCurrent_iff (ms : List Module)
    (each : ∀ m ∈ ms, m.dependenciesCurrent fs = true ↔
      ∀ d ∈ m.dependencies, ∀ x ∈ d.tree, x.UnchangedIn fs) :
    allCurrent fs ms = true ↔ ∀ m ∈ ms, ∀ x ∈ m.tree, x.UnchangedIn fs := by
  induction ms with
  | nil => simp [allCurrent]
  | cons m ms ih =>
      have rest := ih fun m' member => each m' (List.mem_cons_of_mem _ member)
      rw [allCurrent, List.forall_mem_cons, forall_mem_tree, Bool.and_eq_true, Bool.and_eq_true, rest,
        each m (by simp)]
      refine and_congr_left' (and_congr_left' ?_)
      unfold UnchangedIn
      split <;> simp_all

theorem dependenciesCurrent_iff (m : Module) :
    m.dependenciesCurrent fs = true ↔ ∀ d ∈ m.dependencies, ∀ x ∈ d.tree, x.UnchangedIn fs := by
  induction m using induction with
  | node m ih =>
      cases m
      rw [dependenciesCurrent]
      exact allCurrent_iff _ ih

mutual

/-- The module with all load ids in its tree taken away. -/
def unnumbered : Module → Module
  | ⟨location, fingerprint, image, dependencies, hosted, _⟩ =>
    ⟨location, fingerprint, image, unnumberedAll dependencies, hosted, 0⟩

def unnumberedAll : List Module → List Module
  | [] => []
  | m :: ms => m.unnumbered :: unnumberedAll ms

end

theorem unnumberedAll_eq_map (ms : List Module) : unnumberedAll ms = ms.map unnumbered := by
  induction ms with
  | nil => rfl
  | cons m ms ih => rw [unnumberedAll, ih, List.map_cons]

theorem unnumbered_eq (m : Module) :
    m.unnumbered = ⟨m.location, m.fingerprint, m.image, m.dependencies.map unnumbered,
      m.hostReferences, 0⟩ := by
  cases m
  rw [unnumbered, unnumberedAll_eq_map]

end Module

end RuleLint
