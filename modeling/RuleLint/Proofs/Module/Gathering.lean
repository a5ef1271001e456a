import RuleLint.Proofs.Module.Caching
import RuleLint.Proofs.Module.Trees

namespace RuleLint

open File (Location)

namespace Module

variable {m x : Module} {ms : List Module} {found below gathered locations : List Location}

theorem mem_trees : x ∈ trees ms ↔ ∃ m ∈ ms, x ∈ m.tree := by
  rw [trees_eq_flatMap, List.mem_flatMap]

theorem trees_singleton (m : Module) : trees [m] = m.tree := by
  simp [trees_eq_flatMap]

theorem mem_trees_of_dependencies (node : x ∈ trees m.dependencies) : x ∈ m.tree := by
  rw [tree_eq, ← trees_eq_flatMap]
  exact List.mem_cons_of_mem _ node

structure Gathers (found : List Location) (ms : List Module) (gathered : List Location) : Prop where
  found_subset : found ⊆ gathered
  roots : ∀ m ∈ ms, m.location ∈ gathered
  nodes : ∀ l ∈ gathered, l ∈ found ∨
    ∃ x ∈ trees ms, x.location = l ∧ ∀ d ∈ x.dependencies, d.location ∈ gathered

theorem Gathers.cons (inside : Gathers (found ++ [m.location]) m.dependencies below)
    (others : Gathers below ms gathered) : Gathers found (m :: ms) gathered where
  found_subset := fun _ member =>
    others.found_subset (inside.found_subset (List.mem_append_left _ member))
  roots := List.forall_mem_cons.mpr
    ⟨others.found_subset (inside.found_subset (by simp)), others.roots⟩
  nodes := by
    intro l member
    rw [trees]
    rcases others.nodes l member with early | ⟨x, node, here, deps⟩
    · rcases inside.nodes l early with before | ⟨x, node, here, deps⟩
      · rcases List.mem_append.mp before with known | own
        · exact .inl known
        · refine .inr ⟨m, by simp, (List.mem_singleton.mp own).symm, fun d dependency => ?_⟩
          exact others.found_subset (inside.roots d dependency)
      · exact .inr ⟨x, List.mem_append_left _ (mem_trees_of_dependencies node), here,
          fun d dependency => others.found_subset (deps d dependency)⟩
    · exact .inr ⟨x, List.mem_append_right _ node, here, deps⟩

theorem addLocations_gathers (ms : List Module)
    (each : ∀ m ∈ ms, ∀ found, Gathers found m.dependencies (m.dependencyLocations found))
    (found : List Location) : Gathers found ms (addLocations found ms) := by
  induction ms generalizing found with
  | nil => exact ⟨List.Subset.refl _, nofun, fun l member => .inl member⟩
  | cons m ms ih =>
      rw [List.forall_mem_cons] at each
      rw [addLocations]
      split
      · rename_i known
        obtain ⟨kept, roots, nodes⟩ := ih each.2 found
        refine ⟨kept, List.forall_mem_cons.mpr ⟨kept known, roots⟩, fun l member => ?_⟩
        rw [trees]
        refine (nodes l member).imp_right ?_
        rintro ⟨x, node, rest⟩
        exact ⟨x, List.mem_append_right _ node, rest⟩
      · exact (each.1 _).cons (ih each.2 _)

theorem dependencyLocations_gathers (m : Module) (found : List Location) :
    Gathers found m.dependencies (m.dependencyLocations found) := by
  induction m using induction generalizing found with
  | node m ih =>
      cases m
      exact addLocations_gathers _ ih found

/-- The locations are those of the modules and others from their trees. At each of them a node
stands whose dependencies are among them too. -/
structure Covers (ms : List Module) (locations : List Location) : Prop where
  roots : ∀ m ∈ ms, m.location ∈ locations
  nodes : ∀ l ∈ locations,
    ∃ x ∈ trees ms, x.location = l ∧ ∀ d ∈ x.dependencies, d.location ∈ locations

/-- The node `x` stands below a dependency that is at none of the locations. The node with this
dependency was passed over for another one at its location. -/
def Misses (ms : List Module) (locations : List Location) (x : Module) : Prop :=
  ∃ y ∈ trees ms, ∃ z ∈ trees ms, y.location = z.location ∧
    (∀ d ∈ z.dependencies, d.location ∈ locations) ∧
      ∃ d ∈ y.dependencies, d.location ∉ locations ∧ x ∈ d.tree

theorem covers_dependencyLocations (m : Module) :
    Covers m.dependencies (m.dependencyLocations []) where
  roots := (m.dependencyLocations_gathers []).roots
  nodes l member := ((m.dependencyLocations_gathers []).nodes l member).resolve_left nofun

theorem Covers.add_root (covers : Covers m.dependencies locations) :
    Covers [m] (m.location :: locations) where
  roots := by simp
  nodes := by
    rw [trees_singleton]
    refine List.forall_mem_cons.mpr ⟨⟨m, self_mem_tree m, rfl, fun d dependency => ?_⟩, ?_⟩
    · exact List.mem_cons_of_mem _ (covers.roots d dependency)
    · intro l member
      obtain ⟨x, node, here, deps⟩ := covers.nodes l member
      exact ⟨x, mem_trees_of_dependencies node, here, fun d dependency =>
        List.mem_cons_of_mem _ (deps d dependency)⟩

theorem Covers.missed (covers : Covers ms locations) :
    ∀ x ∈ trees ms, x.location ∈ locations ∨ Misses ms locations x := by
  suffices each : ∀ y ∈ trees ms, y.location ∈ locations →
      ∀ x ∈ y.tree, x.location ∈ locations ∨ Misses ms locations x by
    intro x node
    obtain ⟨m, member, inside⟩ := mem_trees.mp node
    exact each m (mem_trees.mpr ⟨m, member, self_mem_tree m⟩) (covers.roots m member) x inside
  intro y
  induction y using induction with
  | node y ih =>
      intro node among x below
      rcases mem_tree.mp below with rfl | ⟨d, dependency, inside⟩
      · exact .inl among
      · by_cases gathered : d.location ∈ locations
        · obtain ⟨m, member, inner⟩ := mem_trees.mp node
          have deeper := mem_tree_trans (mem_tree_of_dependency dependency (self_mem_tree d)) inner
          exact ih d dependency (mem_trees.mpr ⟨m, member, deeper⟩) gathered x inside
        · obtain ⟨z, node', same, deps⟩ := covers.nodes _ among
          exact .inr ⟨y, node, z, node', same.symm, deps, d, dependency, gathered, inside⟩

def Single (m : Module) : Prop := ∀ y ∈ m.tree, ∀ z ∈ m.tree, y.location = z.location → y = z

theorem sizeOf_le_of_mem_tree (node : x ∈ m.tree) : sizeOf x ≤ sizeOf m := by
  induction m using induction with
  | node m ih =>
      rcases mem_tree.mp node with rfl | ⟨d, dependency, inside⟩
      · exact Nat.le_refl _
      · have smaller := sizeOf_lt_of_mem_dependencies dependency
        have inner := ih d dependency inside
        omega

theorem not_mem_trees_dependencies (m : Module) : m ∉ trees m.dependencies := by
  intro node
  obtain ⟨d, dependency, inside⟩ := mem_trees.mp node
  have smaller := sizeOf_lt_of_mem_dependencies dependency
  have inner := sizeOf_le_of_mem_tree inside
  omega

theorem Single.mem_of_covers (single : m.Single) (covers : Covers [m] locations) :
    ∀ x ∈ m.tree, x.location ∈ locations := by
  intro x node
  have missed := covers.missed x
  simp only [trees_singleton, Misses] at missed
  rcases missed node with among | ⟨y, node', z, node'', same, deps, d, dependency, apart, -⟩
  · exact among
  · obtain rfl := single y node' z node'' same
    exact absurd (deps d dependency) apart

theorem Single.location_not_mem (single : m.Single) (covers : Covers m.dependencies locations) :
    m.location ∉ locations := by
  intro member
  obtain ⟨x, node, here, -⟩ := covers.nodes _ member
  obtain rfl := single x (mem_trees_of_dependencies node) m (self_mem_tree m) here
  exact not_mem_trees_dependencies x node

end Module

namespace ModuleCache

theorem entry?_foldl_erase (locations : List Location) (c : ModuleCache) (place : Location) :
    ModuleCache.entry? (locations.foldl erase c) place =
      if place ∈ locations then none else c.entry? place := by
  induction locations generalizing c with
  | nil => rfl
  | cons location locations ih =>
      rw [List.foldl_cons, ih, entry?_erase]
      by_cases same : place = location <;> simp [same]

end ModuleCache

namespace Loader

variable {fs : File.FileSystem} {path : File.Path} {l : Loader} {place : Location} {e : CacheEntry}

theorem invalidate_of_absent
    (absent : ∀ place, cacheKey? fs path = some place → l.cache.entry? place = none) :
    l.invalidate fs path = (false, l) := by
  unfold invalidate
  split
  · rfl
  · rename_i place leads
    simp [ModuleCache.get?, absent place leads]

theorem invalidate_of_entry (leads : cacheKey? fs path = some place)
    (entry : l.cache.entry? place = some e) :
    l.invalidate fs path =
      (decide (place ∉ e.module.dependencyLocations []),
        { l with
          cache := ((e.module.dependencyLocations []).foldl .erase l.cache).erase place }) := by
  simp only [invalidate, leads, ModuleCache.get?, entry, Option.map_some, ModuleCache.contains,
    ModuleCache.entry?_foldl_erase]
  by_cases gathered : place ∈ e.module.dependencyLocations [] <;> simp [gathered]

theorem entry?_invalidate (leads : cacheKey? fs path = some place)
    (entry : l.cache.entry? place = some e) (other : Location) :
    (l.invalidate fs path).2.cache.entry? other =
      if other ∈ place :: e.module.dependencyLocations [] then none else l.cache.entry? other := by
  rw [invalidate_of_entry leads entry, ModuleCache.entry?_erase, ModuleCache.entry?_foldl_erase]
  by_cases same : other = place <;> simp [same]

end Loader

end RuleLint
