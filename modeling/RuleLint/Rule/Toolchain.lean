import RuleLint.Rule.Ty

namespace RuleLint.Rule

structure Function where
  name : String
  params : List Ty
  returns : Ty
deriving DecidableEq, Repr

structure Toolchain where
  functions : List Function
  distinct : (functions.map Function.name).Nodup
deriving DecidableEq, Repr

namespace Toolchain

def empty : Toolchain := ⟨[], List.nodup_nil⟩

def get? (tools : Toolchain) (name : String) : Option Function :=
  tools.functions.find? (·.name = name)

def register (tools : Toolchain) (f : Function) : Toolchain where
  functions := f :: tools.functions.filter (·.name ≠ f.name)
  distinct := by
    rw [List.map_cons, List.nodup_cons]
    refine ⟨?_, tools.distinct.sublist (List.filter_sublist.map _)⟩
    intro h
    obtain ⟨g, kept, same⟩ := List.mem_map.mp h
    exact absurd same (by simpa using (List.mem_filter.mp kept).2)

def size (tools : Toolchain) : Nat := tools.functions.length

def builtin : Toolchain :=
  [ ⟨"Now", [], .date⟩,
    ⟨"Today", [], .date⟩,
    ⟨"Length", [.string], .number⟩,
    ⟨"Trim", [.string], .string⟩,
    ⟨"Concat", [.string, .string], .string⟩,
    ⟨"CompareOrdinal", [.string, .string], .number⟩,
    ⟨"IsNullOrWhiteSpace", [.string], .bool⟩,
    ⟨"IsEmail", [.string], .bool⟩,
    ⟨"IsRegexMatch", [.string, .string], .bool⟩ ].foldl register empty

@[simp] theorem get?_empty (name : String) : empty.get? name = none := rfl

theorem get?_register (tools : Toolchain) (f : Function) (name : String) :
    (tools.register f).get? name = if f.name = name then some f else tools.get? name := by
  simp only [get?, register, List.find?_cons, List.find?_filter]
  by_cases same : f.name = name
  · simp [same]
  · simp only [same, decide_false, if_false]
    congr 1
    funext g
    by_cases h : g.name = name
    · simp [h, Ne.symm same]
    · simp [h]

end Toolchain

end RuleLint.Rule
