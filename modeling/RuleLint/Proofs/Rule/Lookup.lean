import RuleLint.Proofs.Module.Trees
import RuleLint.Rule.Compilation

namespace RuleLint.Rule

open Image (TypeDef)

structure Declaring.Agree (d d' : Declaring) : Prop where
  type : d.type = d'.type
  lookup : d.lookupType? = d'.lookupType?

variable {d d' : Declaring} {tools : Toolchain}

/-- Rules on the two types resolve every symbol alike. -/
structure Declaring.Alike (tools : Toolchain) (d d' : Declaring) : Prop where
  ident : ∀ name, identType d name = identType d' name
  signature : ∀ name, signature? d tools name = signature? d' tools name
  selects : ∀ e, (staticType? d e).map typeMemberType = (staticType? d' e).map typeMemberType
  values : ∀ written ty name, valueMemberType d written ty name = valueMemberType d' written ty name

section

variable (agree : d.Agree d')

include agree

theorem member?_eq : d.member? = d'.member? := by
  funext name
  rw [Declaring.member?, Declaring.member?, agree.type]

theorem ofDeclared_eq : Ty.ofDeclared d = Ty.ofDeclared d' := by
  funext name
  rw [Ty.ofDeclared, Ty.ofDeclared, agree.lookup]

theorem Declaring.Agree.alike (tools : Toolchain) : d.Alike tools d' where
  ident name := by
    rw [identType, identType, member?_eq agree, agree.lookup, ofDeclared_eq agree]
  signature name := by
    rw [signature?, signature?, agree.type, ofDeclared_eq agree]
  selects e := by
    rw [staticType?, staticType?, member?_eq agree, agree.lookup]
  values written ty name := by
    cases ty <;> simp only [valueMemberType, agree.lookup, ofDeclared_eq agree]

end

mutual

def Expr.calls : Expr → List String
  | .literal _ _ | .ident _ _ => []
  | .member target _ => target.calls
  | .call name args _ => name :: Expr.argumentCalls args
  | .unary _ operand _ => operand.calls
  | .binary _ left right => left.calls ++ right.calls

def Expr.argumentCalls : List Expr → List String
  | [] => []
  | arg :: args => arg.calls ++ Expr.argumentCalls args

end

mutual

theorem infer_eq {tools' : Toolchain} (alike : d.Alike tools d') :
    ∀ e : Expr, (∀ name ∈ e.calls, signature? d' tools name = signature? d' tools' name) →
      infer d tools e = infer d' tools' e
  | .literal value column, _ => by rw [infer, infer]
  | .ident name column, _ => by rw [infer, infer, alike.ident]
  | .member target name, called => by
      have same := alike.selects target
      rw [infer, infer]
      cases selected : staticType? d target with
      | some type =>
          obtain ⟨type', selected', equal⟩ := Option.map_eq_some_iff.mp
            (same.symm.trans (by rw [selected, Option.map_some]))
          simp only [selected', equal]
      | none =>
          have selected' := Option.map_eq_none_iff.mp
            (same.symm.trans (by rw [selected, Option.map_none]))
          simp only [selected', infer_eq alike target called, alike.values]
  | .call name args column, called => by
      rw [Expr.calls, List.forall_mem_cons] at called
      rw [infer, infer, alike.signature, called.1]
      split
      · rfl
      · rw [checkArgs_eq alike name 1 _ args called.2]
  | .unary op operand column, called => by
      rw [infer, infer, infer_eq alike operand called]
  | .binary op left right, called => by
      rw [Expr.calls, List.forall_mem_append] at called
      rw [infer, infer, infer_eq alike left called.1, infer_eq alike right called.2]

theorem checkArgs_eq {tools' : Toolchain} (alike : d.Alike tools d') (name : String) (index : Nat)
    (params : List Ty) :
    ∀ args : List Expr,
      (∀ name ∈ Expr.argumentCalls args, signature? d' tools name = signature? d' tools' name) →
      checkArgs d tools name index params args = checkArgs d' tools' name index params args
  | [], _ => by
      cases params <;> rw [checkArgs, checkArgs] <;> simp
  | arg :: args, called => by
      rw [Expr.argumentCalls, List.forall_mem_append] at called
      cases params with
      | nil => rw [checkArgs, checkArgs] <;> simp
      | cons expected params =>
          rw [checkArgs, checkArgs, infer_eq alike arg called.1]
          simp only [checkArgs_eq alike name (index + 1) params args called.2]

end

theorem check_eq {tools' : Toolchain} (alike : d.Alike tools d') {e : Expr}
    (called : ∀ name ∈ e.calls, signature? d' tools name = signature? d' tools' name) :
    check d tools e = check d' tools' e := by
  rw [check, check, infer_eq alike e called]

theorem compile_eq (alike : d.Alike tools d') (expression : String) :
    compile d tools expression = compile d' tools expression := by
  simp only [compile, check_eq alike fun _ _ => rfl]

variable {m m' : Module}

theorem Declaring.agree_of_images
    (same : m.tree.map (·.image) = m'.tree.map (·.image)) (type : TypeDef) :
    Declaring.Agree ⟨m, type⟩ ⟨m', type⟩ where
  type := rfl
  lookup := by
    funext name
    simp only [Declaring.lookupType?, Module.findType?_eq, same]

theorem compileCandidate_eq_of_images (same : m.tree.map (·.image) = m'.tree.map (·.image))
    (c : Candidate) :
    compileCandidate (expressive tools) m c = compileCandidate (expressive tools) m' c := by
  have alike := (Declaring.agree_of_images same c.type).alike tools
  simp only [compileCandidate, expressive, Expressive.bind]
  cases RuleKind.ofName? c.annotation.name with
  | none => rfl
  | some kind => simp only [Option.map_some, Expressive.compileAnnotation, compile_eq alike]

theorem compileModule_eq_of_images (same : m.tree.map (·.image) = m'.tree.map (·.image)) :
    compileModule (expressive tools) m = compileModule (expressive tools) m' := by
  have heads : m.image = m'.image := by
    rw [Module.tree_eq, Module.tree_eq m', List.map_cons, List.map_cons] at same
    exact (List.cons.inj same).1
  have candidates : compileCandidate (expressive tools) m = compileCandidate (expressive tools) m' :=
    funext (compileCandidate_eq_of_images same)
  rw [compileModule, compileModule, heads, candidates]

end RuleLint.Rule
