import RuleLint.Proofs.Rule.Gradual
import RuleLint.Proofs.Rule.Lookup

namespace RuleLint.Rule

variable {d : Declaring} {tools tools' : Toolchain}

theorem Declaring.Alike.refl (tools : Toolchain) (d : Declaring) : d.Alike tools d :=
  ⟨fun _ => rfl, fun _ => rfl, fun _ => rfl, fun _ _ _ => rfl⟩

theorem signature?_of_get? {name : String}
    (same : d.type.method? name = none → tools.get? name = tools'.get? name) :
    signature? d tools name = signature? d tools' name := by
  rw [signature?, signature?]
  cases method : d.type.method? name with
  | some m => rfl
  | none => simp only [same method]

theorem Expr.calls_eq_nil_of_path? {e : Expr} {path : List String} (named : e.path? = some path) :
    e.calls = [] := by
  induction e using Expr.path?.induct generalizing path with
  | case1 name column => rfl
  | case2 target name ih =>
      rw [path?] at named
      obtain ⟨before, named, -⟩ := Option.bind_eq_some_iff.mp named
      exact ih named
  | case3 e other other' =>
      rw [path?] at named
      · cases named
      · exact other
      · exact other'

theorem Expr.calls_eq_nil_of_staticType? {e : Expr} {type : Image.TypeDef}
    (static : staticType? d e = some type) : e.calls = [] := by
  obtain ⟨path, named, -⟩ := Option.bind_eq_some_iff.mp static
  exact calls_eq_nil_of_path? named

mutual

theorem known_of_infer :
    ∀ (e : Expr) {ty : Ty}, infer d tools e = .ok ty →
      ∀ name ∈ e.calls, signature? d tools name ≠ none
  | .literal _ _, _, _ => nofun
  | .ident _ _, _, _ => nofun
  | .member target name, ty, ok => by
      rw [infer] at ok
      cases static : staticType? d target with
      | some type =>
          -- A path that names a type is made of names and calls nothing.
          rw [Expr.calls, Expr.calls_eq_nil_of_staticType? static]
          nofun
      | none =>
          rw [static] at ok
          obtain ⟨owner, inferred, -⟩ := bind_eq_ok ok
          exact known_of_infer target inferred
  | .call name args column, ty, ok => by
      rw [infer] at ok
      cases known : signature? d tools name with
      | none =>
          rw [known] at ok
          cases ok
      | some signature =>
          rw [known] at ok
          dsimp only at ok
          split at ok
          · rename_i fits
            obtain ⟨⟨⟩, passed, -⟩ := bind_eq_ok ok
            rw [Expr.calls, List.forall_mem_cons, known]
            exact ⟨nofun, known_of_checkArgs args fits passed⟩
          · cases ok
  | .unary op operand column, ty, ok => by
      rw [infer] at ok
      obtain ⟨inner, inferred, -⟩ := bind_eq_ok ok
      exact known_of_infer operand inferred
  | .binary op left right, ty, ok => by
      rw [infer] at ok
      obtain ⟨l, inferredLeft, ok⟩ := bind_eq_ok ok
      obtain ⟨r, inferredRight, -⟩ := bind_eq_ok ok
      rw [Expr.calls, List.forall_mem_append]
      exact ⟨known_of_infer left inferredLeft, known_of_infer right inferredRight⟩

theorem known_of_checkArgs {called : String} {index : Nat} {params : List Ty} :
    ∀ args : List Expr, args.length = params.length →
      checkArgs d tools called index params args = .ok () →
      ∀ name ∈ Expr.argumentCalls args, signature? d tools name ≠ none
  | [], _, _ => nofun
  | arg :: args, fits, ok => by
      cases params with
      | nil => cases fits
      | cons expected params =>
          rw [checkArgs] at ok
          obtain ⟨actual, inferred, accepted⟩ := bind_eq_ok ok
          split at accepted
          · rw [Expr.argumentCalls, List.forall_mem_append]
            exact ⟨known_of_infer arg inferred,
              known_of_checkArgs args (Nat.succ.inj fits) accepted⟩
          · cases accepted

end

theorem infer_check_of_get? {e : Expr}
    (same : ∀ name ∈ e.calls, d.type.method? name = none → tools.get? name = tools'.get? name) :
    infer d tools e = infer d tools' e ∧ check d tools e = check d tools' e := by
  have called : ∀ name ∈ e.calls, signature? d tools name = signature? d tools' name :=
    fun name inside => signature?_of_get? (same name inside)
  exact ⟨infer_eq (.refl tools d) e called, check_eq (.refl tools d) called⟩

theorem infer_check_register {e : Expr} {f : Function}
    (unread : f.name ∈ e.calls → d.type.method? f.name ≠ none) :
    infer d (tools.register f) e = infer d tools e ∧
      check d (tools.register f) e = check d tools e := by
  refine infer_check_of_get? fun name inside functional => ?_
  rw [Toolchain.get?_register, if_neg]
  rintro rfl
  exact unread inside functional

theorem infer_check_register_of_infer {e : Expr} {f : Function} {ty : Ty}
    (new : tools.get? f.name = none) (ok : infer d tools e = .ok ty) :
    infer d (tools.register f) e = infer d tools e ∧
      check d (tools.register f) e = check d tools e := by
  refine infer_check_register fun inside functional => ?_
  refine known_of_infer e ok f.name inside ?_
  rw [signature?, functional, new]
  rfl

/-- Toolchains with the same functions under the names that an expression calls, those of methods
left out, give it the same type and the same faults. So it makes no difference to register a
function that the expression does not call or that a method hides, and none to a right expression to
register one under a new name. -/
theorem infer_of_calls (d : Declaring) (e : Expr) :
    (∀ tools tools' : Toolchain,
      (∀ name ∈ e.calls, d.type.method? name = none → tools.get? name = tools'.get? name) →
      infer d tools e = infer d tools' e ∧ check d tools e = check d tools' e) ∧
    (∀ (tools : Toolchain) (f : Function), (d.type.method? f.name ≠ none ∨ f.name ∉ e.calls) →
      infer d (tools.register f) e = infer d tools e ∧
        check d (tools.register f) e = check d tools e) ∧
    ∀ (tools : Toolchain) (f : Function), tools.get? f.name = none →
      (∀ ty, infer d tools e = .ok ty → infer d (tools.register f) e = .ok ty) ∧
        (check d tools e = .ok () → check d (tools.register f) e = .ok ()) := by
  refine ⟨fun tools tools' => infer_check_of_get?, fun tools f unread => ?_,
    fun tools f new => ⟨fun ty ok => ?_, fun ok => ?_⟩⟩
  · refine infer_check_register fun inside => ?_
    rcases unread with hidden | uncalled
    · exact hidden
    · exact absurd inside uncalled
  · rw [(infer_check_register_of_infer new ok).1, ok]
  · obtain ⟨ty, inferred, -⟩ := bind_eq_ok ok
    rw [(infer_check_register_of_infer new inferred).2, ok]

namespace Billing

def clock : Toolchain := Toolchain.empty.register ⟨"Now", [], .date⟩

theorem clock_suffices :
    ∀ name ∈ settled.calls, (declaring "decimal").type.method? name = none →
      Toolchain.builtin.get? name = clock.get? name := by
  change ∀ name ∈ ["covers", "Now"], _
  rw [List.forall_mem_cons, List.forall_mem_singleton]
  exact ⟨nofun, fun _ => rfl⟩

theorem settled_by_clock :
    Toolchain.builtin.get? "Length" ≠ clock.get? "Length" ∧
    (infer (declaring "decimal") clock settled = .ok .bool ∧
      check (declaring "decimal") clock settled = .ok ()) ∧
    check (declaring "decimal") (clock.register ⟨"covers", [], .date⟩) settled = .ok () ∧
    check (declaring "decimal") (clock.register ⟨"Length", [.string], .number⟩) settled =
      .ok () := by
  obtain ⟨same, unread, new⟩ := infer_of_calls (declaring "decimal") settled
  obtain ⟨inferred, checked⟩ := same .builtin clock clock_suffices
  rw [infer_settled] at inferred
  rw [check_settled] at checked
  refine ⟨nofun, ⟨inferred.symm, checked.symm⟩, ?_, ?_⟩
  · rw [(unread clock ⟨"covers", [], .date⟩ (.inl nofun)).2, checked]
  · exact (new clock ⟨"Length", [.string], .number⟩ rfl).2 checked.symm

end Billing

end RuleLint.Rule
