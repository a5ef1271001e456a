import RuleLint.Proofs.Rule.Declared
import RuleLint.Proofs.Rule.Retyping

/-!
# Forgetting declared types

Where a module declares a type that nobody describes, its checks are skipped. So a rule that is right
stays right when declared types are replaced by such ones (`gradual_guarantee`): it has the type that
it had, or none that is known.
-/

namespace RuleLint.Rule

inductive Ty.Blurs : Ty → Ty → Prop
  | same (ty : Ty) : Blurs ty ty
  | lost (ty : Ty) : Blurs ty .unknown

/-- The second declares the same as the first, but for types that it does not tell. -/
def Declaring.Blurs (d : Declaring) : Declaring → Prop :=
  d.Retyped fun name name' => name' = name ∨ Ty.ofDeclared d name' = .unknown

variable {d d' : Declaring} {tools : Toolchain} {ty ty' left left' right right' result : Ty}

/-! ## Operators -/

namespace Ty

theorem Blurs.isBoolish (blurs : ty.Blurs ty') (boolish : ty.isBoolish = true) :
    ty'.isBoolish = true := by
  cases blurs with
  | same => exact boolish
  | lost => rfl

theorem accepts_unknown_left (ty : Ty) : unknown.accepts ty = true := by simp [accepts]

theorem accepts_unknown_right (ty : Ty) : ty.accepts unknown = true := by simp [accepts]

theorem ordersWith_unknown_right (ty : Ty) : ty.ordersWith unknown = true := by
  cases ty <;> rfl

theorem Blurs.accepts (blurs : left.Blurs left') (blurs' : right.Blurs right')
    (accepts : left.accepts right = true) : left'.accepts right' = true := by
  cases blurs with
  | lost => exact accepts_unknown_left _
  | same =>
      cases blurs' with
      | lost => exact accepts_unknown_right _
      | same => exact accepts

theorem Blurs.ordersWith (blurs : left.Blurs left') (blurs' : right.Blurs right')
    (orders : left.ordersWith right = true) : left'.ordersWith right' = true := by
  cases blurs with
  | lost => rfl
  | same =>
      cases blurs' with
      | lost => exact ordersWith_unknown_right _
      | same => exact orders

/-- A table of operand types in which a lost operand loses the result, and nothing else. -/
structure Tolerant (table : Ty → Ty → Option Ty) : Prop where
  left : ∀ {l r t}, table l r = some t → table unknown r = some unknown
  right : ∀ {l r t}, table l r = some t → table l unknown = some unknown

theorem tolerant_sum? : Tolerant sum? where
  left _ := rfl
  right {l _ _} _ := by cases l <;> rfl

theorem tolerant_difference? : Tolerant difference? where
  left _ := rfl
  right {l _ _} _ := by cases l <;> rfl

theorem tolerant_product? : Tolerant product? where
  left {l r t} some := by
    cases r with
    | number | unknown => rfl
    | _ => cases l <;> cases some
  right {l r t} some := by
    cases l with
    | number | unknown => rfl
    | _ => cases r <;> cases some

theorem Tolerant.blurs {table : Ty → Ty → Option Ty} (tolerant : Tolerant table)
    (blurs : left.Blurs left') (blurs' : right.Blurs right')
    (some : table left right = some result) :
    ∃ result', table left' right' = .some result' ∧ result.Blurs result' := by
  cases blurs with
  | same =>
      cases blurs' with
      | same => exact ⟨result, some, .same result⟩
      | lost => exact ⟨unknown, tolerant.right some, .lost result⟩
  | lost =>
      cases blurs' with
      | same => exact ⟨unknown, tolerant.left some, .lost result⟩
      | lost => exact ⟨unknown, tolerant.right (tolerant.left some), .lost result⟩

end Ty

theorem condition_blurs {holds holds' : Bool} (kept : holds = true → holds' = true)
    (some : (if holds then some Ty.bool else none) = some result) :
    ∃ result', (if holds' then .some Ty.bool else none) = .some result' ∧ result.Blurs result' := by
  cases holds with
  | false => cases some
  | true =>
      cases some
      exact ⟨.bool, by rw [kept rfl, if_pos rfl], .same .bool⟩

theorem UnaryOp.result?_blurs {op : UnaryOp} (blurs : ty.Blurs ty')
    (some : op.result? ty = some result) :
    ∃ result', op.result? ty' = .some result' ∧ result.Blurs result' := by
  cases op with
  | not => exact condition_blurs blurs.isBoolish some
  | neg =>
      cases blurs with
      | same => exact ⟨result, some, .same result⟩
      | lost => exact ⟨.unknown, rfl, .lost result⟩

theorem BinOp.result?_blurs {op : BinOp} (blurs : left.Blurs left') (blurs' : right.Blurs right')
    (some : op.result? left right = some result) :
    ∃ result', op.result? left' right' = .some result' ∧ result.Blurs result' := by
  cases op with
  | or | and =>
      refine condition_blurs (fun both => ?_) some
      rw [Bool.and_eq_true] at both ⊢
      exact ⟨blurs.isBoolish both.1, blurs'.isBoolish both.2⟩
  | eq | ne => exact condition_blurs (blurs.accepts blurs') some
  | lt | le | gt | ge => exact condition_blurs (blurs.ordersWith blurs') some
  | add => exact Ty.tolerant_sum?.blurs blurs blurs' some
  | sub => exact Ty.tolerant_difference?.blurs blurs blurs' some
  | mul | div | mod => exact Ty.tolerant_product?.blurs blurs blurs' some

/-! ## Names -/

section

variable (blurs : d.Blurs d')

include blurs

theorem Declaring.Blurs.ofDeclared {name name' : String}
    (told : name' = name ∨ Ty.ofDeclared d name' = .unknown) :
    (Ty.ofDeclared d name).Blurs (Ty.ofDeclared d' name') := by
  rw [blurs.ofDeclared_eq]
  rcases told with rfl | lost
  · exact .same _
  · rw [lost]
    exact .lost _

theorem identType_blurs {name : String} (found : identType d name = .ok ty) :
    ∃ ty', identType d' name = .ok ty' ∧ ty.Blurs ty' := by
  rw [identType] at found ⊢
  rcases blurs.member?_cases name with
    ⟨absent, -⟩ | ⟨f, f', member, member', same⟩ | ⟨m, m', member, -⟩
  · rw [absent] at found
    dsimp only at found
    split at found <;> cases found
  · rw [member] at found
    rw [member']
    cases found
    exact ⟨_, rfl, blurs.ofDeclared same.ty⟩
  · rw [member] at found
    cases found

theorem valueMemberType_blurs {written : Option String} {name : String} (told : ty.Blurs ty')
    (found : valueMemberType d written ty name = .ok result) :
    ∃ result', valueMemberType d' written ty' name = .ok result' ∧ result.Blurs result' := by
  cases told with
  | lost => exact ⟨.unknown, rfl, .lost result⟩
  | same =>
      cases ty with
      | object owner =>
          simp only [valueMemberType] at found ⊢
          rcases rel_cases (blurs.lookupType? owner) with
            ⟨absent, absent'⟩ | ⟨type, type', known, known', same⟩
          · rw [absent] at found
            cases found
          · rw [known] at found
            rw [known']
            simp only [Option.bind_eq_bind, Option.bind_some] at found ⊢
            rcases rel_cases (same.field? name) with ⟨absent, -⟩ | ⟨f, f', here, here', alike⟩
            · rw [absent] at found
              cases found
            · rw [here] at found
              rw [here']
              cases found
              exact ⟨_, rfl, blurs.ofDeclared alike.ty⟩
      | enumeration owner =>
          refine ⟨result, ?_, .same result⟩
          rw [← found]
          simp only [valueMemberType]
          rcases rel_cases (blurs.lookupType? owner) with
            ⟨absent, absent'⟩ | ⟨type, type', known, known', same⟩
          · rw [absent, absent']
          · simp only [known, known', same.hasVariant]
      | _ => exact ⟨result, found, .same result⟩

theorem signature?_blurs (name : String) :
    Option.Rel (fun s s' : List Ty × Ty => List.Forall₂ Ty.Blurs s.1 s'.1 ∧ s.2.Blurs s'.2)
      (signature? d tools name) (signature? d' tools name) := by
  rw [signature?, signature?]
  rcases rel_cases (blurs.type.method? name) with ⟨absent, absent'⟩ | ⟨m, m', here, here', same⟩
  · rw [absent, absent']
    cases tools.get? name with
    | none => exact .none
    | some f => exact .some ⟨List.forall₂_same.mpr fun ty _ => .same ty, .same f.returns⟩
  · rw [here, here']
    refine .some ⟨?_, blurs.ofDeclared same.returns⟩
    rw [List.forall₂_map_left_iff, List.forall₂_map_right_iff]
    exact same.params.imp fun _ _ told => blurs.ofDeclared told

end

/-! ## Expressions -/

theorem bind_eq_ok {ε α β : Type} {x : Except ε α} {f : α → Except ε β} {b : β}
    (ok : x >>= f = .ok b) : ∃ a, x = .ok a ∧ f a = .ok b := by
  cases x with
  | error _ => cases ok
  | ok a => exact ⟨a, rfl, ok⟩

theorem faultAt_eq_ok {α : Type} {column : Nat} {x : Except Fault α} {a : α} :
    faultAt column x = .ok a ↔ x = .ok a := by
  cases x <;> simp [faultAt]

mutual

theorem infer_blurs (blurs : d.Blurs d') :
    ∀ (e : Expr) {ty : Ty}, infer d tools e = .ok ty →
      ∃ ty', infer d' tools e = .ok ty' ∧ ty.Blurs ty'
  | .literal value column, ty, ok => ⟨ty, ok, .same ty⟩
  | .ident name column, ty, ok => by
      rw [infer, faultAt_eq_ok] at ok
      obtain ⟨ty', ok', told⟩ := identType_blurs blurs ok
      exact ⟨ty', by rw [infer, ok', faultAt], told⟩
  | .member target name, ty, ok => by
      rw [infer] at ok ⊢
      -- The path names the same type in both, or it is a value in both.
      rcases rel_cases (blurs.staticType? target) with
        ⟨value, value'⟩ | ⟨type, type', static, static', same⟩
      · rw [value] at ok
        rw [value']
        obtain ⟨owner, inferred, selected⟩ := bind_eq_ok ok
        obtain ⟨owner', inferred', told⟩ := infer_blurs blurs target inferred
        obtain ⟨ty', selected', told'⟩ :=
          valueMemberType_blurs blurs told (faultAt_eq_ok.mp selected)
        refine ⟨ty', ?_, told'⟩
        simp only [inferred', selected', faultAt, bind, Except.bind]
      · rw [static] at ok
        rw [static']
        dsimp only at ok ⊢
        rw [typeMemberType_eq same]
        exact ⟨ty, ok, .same ty⟩
  | .call name args column, ty, ok => by
      rw [infer] at ok ⊢
      rcases rel_cases (signature?_blurs blurs name) with
        ⟨absent, -⟩ | ⟨⟨params, returns⟩, ⟨params', returns'⟩, known, known', told, told'⟩
      · rw [absent] at ok
        cases ok
      · rw [known] at ok
        rw [known']
        dsimp only at ok ⊢
        rw [← told.length_eq]
        split at ok
        · rename_i fits
          obtain ⟨⟨⟩, passed, same⟩ := bind_eq_ok ok
          cases same
          refine ⟨returns', ?_, told'⟩
          rw [if_pos fits, checkArgs_blurs blurs args told passed]
          rfl
        · cases ok
  | .unary op operand column, ty, ok => by
      rw [infer] at ok ⊢
      obtain ⟨inner, inferred, applied⟩ := bind_eq_ok ok
      obtain ⟨inner', inferred', told⟩ := infer_blurs blurs operand inferred
      split at applied
      · rename_i result some
        cases applied
        obtain ⟨ty', some', told'⟩ := UnaryOp.result?_blurs told some
        exact ⟨ty', by simp only [inferred', some', bind, Except.bind, pure, Except.pure], told'⟩
      · cases applied
  | .binary op left right, ty, ok => by
      rw [infer] at ok ⊢
      obtain ⟨l, inferredLeft, ok⟩ := bind_eq_ok ok
      obtain ⟨r, inferredRight, applied⟩ := bind_eq_ok ok
      obtain ⟨l', inferredLeft', toldLeft⟩ := infer_blurs blurs left inferredLeft
      obtain ⟨r', inferredRight', toldRight⟩ := infer_blurs blurs right inferredRight
      split at applied
      · rename_i result some
        cases applied
        obtain ⟨ty', some', told⟩ := BinOp.result?_blurs toldLeft toldRight some
        refine ⟨ty', ?_, told⟩
        simp only [inferredLeft', inferredRight', some', bind, Except.bind, pure, Except.pure]
      · cases applied

theorem checkArgs_blurs (blurs : d.Blurs d') {name : String} {index : Nat}
    {params params' : List Ty} :
    ∀ args : List Expr, List.Forall₂ Ty.Blurs params params' →
      checkArgs d tools name index params args = .ok () →
      checkArgs d' tools name index params' args = .ok ()
  | [], told, _ => by
      cases told <;> rw [checkArgs] <;> simp
  | arg :: args, told, ok => by
      cases told with
      | nil =>
          rw [checkArgs]
          simp
      | cons first rest =>
          rw [checkArgs] at ok ⊢
          obtain ⟨actual, inferred, accepted⟩ := bind_eq_ok ok
          obtain ⟨actual', inferred', told⟩ := infer_blurs blurs arg inferred
          split at accepted
          · rename_i accepts
            simp only [inferred', bind, Except.bind, first.accepts told accepts, if_true]
            exact checkArgs_blurs blurs args rest accepted
          · cases accepted

end

/-- A rule that is right stays right when declared types are forgotten, and where the type of an
expression changes it is lost. -/
theorem gradual_guarantee (blurs : d.Blurs d') (tools : Toolchain) (e : Expr) :
    (∀ ty, infer d tools e = .ok ty →
      ∃ ty', infer d' tools e = .ok ty' ∧ (ty' = ty ∨ ty' = .unknown)) ∧
    (check d tools e = .ok () → check d' tools e = .ok ()) := by
  constructor
  · intro ty ok
    obtain ⟨ty', ok', told⟩ := infer_blurs blurs e ok
    cases told with
    | same => exact ⟨ty, ok', .inl rfl⟩
    | lost => exact ⟨.unknown, ok', .inr rfl⟩
  · intro ok
    rw [check] at ok ⊢
    obtain ⟨ty, inferred, condition⟩ := bind_eq_ok ok
    obtain ⟨ty', inferred', told⟩ := infer_blurs blurs e inferred
    split at condition
    · rename_i boolish
      simp only [inferred', bind, Except.bind, told.isBoolish boolish, if_true]
      rfl
    · cases condition

namespace Billing

def invoice (amount : String) : Image.TypeDef where
  name := "Invoice"
  qualifier := none
  kind := .object
  fields := [⟨"total", amount, []⟩, ⟨"due", "date", []⟩]
  methods := [⟨"covers", [⟨"paid", amount⟩], "bool"⟩]
  variants := []

def declaring (amount : String) : Declaring where
  module := ⟨["Billing.rmod"], .ofBytes [], ⟨"Billing", none, [], [invoice amount]⟩, [], [], 1⟩
  type := invoice amount

def settled : Expr :=
  .binary .and (.call "covers" [.binary .add (.ident "total" 8) (.ident "total" 16)] 1)
    (.binary .lt (.ident "due" 26) (.call "Now" [] 32))

theorem ofDeclared_decimal (d : Declaring) : Ty.ofDeclared d "decimal" = .number :=
  Ty.ofDeclared_of_builtin (by decide) (by rw [Ty.builtin?_map]; rfl)

theorem ofDeclared_date (d : Declaring) : Ty.ofDeclared d "date" = .date :=
  Ty.ofDeclared_of_builtin (by decide) (by rw [Ty.builtin?_map]; rfl)

theorem ofDeclared_bool (d : Declaring) : Ty.ofDeclared d "bool" = .bool :=
  Ty.ofDeclared_of_builtin (by decide) (by rw [Ty.builtin?_map]; rfl)

theorem ofDeclared_money (amount : String) :
    Ty.ofDeclared (declaring amount) "Money" = .unknown :=
  Ty.ofDeclared_of_absent (by decide) (by rw [Ty.builtin?_map]; rfl) rfl

theorem blurs : (declaring "decimal").Blurs (declaring "Money") := by
  have same (name : String) : name = name ∨ Ty.ofDeclared (declaring "decimal") name = .unknown :=
    .inl rfl
  have money : "Money" = "decimal" ∨ Ty.ofDeclared (declaring "decimal") "Money" = .unknown :=
    .inr (ofDeclared_money _)
  have type : (invoice "decimal").Retyped
      (fun name name' => name' = name ∨ Ty.ofDeclared (declaring "decimal") name' = .unknown)
      (invoice "Money") :=
    { name := rfl
      qualifier := rfl
      kind := rfl
      variants := rfl
      fields := .cons ⟨rfl, money⟩ (.cons ⟨rfl, same _⟩ .nil)
      methods := .cons ⟨rfl, .cons money .nil, same _⟩ .nil }
  exact ⟨.node (.cons type .nil) .nil, type⟩

theorem infer_settled : infer (declaring "decimal") .builtin settled = .ok .bool := by
  have total : identType (declaring "decimal") "total" = .ok .number :=
    congrArg _ (ofDeclared_decimal _)
  have due : identType (declaring "decimal") "due" = .ok .date := congrArg _ (ofDeclared_date _)
  have covers : signature? (declaring "decimal") .builtin "covers" = some ([.number], .bool) := by
    rw [← ofDeclared_decimal (declaring "decimal"), ← ofDeclared_bool (declaring "decimal")]
    rfl
  have now : signature? (declaring "decimal") .builtin "Now" = some ([], .date) := rfl
  simp [settled, infer, checkArgs, total, due, covers, now, faultAt, BinOp.result?, Ty.sum?,
    Ty.ordersWith, Ty.accepts, Ty.isBoolish, bind, Except.bind, pure, Except.pure]

theorem check_settled : check (declaring "decimal") .builtin settled = .ok () := by
  rw [check, infer_settled]
  rfl

theorem settled_without_amounts :
    (declaring "decimal").Blurs (declaring "Money") ∧
      infer (declaring "decimal") .builtin settled = .ok .bool ∧
      (∃ ty, infer (declaring "Money") .builtin settled = .ok ty ∧ (ty = .bool ∨ ty = .unknown)) ∧
      check (declaring "Money") .builtin settled = .ok () :=
  have kept := gradual_guarantee blurs .builtin settled
  ⟨blurs, infer_settled, kept.1 .bool infer_settled, kept.2 check_settled⟩

end Billing

end RuleLint.Rule
