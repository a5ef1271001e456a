import RuleLint.Proofs.Rule.Reparsing

namespace RuleLint.Rule

open Image (TypeDef Field)

/-! ## Nullable types -/

theorem Ty.bareName_nullable {name : String} (plain : IsPlain name) :
    bareName (name ++ "?") = name := by
  have tight := Text.hasBlankEnd_of_forall fun c member => (plain c member).1
  rw [bareName_marked, if_neg (by simp [tight]), bareName_of_plain plain]

theorem Ty.ofDeclared_nullable {name : String} (d : Declaring) (plain : IsPlain name) :
    ofDeclared d (name ++ "?") = ofDeclared d name := by
  simp only [ofDeclared, bareName_nullable plain, bareName_of_plain plain]

theorem Ty.mem_of_builtin? {name : String} {ty : Ty} (builtin : builtin? name = some ty) :
    ty ∈ [bool, number, string, date, timespan] := by
  unfold builtin? at builtin
  split at builtin <;> cases builtin <;> decide

/-! ## Paths -/

def Expr.selected (e : Expr) : List String → Expr
  | [] => e
  | name :: names => (Expr.member e name).selected names

theorem Expr.tokens_selected {e : Expr} (tight : Expr.target ≤ e.binding) (names : List String) :
    (e.selected names).tokens = e.tokens ++ names.flatMap fun name => [.dot, .ident name] := by
  induction names generalizing e with
  | nil => simp [selected]
  | cons name names ih =>
      rw [selected, ih (Nat.le_refl _), Expr.tokens, parenthesized, if_neg (by simpa using tight)]
      simp

theorem Expr.levels_selected {e : Expr} (tight : Expr.target ≤ e.binding) (names : List String) :
    (e.selected names).levels ≤ max e.levels (e.points + names.length) := by
  induction names generalizing e with
  | nil => exact Nat.le_max_left _ _
  | cons name names ih =>
      refine le_trans (ih (e := .member e name) (Nat.le_refl _)) ?_
      rw [Expr.levels, deepened, if_neg (by simpa using tight), Expr.points, List.length_cons]
      omega

theorem Expr.selected_concat (e : Expr) (names : List String) (name : String) :
    e.selected (names ++ [name]) = .member (e.selected names) name := by
  induction names generalizing e with
  | nil => rfl
  | cons _ names ih => exact ih _

theorem Expr.path?_selected (e : Expr) (names : List String) :
    (e.selected names).path? = e.path?.map (· ++ names) := by
  induction names generalizing e with
  | nil => simp [selected]
  | cons name names ih =>
      rw [selected, ih, Expr.path?]
      cases e.path? <;> simp

theorem Expr.path?_bare (e : Expr) : e.bare.path? = e.path? := by
  match e with
  | .member target name => rw [Expr.bare, Expr.path?, Expr.path?, target.path?_bare]
  | .literal _ _ | .ident _ _ | .call _ _ _ | .unary _ _ _ | .binary _ _ _ => rfl

theorem Expr.path?_ne_nil {e : Expr} {names : List String} (path : e.path? = some names) :
    names ≠ [] := by
  cases e with
  | ident =>
      cases path
      exact List.cons_ne_nil _ _
  | member target name =>
      rw [Expr.path?] at path
      cases before : target.path? with
      | none =>
          rw [before] at path
          cases path
      | some front =>
          rw [before] at path
          cases path
          exact List.concat_ne_nil _ _
  | _ => cases path

theorem Expr.eq_ident_of_path? {e : Expr} {name : String} (path : e.path? = some [name]) :
    ∃ column, e = .ident name column := by
  cases e with
  | ident name' column =>
      cases path
      exact ⟨column, rfl⟩
  | member target name' =>
      rw [Expr.path?] at path
      cases before : target.path? with
      | none =>
          rw [before] at path
          cases path
      | some front =>
          have filled := Expr.path?_ne_nil before
          rw [before] at path
          have same : front ++ [name'] = [] ++ [name] := Option.some.inj path
          exact absurd (List.append_inj_left' same rfl) filled
  | _ => cases path

theorem intercalate_cons (first : List Char) (words : List (List Char)) :
    ['.'].intercalate (first :: words) = first ++ words.flatMap ('.' :: ·) := by
  induction words generalizing first with
  | nil => simp
  | cons word words ih =>
      rw [List.intercalate_cons_cons, ih, List.flatMap_cons, List.append_assoc]
      rfl

theorem writes_points {names : List String} (identifiers : ∀ name ∈ names, IsIdentifier name) :
    Writes (names.flatMap fun name => [.dot, .ident name])
      (names.flatMap fun name => '.' :: name.toList) := by
  induction names with
  | nil => exact .blanks nofun
  | cons name names ih =>
      rw [List.forall_mem_cons] at identifiers
      exact ((ih identifiers.2).cons identifiers.1.spells).cons (.mark .dot rfl)

theorem writes_path {first : String} {names : List String} (column : Nat)
    (identifier : IsIdentifier first) (identifiers : ∀ name ∈ names, IsIdentifier name) :
    Writes ((Expr.ident first column).selected names).tokens
      (".".intercalate (first :: names)).toList := by
  rw [Expr.tokens_selected (Nat.le_refl _), String.toList_intercalate, List.map_cons]
  change Writes _ (['.'].intercalate _)
  rw [intercalate_cons, List.flatMap_map]
  exact (writes_points identifiers).cons identifier.spells

/-! ## Comparisons -/

variable {d : Declaring} {tools : Toolchain}

theorem check_equality_iff {left right : Expr} :
    check d tools (.binary .eq left right) = .ok () ↔
      ∃ l r, infer d tools left = .ok l ∧ infer d tools right = .ok r ∧ l.accepts r = true := by
  rw [check, infer]
  cases infer d tools left with
  | error => simp [bind, Except.bind]
  | ok l =>
      cases infer d tools right with
      | error => simp [bind, Except.bind]
      | ok r => cases accepts : l.accepts r <;>
          simp [bind, Except.bind, pure, Except.pure, BinOp.result?, accepts, Ty.isBoolish]

/-- The field `f` is declared with the path, with or without the mark of a nullable type, and the
path means an enumeration with the variant `v`. No member has the first name of the path, or else
the path is only the enumeration's own name and `f` is the member that has it. -/
structure Declaring.Offers (d : Declaring) (f : String) (path : List String) (v : String)
    (type : TypeDef) : Prop where
  field : IsIdentifier f
  names : ∀ name ∈ path, IsIdentifier name
  variant : IsIdentifier v
  means : d.lookupType? (".".intercalate path) = some type
  enumeration : type.isEnumeration = true
  hasVariant : type.hasVariant v = true
  declared : ∃ field, d.type.field? f = some field ∧
    (field.ty = ".".intercalate path ∨ field.ty = ".".intercalate path ++ "?")
  unhidden : (∃ first, path.head? = some first ∧ d.member? first = none) ∨
    path = [type.name] ∧ f = type.name

namespace Declaring.Offers

variable {f v : String} {path : List String} {type : TypeDef} (offers : d.Offers f path v type)

include offers

theorem path_ne_nil : path ≠ [] := by
  rintro rfl
  rcases offers.unhidden with ⟨first, head, -⟩ | ⟨path, -⟩
  · cases head
  · cases path

theorem isPlain : Ty.IsPlain (".".intercalate path) := by
  have words : IsPath (".".intercalate path) :=
    ⟨path, offers.path_ne_nil, fun name member => (offers.names name member).1, rfl⟩
  exact words.isPlain

theorem member?_field :
    ∃ field, d.member? f = some (.field field) ∧
      Ty.ofDeclared d field.ty = Ty.ofDeclared d (".".intercalate path) := by
  obtain ⟨field, found, ty⟩ := offers.declared
  refine ⟨field, Declaring.member?_of_field? found, ?_⟩
  rcases ty with ty | ty
  · rw [ty]
  · rw [ty, Ty.ofDeclared_nullable d offers.isPlain]

theorem infer_field (tools : Toolchain) (column : Nat) :
    infer d tools (.ident f column) = .ok (.ofDeclared d (".".intercalate path)) := by
  obtain ⟨field, member, same⟩ := offers.member?_field
  rw [infer, identType, member, ← same]
  rfl

theorem infer_static {first : String} (head : path.head? = some first)
    (absent : d.member? first = none) {p : Expr} (same : p.path? = some path)
    (tools : Toolchain) : infer d tools (.member p v) = .ok (.enumeration type.name) := by
  have static : staticType? d p = some type := by
    simp [staticType?, same, head, absent, offers.means]
  rw [infer, static]
  simp only [typeMemberType, offers.enumeration, offers.hasVariant, Bool.and_self, if_true, faultAt]

theorem infer_named (named : path = [type.name] ∧ f = type.name) {p : Expr}
    (same : p.path? = some path) (tools : Toolchain) :
    infer d tools (.member p v) =
      faultAt p.column (valueMemberType d (some type.name) (.ofDeclared d type.name) v) := by
  obtain ⟨rfl, rfl⟩ := named
  obtain ⟨column, rfl⟩ := Expr.eq_ident_of_path? same
  obtain ⟨field, member, -⟩ := offers.member?_field
  have static : staticType? d (.ident type.name column) = none := by
    simp [staticType?, Expr.path?, member]
  have inferred := offers.infer_field tools column
  rw [String.intercalate_singleton] at inferred
  rw [infer, static, inferred]
  simp [bind, Except.bind, Expr.dotted?, Expr.path?]

theorem infer_variant (foreign : Ty.builtin? ((".".intercalate path).map Char.toLower) = none)
    {p : Expr} (same : p.path? = some path) (tools : Toolchain) :
    infer d tools (.member p v) = .ok (.enumeration type.name) := by
  rcases offers.unhidden with ⟨first, head, absent⟩ | named
  · exact offers.infer_static head absent same tools
  · have own := Ty.ofDeclared_of_lookup offers.isPlain foreign offers.means
    have means := offers.means
    rw [named.1, String.intercalate_singleton] at own means
    rw [offers.infer_named named same, own, Ty.ofType, if_pos offers.enumeration]
    simp only [valueMemberType, if_true, means, offers.hasVariant, faultAt]

theorem not_accepts {ty : Ty}
    (builtin : Ty.builtin? ((".".intercalate path).map Char.toLower) = some ty) {p : Expr}
    (same : p.path? = some path) {tools : Toolchain} {r : Ty}
    (inferred : infer d tools (.member p v) = .ok r) : ty.accepts r = false := by
  have known := Ty.mem_of_builtin? builtin
  rcases offers.unhidden with ⟨first, head, absent⟩ | named
  · rw [offers.infer_static head absent same] at inferred
    cases inferred
    simp only [List.mem_cons, List.not_mem_nil, or_false] at known
    rcases known with rfl | rfl | rfl | rfl | rfl <;> rfl
  · have own : Ty.ofDeclared d (".".intercalate path) = ty :=
      Ty.ofDeclared_of_builtin offers.isPlain builtin
    rw [named.1, String.intercalate_singleton] at own
    rw [offers.infer_named named same, own] at inferred
    simp only [List.mem_cons, List.not_mem_nil, or_false] at known
    rcases known with rfl | rfl | rfl | rfl | rfl
    · cases inferred
    · cases inferred
    · rw [valueMemberType] at inferred
      split_ifs at inferred <;> cases inferred
      rfl
    · cases inferred
    · cases inferred

end Declaring.Offers

theorem Expr.eq_comparison_of_bare {op : BinOp} {f v : String} {column : Nat} {p e : Expr}
    (same : e.bare = (Expr.binary op (.ident f column) (.member p v)).bare) :
    ∃ column' p', e = .binary op (.ident f column') (.member p' v) ∧ p'.bare = p.bare := by
  cases e with
  | binary op' left right =>
      simp only [Expr.bare, Expr.binary.injEq] at same
      obtain ⟨rfl, left', right'⟩ := same
      cases left <;> cases left'
      cases right <;> simp only [Expr.bare, Expr.member.injEq, reduceCtorEq] at right'
      obtain ⟨inside, rfl⟩ := right'
      exact ⟨_, _, rfl, inside⟩
  | _ => cases same

theorem Declaring.Offers.exists_parse {f v : String} {path : List String} {type : TypeDef}
    (offers : d.Offers f path v type) (few : path.length < maxDepth) :
    ∃ column p, parse (f ++ " == " ++ ".".intercalate path ++ "." ++ v) =
      .ok (.binary .eq (.ident f column) (.member p v)) ∧ p.path? = some path := by
  obtain ⟨first, names, rfl⟩ := List.exists_cons_of_ne_nil offers.path_ne_nil
  obtain ⟨identifier, identifiers⟩ := List.forall_mem_cons.mp offers.names
  have variant : ∀ name ∈ names ++ [v], IsIdentifier name :=
    List.forall_mem_append.mpr ⟨identifiers, List.forall_mem_singleton.mpr offers.variant⟩
  -- The text is printed from a tree without columns, and parsed to the same tree with some.
  obtain ⟨p, before⟩ : ∃ p, p = (Expr.ident first 0).selected names := ⟨_, rfl⟩
  have prints : (Expr.binary .eq (.ident f 0) (.member p v)).Prints
      (f ++ " == " ++ ".".intercalate (first :: names) ++ "." ++ v) := by
    have blank : ∀ c ∈ [' '], Text.isBlank c = true := List.forall_mem_singleton.mpr rfl
    have right := (writes_path 0 identifier variant).blank blank
    rw [Expr.selected_concat, ← before] at right
    have whole := (Writes.token blank (.mark (.op .eq) rfl) right).cons offers.field.spells
    have letters : (f ++ " == " ++ ".".intercalate (first :: names) ++ "." ++ v).toList =
        f.toList ++ ([' '] ++ (['=', '='] ++ ([' '] ++
          (".".intercalate (first :: (names ++ [v]))).toList))) := by
      simp [String.toList_intercalate, intercalate_cons, List.flatMap_map]
    rw [Expr.Prints, letters]
    exact whole
  have fits : (Expr.binary .eq (.ident f 0) (.member p v)).levels ≤ maxDepth := by
    have levels := Expr.levels_selected (e := .ident first 0) (Nat.le_refl _) (names ++ [v])
    have start : (Expr.ident first 0).levels = 0 ∧ (Expr.ident first 0).points = 0 := ⟨rfl, rfl⟩
    rw [Expr.selected_concat, ← before, List.length_append, start.1, start.2] at levels
    have whole : (Expr.binary .eq (.ident f 0) (.member p v)).levels =
        max 0 (0 + 1 + (Expr.member p v).levels) := rfl
    rw [List.length_cons] at few
    rw [whole]
    simp only [List.length_singleton] at levels
    omega
  obtain ⟨e, parsed, same⟩ := prints.exists_parse fits
  obtain ⟨column, p', rfl, inside⟩ := Expr.eq_comparison_of_bare same
  refine ⟨column, p', parsed, ?_⟩
  rw [← p'.path?_bare, inside, p.path?_bare, before, Expr.path?_selected]
  rfl

theorem Declaring.Offers.check_iff {f v : String} {path : List String} {type : TypeDef}
    (offers : d.Offers f path v type) (tools : Toolchain) (column : Nat) {p : Expr}
    (same : p.path? = some path) :
    check d tools (.binary .eq (.ident f column) (.member p v)) = .ok () ↔
      Ty.builtin? ((".".intercalate path).map Char.toLower) = none := by
  rw [check_equality_iff, offers.infer_field]
  cases builtin : Ty.builtin? ((".".intercalate path).map Char.toLower) with
  | none =>
      have own := Ty.ofDeclared_of_lookup offers.isPlain builtin offers.means
      rw [Ty.ofType, if_pos offers.enumeration] at own
      refine iff_of_true ⟨_, _, rfl, offers.infer_variant builtin same tools, ?_⟩ rfl
      simp [own, Ty.accepts]
  | some ty =>
      refine iff_of_false ?_ (Option.some_ne_none ty)
      rintro ⟨l, r, left, right, accepts⟩
      rw [Ty.ofDeclared_of_builtin offers.isPlain builtin] at left
      cases left
      rw [offers.not_accepts builtin same right] at accepts
      cases accepts

/-- A field of an enumeration can be compared with the variants of the enumeration exactly if the
name that both are written with stands for no type of the language itself. -/
theorem compare_with_variant {f v : String} {path : List String} {type : TypeDef}
    (offers : d.Offers f path v type) (tools : Toolchain) :
    (∀ column p, p.path? = some path →
      (check d tools (.binary .eq (.ident f column) (.member p v)) = .ok () ↔
        Ty.builtin? ((".".intercalate path).map Char.toLower) = none)) ∧
    (path.length < maxDepth →
      (compile d tools (f ++ " == " ++ ".".intercalate path ++ "." ++ v) = .ok () ↔
        Ty.builtin? ((".".intercalate path).map Char.toLower) = none)) := by
  refine ⟨fun column p same => offers.check_iff tools column same, fun few => ?_⟩
  obtain ⟨column, p, parsed, same⟩ := offers.exists_parse few
  rw [← offers.check_iff tools column same, compile, parsed]
  rfl

namespace Dated

def level : TypeDef := ⟨"Level", some "Kinds", .enumeration, [], [], ["Low", "High"]⟩

def date : TypeDef := ⟨"Date", none, .enumeration, [], [], ["Early", "Late"]⟩

def order : TypeDef :=
  ⟨"Order", none, .object, [⟨"state", "Kinds.Level?", []⟩, ⟨"due", "Date", []⟩], [], []⟩

def declaring : Declaring where
  module := ⟨["App.rmod"], .ofBytes [], ⟨"App", none, [], [order, level, date]⟩, [], [], 1⟩
  type := order

theorem offers_high : declaring.Offers "state" ["Kinds", "Level"] "High" level where
  field := ⟨⟨'s', ['t', 'a', 't', 'e'], rfl, rfl, rfl⟩, by decide⟩
  names := by
    rw [List.forall_mem_cons, List.forall_mem_singleton]
    exact ⟨⟨⟨'K', ['i', 'n', 'd', 's'], rfl, rfl, rfl⟩, by decide⟩,
      ⟨⟨'L', ['e', 'v', 'e', 'l'], rfl, rfl, rfl⟩, by decide⟩⟩
  variant := ⟨⟨'H', ['i', 'g', 'h'], rfl, rfl, rfl⟩, by decide⟩
  means := rfl
  enumeration := rfl
  hasVariant := by decide
  declared := ⟨_, rfl, .inr rfl⟩
  unhidden := .inl ⟨"Kinds", rfl, rfl⟩

theorem offers_late : declaring.Offers "due" ["Date"] "Late" date where
  field := ⟨⟨'d', ['u', 'e'], rfl, rfl, rfl⟩, by decide⟩
  names := by
    rw [List.forall_mem_singleton]
    exact ⟨⟨'D', ['a', 't', 'e'], rfl, rfl, rfl⟩, by decide⟩
  variant := ⟨⟨'L', ['a', 't', 'e'], rfl, rfl, rfl⟩, by decide⟩
  means := rfl
  enumeration := rfl
  hasVariant := by decide
  declared := ⟨_, rfl, .inl rfl⟩
  unhidden := .inl ⟨"Date", rfl, rfl⟩

theorem compares_high :
    declaring.Offers "state" ["Kinds", "Level"] "High" level ∧
      Ty.builtin? ((".".intercalate ["Kinds", "Level"]).map Char.toLower) = none ∧
      check declaring .builtin (.binary .eq (.ident "state" 1)
        (.member (.member (.ident "Kinds" 10) "Level") "High")) = .ok () ∧
      compile declaring .builtin
        ("state" ++ " == " ++ ".".intercalate ["Kinds", "Level"] ++ "." ++ "High") = .ok () := by
  have foreign : Ty.builtin? ((".".intercalate ["Kinds", "Level"]).map Char.toLower) = none := by
    rw [Ty.builtin?_map]
    rfl
  obtain ⟨checks, compiles⟩ := compare_with_variant offers_high .builtin
  exact ⟨offers_high, foreign, (checks 1 _ rfl).mpr foreign, (compiles (by decide)).mpr foreign⟩

/-- The name of a type of the language itself hides the enumeration from declarations only. -/
theorem cannot_compare_late :
    ¬ ∀ (d : Declaring) (f v : String) (path : List String) (type : TypeDef) (tools : Toolchain)
      (column : Nat) (p : Expr), d.Offers f path v type → p.path? = some path →
        check d tools (.binary .eq (.ident f column) (.member p v)) = .ok () := by
  intro each
  have compared := each declaring "due" "Late" ["Date"] date .builtin 1 (.ident "Date" 8)
    offers_late rfl
  rw [offers_late.check_iff _ _ rfl, Ty.builtin?_map] at compared
  cases compared

end Dated

end RuleLint.Rule
