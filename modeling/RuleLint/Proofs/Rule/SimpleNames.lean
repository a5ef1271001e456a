import RuleLint.Proofs.Module.Trees
import RuleLint.Proofs.Rule.Declared
import RuleLint.Rule.Typing

namespace RuleLint

open Image (TypeDef Field)

theorem Image.TypeDef.matchesName_self (t : TypeDef) : t.matchesName t.name = true := by
  simp [matchesName]

theorem Image.exists_findType?_of_mem {image : Image} {t : TypeDef} (member : t ∈ image.types) :
    ∃ s, image.findType? t.name = some s :=
  Option.isSome_iff_exists.mp (List.find?_isSome.mpr ⟨t, member, t.matchesName_self⟩)

theorem Module.exists_findType?_name {m : Module} {name : String} {t : TypeDef}
    (found : m.findType? name = some t) : ∃ s, m.findType? t.name = some s := by
  rw [Module.findType?_eq, List.findSome?_eq_some_iff] at found
  obtain ⟨before, image, after, split, here, -⟩ := found
  obtain ⟨s, again⟩ := Image.exists_findType?_of_mem (List.mem_of_find?_eq_some here)
  rw [Module.findType?_eq, ← Option.isSome_iff_exists, List.findSome?_isSome_iff]
  exact ⟨image, by simp [split], by rw [again]; rfl⟩

namespace Rule

def IsWord (s : String) : Prop :=
  ∃ c cs, s.toList = c :: cs ∧ isWordStart c = true ∧ cs.all isWordChar = true

def IsPath (s : String) : Prop :=
  ∃ words, words ≠ [] ∧ (∀ word ∈ words, IsWord word) ∧ s = ".".intercalate words

theorem isPlain_of_isWordChar {c : Char} (char : isWordChar c = true ∨ c = '.') :
    Text.isBlank c = false ∧ c ≠ '?' := by
  have range : 46 ≤ c.toNat ∧ c.toNat < 127 ∧ c.toNat ≠ 63 := by
    rcases char with char | rfl
    · rcases (Bool.or_eq_true ..).mp char with alphanumeric | underscore
      · rcases (Bool.or_eq_true ..).mp alphanumeric with letter | digit
        · rcases (Bool.or_eq_true ..).mp letter with upper | lower
          · have bounds : 65 ≤ c.toNat ∧ c.toNat ≤ 90 := of_decide_eq_true upper
            omega
          · have bounds : 97 ≤ c.toNat ∧ c.toNat ≤ 122 :=
              ((Bool.and_eq_true ..).mp lower).imp of_decide_eq_true of_decide_eq_true
            omega
        · have bounds : 48 ≤ c.toNat ∧ c.toNat ≤ 57 :=
            ((Bool.and_eq_true ..).mp digit).imp of_decide_eq_true of_decide_eq_true
          omega
      · rw [of_decide_eq_true underscore]
        decide
    · decide
  refine ⟨?_, fun same => ?_⟩
  · rw [← Bool.not_eq_true]
    simp only [Text.isBlank, Bool.or_eq_true, Bool.and_eq_true, decide_eq_true_eq, beq_iff_eq]
    omega
  · subst same
    exact range.2.2 rfl

theorem IsWord.isWordChar {s : String} (word : IsWord s) :
    ∀ c ∈ s.toList, Rule.isWordChar c = true := by
  obtain ⟨c, cs, letters, start, rest⟩ := word
  rw [letters, List.forall_mem_cons]
  refine ⟨?_, List.all_eq_true.mp rest⟩
  refine (Bool.or_eq_true ..).mpr (((Bool.or_eq_true ..).mp start).imp_left fun letter => ?_)
  exact (Bool.or_eq_true ..).mpr (.inl letter)

theorem forall_mem_intercalate {P : Char → Prop} {point : List Char} {words : List (List Char)}
    (between : ∀ c ∈ point, P c) (each : ∀ word ∈ words, ∀ c ∈ word, P c) :
    ∀ c ∈ point.intercalate words, P c := by
  induction words with
  | nil => simp
  | cons word words ih =>
      rw [List.forall_mem_cons] at each
      cases words with
      | nil => simpa using each.1
      | cons next words =>
          rw [List.intercalate_cons_cons, List.forall_mem_append, List.forall_mem_append]
          exact ⟨⟨each.1, between⟩, ih each.2⟩

theorem IsPath.isPlain {s : String} (path : IsPath s) : Ty.IsPlain s := by
  obtain ⟨words, -, each, rfl⟩ := path
  rw [Ty.IsPlain, String.toList_intercalate]
  apply forall_mem_intercalate
  · exact List.forall_mem_singleton.mpr (isPlain_of_isWordChar (.inr rfl))
  · intro letters member c inside
    obtain ⟨word, listed, rfl⟩ := List.mem_map.mp member
    exact isPlain_of_isWordChar (.inl ((each word listed).isWordChar c inside))

/-- The first field of that name is declared with a path that means the type. -/
def Declaring.Shows (d : Declaring) (name : String) (type : TypeDef) : Prop :=
  ∃ field, d.type.field? name = some field ∧ IsPath field.ty ∧
    Ty.builtin? (field.ty.map Char.toLower) = none ∧ d.lookupType? field.ty = some type

theorem Declaring.member?_of_field? {d : Declaring} {name : String} {field : Field}
    (found : d.type.field? name = some field) : d.member? name = some (.field field) := by
  rw [member?, found]
  rfl

namespace Declaring.Shows

variable {d : Declaring} {name : String} {type : TypeDef} (shows : d.Shows name type)

include shows

theorem staticType?_eq_none (column : Nat) : staticType? d (.ident name column) = none := by
  obtain ⟨field, found, -⟩ := shows
  simp [staticType?, Expr.path?, member?_of_field? found]

theorem infer_eq (tools : Toolchain) (column : Nat) :
    infer d tools (.ident name column) = .ok (.ofType type) := by
  obtain ⟨field, found, path, foreign, meant⟩ := shows
  rw [infer, identType, member?_of_field? found,
    ← Ty.ofDeclared_of_lookup path.isPlain foreign meant, faultAt]

theorem exists_lookupType?_name : ∃ other, d.lookupType? type.name = some other := by
  obtain ⟨field, -, -, -, meant⟩ := shows
  exact Module.exists_findType?_name meant

end Declaring.Shows

variable {d : Declaring} {f g : String} {T U : TypeDef}

theorem Ty.ofType_of_object (object : T.kind = .object) : ofType T = .object T.name := by
  simp [ofType, TypeDef.isEnumeration, object]

theorem Ty.ofType_of_enumeration (enumeration : T.kind = .enumeration) :
    ofType T = .enumeration T.name := by
  simp [ofType, TypeDef.isEnumeration, enumeration]

theorem Ty.accepts_ofType :
    (ofType T).accepts (ofType U) = true ↔ T.kind = U.kind ∧ T.name = U.name := by
  cases first : T.kind <;> cases second : U.kind <;>
    simp [ofType_of_object, ofType_of_enumeration, first, second, accepts]

theorem infer_selection (shows : d.Shows f T) (object : T.kind = .object) {S : TypeDef}
    (again : d.lookupType? T.name = some S) (tools : Toolchain) (column : Nat) (x : String) :
    infer d tools (.member (.ident f column) x) =
      match S.field? x with
      | some field => .ok (.ofDeclared d field.ty)
      | none => .error ⟨.noValueMember T.name x, column⟩ := by
  rw [infer, shows.staticType?_eq_none, shows.infer_eq, Ty.ofType_of_object object]
  simp only [bind, Except.bind, valueMemberType, again, Option.bind_some, Expr.column]
  cases S.field? x <;> rfl

theorem infer_comparison (left : d.Shows f T) (right : d.Shows g U) (tools : Toolchain)
    (column column' : Nat) :
    infer d tools (.binary .eq (.ident f column) (.ident g column')) = .ok .bool ↔
      T.kind = U.kind ∧ T.name = U.name := by
  rw [← Ty.accepts_ofType, infer, left.infer_eq, right.infer_eq]
  simp only [bind, Except.bind, BinOp.result?]
  cases (Ty.ofType T).accepts (Ty.ofType U) <;> simp [pure, Except.pure]

/-- A field of a class type offers the members of the first type in the module that goes by the simple
name of its type, and it may be compared with the fields whose types have this name and kind. Where
each of two types is the first by its simple name, members are those of the type itself and
comparison tells the two apart. -/
theorem selection_by_simpleName (left : d.Shows f T) (right : d.Shows g U) (tools : Toolchain)
    (column column' : Nat) :
    (∃ S, d.lookupType? T.name = some S ∧ (T.kind = .object →
      ∀ x, (infer d tools (.member (.ident f column) x)).toOption =
        (S.field? x).map fun field => .ofDeclared d field.ty)) ∧
    (infer d tools (.binary .eq (.ident f column) (.ident g column')) = .ok .bool ↔
      T.kind = U.kind ∧ T.name = U.name) ∧
    (d.lookupType? T.name = some T → d.lookupType? U.name = some U →
      (T.kind = .object → ∀ x, (infer d tools (.member (.ident f column) x)).toOption =
        (T.field? x).map fun field => .ofDeclared d field.ty) ∧
      (infer d tools (.binary .eq (.ident f column) (.ident g column')) = .ok .bool ↔ T = U)) := by
  have selects {S : TypeDef} (again : d.lookupType? T.name = some S) (object : T.kind = .object)
      (x : String) : (infer d tools (.member (.ident f column) x)).toOption =
        (S.field? x).map fun field => .ofDeclared d field.ty := by
    rw [infer_selection left object again]
    cases S.field? x <;> rfl
  have compares := infer_comparison left right tools column column'
  refine ⟨?_, compares, fun own own' => ⟨selects own, ?_⟩⟩
  · obtain ⟨S, again⟩ := left.exists_lookupType?_name
    exact ⟨S, again, selects again⟩
  · rw [compares]
    constructor
    · rintro ⟨-, same⟩
      rw [same, own'] at own
      exact (Option.some.inj own).symm
    · rintro rfl
      exact ⟨rfl, rfl⟩

namespace Renewed

def first : TypeDef := ⟨"Item", some "V1", .object, [⟨"Price", "int", []⟩], [], []⟩

def second : TypeDef := ⟨"Item", some "V2", .object, [⟨"Cost", "int", []⟩], [], []⟩

def order : TypeDef :=
  ⟨"Order", none, .object, [⟨"old", "V1.Item", []⟩, ⟨"new", "V2.Item", []⟩], [], []⟩

def declaring : Declaring where
  module := ⟨["App.rmod"], .ofBytes [], ⟨"App", none, [], [order, first, second]⟩, [], [], 1⟩
  type := order

theorem isWord_item : IsWord "Item" := ⟨'I', ['t', 'e', 'm'], rfl, rfl, rfl⟩

theorem shows_old : declaring.Shows "old" first := by
  refine ⟨⟨"old", "V1.Item", []⟩, rfl, ⟨["V1", "Item"], by simp, ?_, rfl⟩, ?_, rfl⟩
  · have version : IsWord "V1" := ⟨'V', ['1'], rfl, rfl, rfl⟩
    simp [version, isWord_item]
  · rw [Ty.builtin?_map]
    rfl

theorem shows_new : declaring.Shows "new" second := by
  refine ⟨⟨"new", "V2.Item", []⟩, rfl, ⟨["V2", "Item"], by simp, ?_, rfl⟩, ?_, rfl⟩
  · have version : IsWord "V2" := ⟨'V', ['2'], rfl, rfl, rfl⟩
    simp [version, isWord_item]
  · rw [Ty.builtin?_map]
    rfl

/-- `new` has the members of the type of `old`, and the two may be compared. -/
theorem confuses :
    declaring.Shows "new" second ∧ declaring.Shows "old" first ∧ first ≠ second ∧
      second.field? "Cost" = some ⟨"Cost", "int", []⟩ ∧
      (infer declaring .builtin (.member (.ident "new" 1) "Cost")).toOption = none ∧
      infer declaring .builtin (.binary .eq (.ident "new" 1) (.ident "old" 8)) = .ok .bool := by
  obtain ⟨⟨S, again, members⟩, compared, -⟩ :=
    selection_by_simpleName shows_new shows_old .builtin 1 8
  have found : S = first := Option.some.inj (again.symm.trans rfl)
  refine ⟨shows_new, shows_old, by decide, rfl, ?_, compared.mpr ⟨rfl, rfl⟩⟩
  rw [members rfl, found]
  rfl

end Renewed

end Rule

end RuleLint
