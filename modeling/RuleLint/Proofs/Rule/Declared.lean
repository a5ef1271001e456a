import Mathlib.Data.List.Induction
import Mathlib.Data.List.TakeWhile
import RuleLint.Rule.Declaring

namespace RuleLint

namespace Text

variable {p : Char → Bool} {cs : List Char}

theorem dropEndWhile_of_forall (none : ∀ c ∈ cs, p c = false) : dropEndWhile p cs = cs := by
  have kept : cs.reverse.dropWhile p = cs.reverse :=
    List.dropWhile_eq_self_iff.mpr fun nonempty => by simp [none]
  rw [dropEndWhile, kept, List.reverse_reverse]

theorem trimBlanks_of_forall {s : String} (none : ∀ c ∈ s.toList, isBlank c = false) :
    trimBlanks s = s := by
  have kept : s.toList.dropWhile isBlank = s.toList :=
    List.dropWhile_eq_self_iff.mpr fun nonempty => by simp [none]
  rw [trimBlanks, kept, dropEndWhile_of_forall none, String.ofList_toList]

theorem dropEndWhile_append_of_forall {after : List Char} (all : ∀ c ∈ after, p c = true)
    (cs : List Char) : dropEndWhile p (cs ++ after) = dropEndWhile p cs := by
  rw [dropEndWhile, List.reverse_append, List.dropWhile_append_of_pos (by simpa using all),
    dropEndWhile]

theorem dropEndWhile_of_getLast? (last : ∀ c, cs.getLast? = some c → p c = false) :
    dropEndWhile p cs = cs := by
  cases cs using List.reverseRecOn with
  | nil => rfl
  | append_singleton cs c =>
      have stops : p c = false := last c (by simp)
      rw [dropEndWhile, List.reverse_concat, List.dropWhile_cons_of_neg (by simp [stops])]
      simp

def fromFirst (s : String) : List Char := s.toList.dropWhile isBlank

def hasBlankEnd (s : String) : Bool := (fromFirst s).getLast?.any isBlank

theorem trimBlanks_padded {before after : String} (blank : ∀ c ∈ before.toList, isBlank c = true)
    (blank' : ∀ c ∈ after.toList, isBlank c = true) (s : String) :
    trimBlanks (before ++ s ++ after) = trimBlanks s := by
  have text : (before ++ s ++ after).toList = before.toList ++ (s.toList ++ after.toList) := by simp
  have none : after.toList.dropWhile isBlank = [] := List.dropWhile_eq_nil_iff.mpr blank'
  rw [trimBlanks, trimBlanks, text, List.dropWhile_append_of_pos blank, List.dropWhile_append, none]
  split
  · rename_i empty
    rw [List.isEmpty_iff.mp empty]
  · rw [dropEndWhile_append_of_forall blank']

theorem trimBlanks_concat {c : Char} (visible : isBlank c = false) (s : String) :
    trimBlanks (s ++ String.singleton c) = .ofList (fromFirst s ++ [c]) := by
  have kept : [c].dropWhile isBlank = [c] := List.dropWhile_cons_of_neg (by simp [visible])
  have front : (s ++ String.singleton c).toList.dropWhile isBlank = fromFirst s ++ [c] := by
    rw [String.toList_append, String.toList_singleton, List.dropWhile_append, kept]
    split
    · rename_i empty
      rw [fromFirst, List.isEmpty_iff.mp empty]
      rfl
    · rfl
  rw [trimBlanks, front, dropEndWhile_of_getLast? (by simp [visible])]

theorem trimBlanks_of_hasBlankEnd_eq_false {s : String} (tight : hasBlankEnd s = false) :
    trimBlanks s = .ofList (fromFirst s) :=
  congrArg String.ofList (dropEndWhile_of_getLast? ((Option.any_eq_false _ _).mp tight))

theorem fromFirst_of_forall {s : String} (none : ∀ c ∈ s.toList, isBlank c = false) :
    fromFirst s = s.toList :=
  List.dropWhile_eq_self_iff.mpr fun nonempty => by simp [none]

theorem hasBlankEnd_of_forall {s : String} (none : ∀ c ∈ s.toList, isBlank c = false) :
    hasBlankEnd s = false := by
  rw [hasBlankEnd, fromFirst_of_forall none, Option.any_eq_false]
  exact fun c last => none c (List.mem_of_getLast? last)

theorem toLower_of_isBlank {c : Char} (blank : isBlank c = true) : c.toLower = c := by
  have outside : ¬ (c.val ≥ 'A'.val ∧ c.val ≤ 'Z'.val) := by
    rintro ⟨low, high⟩
    have low' : 65 ≤ c.toNat := UInt32.le_iff_toNat_le.mp low
    have high' : c.toNat ≤ 90 := UInt32.le_iff_toNat_le.mp high
    simp only [isBlank, Bool.or_eq_true, Bool.and_eq_true, decide_eq_true_eq, beq_iff_eq] at blank
    omega
  exact dif_neg outside

end Text

namespace Rule.Ty

open Text (isBlank hasBlankEnd fromFirst)

variable {d : Declaring} {name : String}

def IsPlain (name : String) : Prop := ∀ c ∈ name.toList, Text.isBlank c = false ∧ c ≠ '?'

instance (name : String) : Decidable (IsPlain name) := List.decidableBAll _ _

theorem bareName_of_plain (plain : IsPlain name) : bareName name = name := by
  rw [bareName, Text.trimBlanks_of_forall fun c member => (plain c member).1,
    Text.dropEndWhile_of_forall fun c member => by simp [(plain c member).2], String.ofList_toList]

theorem builtin?_map (name : String) :
    builtin? (name.map Char.toLower) = builtin? (String.ofList (name.toList.map Char.toLower)) := by
  rw [← String.toList_map, String.ofList_toList]

theorem ofDeclared_of_builtin {ty : Ty} (plain : IsPlain name)
    (builtin : builtin? (name.map Char.toLower) = some ty) : ofDeclared d name = ty := by
  simp only [ofDeclared, bareName_of_plain plain, builtin]

def ofType (type : Image.TypeDef) : Ty :=
  if type.isEnumeration then enumeration type.name else object type.name

theorem ofDeclared_of_lookup {type : Image.TypeDef} (plain : IsPlain name)
    (foreign : builtin? (name.map Char.toLower) = none) (found : d.lookupType? name = some type) :
    ofDeclared d name = ofType type := by
  simp only [ofDeclared, bareName_of_plain plain, foreign, found, ofType]

theorem ofDeclared_of_absent (plain : IsPlain name)
    (foreign : builtin? (name.map Char.toLower) = none) (absent : d.lookupType? name = none) :
    ofDeclared d name = unknown := by
  simp only [ofDeclared, bareName_of_plain plain, foreign, absent]

theorem bareName_padded {before after : String} (blank : ∀ c ∈ before.toList, isBlank c = true)
    (blank' : ∀ c ∈ after.toList, isBlank c = true) (name : String) :
    bareName (before ++ name ++ after) = bareName name := by
  rw [bareName, bareName, Text.trimBlanks_padded blank blank']

theorem bareName_marked (name : String) : bareName (name ++ "?") =
    if hasBlankEnd name then .ofList (fromFirst name) else bareName name := by
  have mark : name ++ "?" = name ++ String.singleton '?' := rfl
  have off : bareName (name ++ "?") = .ofList (Text.dropEndWhile (· = '?') (fromFirst name)) := by
    rw [bareName, mark, Text.trimBlanks_concat (by decide), String.toList_ofList,
      Text.dropEndWhile_append_of_forall (by simp)]
  rw [off]
  split
  · rename_i ends
    obtain ⟨c, last, blank⟩ := (Option.any_eq_true _ _).mp ends
    rw [Text.dropEndWhile_of_getLast?]
    intro c' last'
    rw [last] at last'
    cases last'
    apply decide_eq_false
    rintro rfl
    cases blank
  · rename_i ends
    rw [bareName, Text.trimBlanks_of_hasBlankEnd_eq_false (by simpa using ends),
      String.toList_ofList]

theorem visible_of_builtin? {ty : Ty} (builtin : builtin? name = some ty) :
    ∀ c ∈ name.toList, isBlank c = false := by
  have visible : (name.toList.all fun c => !isBlank c) = true := by
    unfold builtin? at builtin
    split at builtin <;> cases builtin <;> decide
  simpa using visible

theorem builtin?_of_hasBlankEnd (ends : hasBlankEnd name = true) :
    builtin? ((String.ofList (fromFirst name)).map Char.toLower) = none := by
  obtain ⟨c, last, blank⟩ := (Option.any_eq_true _ _).mp ends
  rw [Option.eq_none_iff_forall_ne_some]
  intro ty builtin
  have visible := visible_of_builtin? builtin c.toLower (by
    rw [String.toList_map, String.toList_ofList]
    exact List.mem_map_of_mem (List.mem_of_getLast? last))
  rw [Text.toLower_of_isBlank blank, blank] at visible
  cases visible

theorem ofDeclared_of_bareName {name' : String} (same : bareName name' = bareName name) :
    ofDeclared d name' = ofDeclared d name := by
  simp only [ofDeclared, same]

theorem ofDeclared_padded {before after : String} (blank : ∀ c ∈ before.toList, isBlank c = true)
    (blank' : ∀ c ∈ after.toList, isBlank c = true) (d : Declaring) (name : String) :
    ofDeclared d (before ++ name ++ after) = ofDeclared d name :=
  ofDeclared_of_bareName (bareName_padded blank blank' name)

/-- A name with blanks in front of its mark is only that of a type which is declared with these blanks in
its name. -/
theorem ofDeclared_marked (d : Declaring) (name : String) : ofDeclared d (name ++ "?") =
    if hasBlankEnd name then (d.lookupType? (.ofList (fromFirst name))).elim unknown ofType
    else ofDeclared d name := by
  have bare := bareName_marked name
  split at bare
  · rename_i ends
    rw [if_pos ends]
    simp only [ofDeclared, bare, builtin?_of_hasBlankEnd ends]
    cases d.lookupType? (.ofList (fromFirst name)) <;> rfl
  · rename_i tight
    rw [if_neg tight]
    exact ofDeclared_of_bareName bare

end Rule.Ty

end RuleLint
