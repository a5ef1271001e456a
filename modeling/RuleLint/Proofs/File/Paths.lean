import RuleLint.File.System

namespace RuleLint

namespace Text

theorem splitOn_eq_list_splitOn (separator : Char) (cs : List Char) :
    splitOn separator cs = cs.splitOn separator := by
  induction cs with
  | nil => rfl
  | cons c cs ih =>
      rw [List.splitOn_cons_eq_if_modifyHead, splitOn, ih]
      by_cases same : c = separator
      · simp [same]
      · obtain ⟨first, others, pieces⟩ := List.exists_cons_of_ne_nil (List.splitOn_ne_nil separator cs)
        simp [same, pieces]

end Text

namespace File

/-- A name that a walk takes to what is called so. -/
structure ProperName (name : String) : Prop where
  nonempty : name ≠ ""
  noSlash : '/' ∉ name.toList
  notHere : name ≠ "."
  notParent : name ≠ ".."

namespace Path

def names (p : Path) : List String := p.pieces.filter (· ≠ "")

theorem pieces_of_noSlash {text : String} (noSlash : '/' ∉ text.toList) :
    (Path.mk text).pieces = [text] := by
  simp [pieces, Text.splitOn_eq_list_splitOn, List.splitOn_eq_singleton noSlash]

theorem names_append_slash (before after : String) :
    (Path.mk (before ++ "/" ++ after)).names = (Path.mk before).names ++ (Path.mk after).names := by
  have split : (before ++ "/" ++ after).toList = before.toList ++ '/' :: after.toList := by simp
  simp only [names, pieces, Text.splitOn_eq_list_splitOn, split, List.splitOn_append_cons_self,
    List.map_append, List.filter_append]

theorem names_of_noSlash {name : String} (proper : ProperName name) :
    (Path.mk name).names = [name] := by
  simp [names, pieces_of_noSlash proper.noSlash, proper.nonempty]

theorem not_isAbsolute_of_noSlash {name : String} (noSlash : '/' ∉ name.toList) :
    (Path.mk name).isAbsolute = false := by
  simp only [isAbsolute, decide_eq_false_iff_not]
  intro first
  exact noSlash (List.mem_of_head? first)

theorem names_join (directory : Path) {child : String} (proper : ProperName child) :
    (directory.join child).names = directory.names ++ [child] := by
  unfold join
  simp only [not_isAbsolute_of_noSlash proper.noSlash, Bool.false_eq_true, if_false]
  split
  · rename_i ended
    rcases ended with empty | slash
    · have none : directory.names = [] := by
        simp [names, pieces, empty, Text.splitOn]
      simp [empty, names_of_noSlash proper, none]
    · obtain ⟨before, text⟩ := List.getLast?_eq_some_iff.mp slash
      have whole : directory.text = String.ofList before ++ "/" ++ "" := by
        apply String.toList_injective
        simp [text]
      have here : directory = ⟨String.ofList before ++ "/" ++ ""⟩ := by rw [← whole]
      have bare : directory.text ++ child = String.ofList before ++ "/" ++ child := by
        rw [whole]
        simp
      have parts : directory.names = (Path.mk (String.ofList before)).names := by
        rw [here, names_append_slash]
        simp [names, pieces, Text.splitOn]
      rw [bare, names_append_slash, names_of_noSlash proper, parts]
  · rw [names_append_slash, names_of_noSlash proper]

theorem getLast?_join (directory : Path) {child : String} (proper : ProperName child) :
    (directory.join child).text.toList.getLast? = child.toList.getLast? := by
  have nonempty : child.toList ≠ [] := by
    simpa using proper.nonempty
  have last := List.getLast?_eq_some_getLast nonempty
  unfold join
  simp only [not_isAbsolute_of_noSlash proper.noSlash, Bool.false_eq_true, if_false]
  split <;> simp [List.getLast?_cons, last]

theorem steps_eq_names {p : Path} (open_ : p.text.toList.getLast? ≠ some '/') :
    p.steps = p.names := by
  simp only [steps, open_, false_and, if_false]
  rfl

theorem steps_join (directory : Path) {child : String} (proper : ProperName child) :
    (directory.join child).steps = directory.names ++ [child] := by
  rw [steps_eq_names, names_join directory proper]
  rw [getLast?_join directory proper]
  intro slash
  exact proper.noSlash (List.mem_of_getLast? slash)

theorem mem_join {directory : Path} {child : String} {c : Char} (proper : ProperName child)
    (member : c ∈ (directory.join child).text.toList) :
    c ∈ directory.text.toList ∨ c = '/' ∨ c ∈ child.toList := by
  unfold join at member
  simp only [not_isAbsolute_of_noSlash proper.noSlash, Bool.false_eq_true, if_false] at member
  split at member
  · rcases List.mem_append.mp (by simpa using member) with before | inside
    · exact .inl before
    · exact .inr (.inr inside)
  · simpa [or_assoc] using member

theorem join_ne_empty (directory : Path) {child : String} (proper : ProperName child) :
    (directory.join child).text ≠ "" := by
  unfold join
  simp only [not_isAbsolute_of_noSlash proper.noSlash, Bool.false_eq_true, if_false]
  split <;> simp [proper.nonempty]

theorem isAbsolute_join (directory : Path) {child : String} (proper : ProperName child) :
    (directory.join child).isAbsolute = directory.isAbsolute := by
  unfold join
  simp only [not_isAbsolute_of_noSlash proper.noSlash, Bool.false_eq_true, if_false]
  by_cases empty : directory.text.toList = []
  · have bare : directory.text = "" := by
      apply String.toList_injective
      simpa using empty
    have relative := not_isAbsolute_of_noSlash proper.noSlash
    simp only [isAbsolute] at relative ⊢
    simpa [bare] using relative
  · obtain ⟨c, cs, text⟩ := List.exists_cons_of_ne_nil empty
    simp only [isAbsolute]
    split <;> simp [text]

end Path

end File

end RuleLint
