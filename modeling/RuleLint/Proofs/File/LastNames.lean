import RuleLint.Proofs.File.Siblings

namespace RuleLint.File

namespace Path

variable {child name : String} {cs : List Char}

/-! ## Joined paths -/

theorem trimmedReverse_append (filled : trimmedReverse cs ≠ []) (noRoot : trimmedReverse cs ≠ ['/'])
    (noDot : trimmedReverse cs ≠ ['.']) (before : List Char) :
    trimmedReverse (cs ++ '/' :: before) = trimmedReverse cs ++ '/' :: before := by
  induction cs using trimmedReverse.induct with
  | case1 c rest ih =>
      rw [trimmedReverse] at filled noRoot noDot ⊢
      exact ih filled noRoot noDot
  | case2 rest ih =>
      rw [trimmedReverse] at filled noRoot noDot ⊢
      exact ih filled noRoot noDot
  | case3 cs noSlashEnd noDotEnd =>
      have whole : trimmedReverse cs = cs := trimmedReverse.eq_3 cs noSlashEnd noDotEnd
      rw [whole] at filled noRoot noDot ⊢
      apply trimmedReverse.eq_3
      · intro c rest ends
        cases cs with
        | nil => exact filled rfl
        | cons c' cs =>
            obtain ⟨rfl, same⟩ := List.cons.inj ends
            cases cs with
            | nil => exact noRoot rfl
            | cons d cs => exact noSlashEnd d cs rfl
      · intro rest ends
        cases cs with
        | nil => exact absurd (List.cons.inj ends).1 (by decide)
        | cons c' cs =>
            obtain ⟨rfl, same⟩ := List.cons.inj ends
            cases cs with
            | nil => exact noDot rfl
            | cons d cs =>
                obtain ⟨rfl, -⟩ := List.cons.inj same
                exact noDotEnd cs rfl

def Goes (child : String) : Prop := ∃ name ∈ (Path.mk child).names, name ≠ "."

theorem Goes.trimmedReverse_ne (goes : Goes child) : trimmedReverse child.toList.reverse ≠ [] ∧
    trimmedReverse child.toList.reverse ≠ ['/'] ∧ trimmedReverse child.toList.reverse ≠ ['.'] := by
  obtain ⟨name, among, other⟩ := goes
  obtain ⟨dots, still, names⟩ := names_trimmedReverse child.toList.reverse
  rw [List.reverse_reverse, String.ofList_toList] at names
  have only (stays : ∀ n ∈ (Path.mk (.ofList (trimmedReverse child.toList.reverse).reverse)).names,
      n = ".") : False := by
    rw [names] at among
    rcases List.mem_append.mp among with here | after
    · exact other (stays name here)
    · exact other (still name after)
  refine ⟨fun same => only ?_, fun same => only ?_, fun same => only ?_⟩ <;>
    · rw [same]
      decide

theorem takeWhile_append_stop (p : Char → Bool) {stop : Char} (stops : p stop = false)
    (cs before : List Char) : (cs ++ stop :: before).takeWhile p = cs.takeWhile p := by
  rw [List.takeWhile_append, List.takeWhile_cons_of_neg (by simp [stops]), List.append_nil]
  split
  · rename_i whole
    exact ((List.takeWhile_prefix p).eq_of_length whole).symm
  · rfl

theorem exists_dropWhile_append_stop (p : Char → Bool) {stop : Char} (stops : p stop = false)
    (cs before : List Char) :
    ∃ front, (cs ++ stop :: before).dropWhile p = front ++ stop :: before := by
  rw [List.dropWhile_append, List.dropWhile_cons_of_neg (by simp [stops])]
  split
  · exact ⟨[], rfl⟩
  · exact ⟨cs.dropWhile p, rfl⟩

theorem lastComponent_join (goes : Goes child) (directory : Path) :
    (directory.join child).lastComponent.1 = (Path.mk child).lastComponent.1 := by
  obtain ⟨filled, noRoot, noDot⟩ := goes.trimmedReverse_ne
  have after (text : String) (before : List Char)
      (split : text.toList = before ++ '/' :: child.toList) :
      (Path.mk text).lastComponent.1 = (Path.mk child).lastComponent.1 := by
    have reversed : text.toList.reverse = child.toList.reverse ++ '/' :: before.reverse := by
      simp [split]
    simp only [lastComponent, reversed, trimmedReverse_append filled noRoot noDot]
    exact takeWhile_append_stop (· ≠ '/') (by decide) _ _
  unfold join
  split
  · rfl
  · split
    · rename_i ended
      rcases ended with empty | slash
      · rw [empty, String.empty_append]
      · obtain ⟨before, text⟩ := List.getLast?_eq_some_iff.mp slash
        refine after _ before ?_
        rw [String.toList_append, text, List.append_assoc, List.singleton_append]
    · exact after _ directory.text.toList (by simp)

theorem fileName?_join (goes : Goes child) (directory : Path) :
    (directory.join child).fileName? = (Path.mk child).fileName? := by
  simp only [fileName?, lastComponent_join goes directory]

/-! ## Names by themselves -/

theorem goes_of_proper (proper : ProperName name) : Goes name :=
  ⟨name, by simp [names_of_noSlash proper], proper.notHere⟩

theorem fileName?_of_proper (proper : ProperName name) : (Path.mk name).fileName? = some name := by
  have reversed : '/' ∉ name.toList.reverse := by simpa using proper.noSlash
  have whole : trimmedReverse name.toList.reverse = name.toList.reverse := by
    apply trimmedReverse.eq_3
    · rintro c rest ends
      exact reversed (by simp [ends])
    · rintro rest ends
      exact reversed (by simp [ends])
  have all : (Path.mk name).lastComponent.1 = name.toList.reverse := by
    simp only [lastComponent, whole]
    exact List.takeWhile_eq_self_iff.mpr fun c member =>
      decide_eq_true fun slash => reversed (slash ▸ member)
  simp only [fileName?, all, List.reverse_reverse, String.ofList_toList, proper.nonempty,
    proper.notHere, proper.notParent, or_self, if_false]

def lastPart (text : String) : String :=
  .ofList (text.toList.reverse.takeWhile (· ≠ '.')).reverse

theorem extensionOf?_of_point (nonempty : name ≠ "") (extension : String) :
    extensionOf? (name ++ "." ++ extension) = some (lastPart extension) := by
  have reversed : (name ++ "." ++ extension).toList.reverse =
      extension.toList.reverse ++ '.' :: name.toList.reverse := by simp
  have before : name.toList.reverse ≠ [] := by simpa using nonempty
  obtain ⟨c, cs, spelled⟩ := List.exists_cons_of_ne_nil before
  obtain ⟨front, dropped⟩ : ∃ front, (extension.toList.reverse ++ '.' :: name.toList.reverse).dropWhile
      (· ≠ '.') = front ++ '.' :: name.toList.reverse :=
    exists_dropWhile_append_stop (· ≠ '.') (by decide) _ _
  rw [extensionOf?, reversed, dropped, takeWhile_append_stop (· ≠ '.') (by decide), spelled]
  -- What remains before the extension is the point and, because there is a name, something more.
  cases front with
  | nil => rfl
  | cons d front => cases front <;> rfl

/-! ## Paths without a name -/

theorem trimmedReverse_ne_slash_cons (c : Char) (rest : List Char) :
    trimmedReverse cs ≠ '/' :: c :: rest := by
  induction cs using trimmedReverse.induct with
  | case1 c' rest' ih => rwa [trimmedReverse]
  | case2 rest' ih => rwa [trimmedReverse]
  | case3 cs noSlashEnd noDotEnd =>
      rw [trimmedReverse.eq_3 cs noSlashEnd noDotEnd]
      exact noSlashEnd c rest

theorem mem_of_mem_trimmedReverse {c : Char} (member : c ∈ trimmedReverse cs) : c ∈ cs := by
  induction cs using trimmedReverse.induct with
  | case1 c' rest ih =>
      rw [trimmedReverse] at member
      exact List.mem_cons_of_mem _ (ih member)
  | case2 rest ih =>
      rw [trimmedReverse] at member
      exact List.mem_cons_of_mem _ (ih member)
  | case3 cs noSlashEnd noDotEnd => rwa [trimmedReverse.eq_3 cs noSlashEnd noDotEnd] at member

theorem mem_of_fileName? {p : Path} {c : Char} (named : p.fileName? = some name)
    (member : c ∈ name.toList) : c ∈ p.text.toList := by
  obtain ⟨rfl, -⟩ := fileName?_eq_some named
  rw [String.toList_ofList, List.mem_reverse] at member
  have inside : c ∈ trimmedReverse p.text.toList.reverse := by
    rw [trimmedReverse_eq]
    exact List.mem_append_left _ member
  exact List.mem_reverse.mp (mem_of_mem_trimmedReverse inside)

theorem eq_of_fileName?_eq_none {p : Path} (unnamed : p.fileName? = none) :
    String.ofList p.lastComponent.1.reverse = "" ∨
      ∃ dots, (dots = "." ∨ dots = "..") ∧ String.ofList p.lastComponent.1.reverse = dots := by
  rw [fileName?] at unnamed
  dsimp only at unnamed
  split at unnamed
  · rename_i noName
    exact noName.imp_right fun dots => ⟨_, dots, rfl⟩
  · cases unnamed

theorem names_of_dots (dots : name = "." ∨ name = "..") : (Path.mk name).names = [name] := by
  rcases dots with rfl | rfl <;> decide

theorem before_of_lastComponent_eq_nil {p : Path} (empty : p.lastComponent.1 = []) :
    p.lastComponent.2 = [] ∨ p.lastComponent.2 = ['/'] := by
  rcases p.lastComponent_before with none | ⟨rest, slash⟩
  · exact .inl none
  · cases rest with
    | nil => exact .inr slash
    | cons c rest =>
        have trimmed := trimmedReverse_eq p
        rw [empty, slash, List.nil_append] at trimmed
        exact absurd trimmed (trimmedReverse_ne_slash_cons c rest)

theorem exists_names_of_lastComponent {p : Path}
    (last : (Path.mk (.ofList p.lastComponent.1.reverse)).names = [name]) :
    ∃ before, (Path.mk (.ofList (p.lastComponent.2.reverse ++ p.lastComponent.1.reverse))).names =
      before ++ [name] := by
  rcases p.lastComponent_before with none | ⟨rest, slash⟩
  · refine ⟨[], ?_⟩
    rw [none, List.reverse_nil, List.nil_append, last, List.nil_append]
  · refine ⟨(Path.mk (.ofList rest.reverse)).names, ?_⟩
    rw [slash, List.reverse_cons, List.append_assoc, List.singleton_append, names_append_cons, last]

theorem getLast?_names_of_fileName?_eq_none {p : Path} {step : String} (unnamed : p.fileName? = none)
    (last : p.names.getLast? = some step) : step = "." ∨ step = ".." := by
  obtain ⟨still, here, names⟩ := names_trimmedReverse p.text.toList.reverse
  rw [List.reverse_reverse, String.ofList_toList, trimmedReverse_eq, List.reverse_append] at names
  cases still using List.reverseRecOn with
  | append_singleton still dot =>
      rw [names, ← List.append_assoc, List.getLast?_concat] at last
      exact .inl (Option.some.inj last ▸ here dot (by simp))
  | nil =>
      rw [List.append_nil] at names
      rcases eq_of_fileName?_eq_none unnamed with nothing | ⟨dots, either, component⟩
      · have empty : p.lastComponent.1 = [] := by simpa using nothing
        have nowhere : p.names = [] := by
          rcases before_of_lastComponent_eq_nil empty with none | root
          · rw [names, empty, none]
            exact names_empty
          · rw [names, empty, root]
            decide
        rw [nowhere] at last
        cases last
      · have alone : (Path.mk (.ofList p.lastComponent.1.reverse)).names = [dots] := by
          rw [component, names_of_dots either]
        obtain ⟨before, ended⟩ := exists_names_of_lastComponent alone
        rw [names, ended, List.getLast?_concat] at last
        exact Option.some.inj last ▸ either

end Path

/-! ## Paths of files -/

namespace FileSystem

variable {fs : FileSystem} {p : Path} {l l' d : Location} {name : String} {bytes : Text.Bytes}

theorem exists_of_walk_cons {names : List String} (walk : (name :: names).foldlM fs.step l = .ok l') :
    ∃ next, fs.step l name = .ok next ∧ names.foldlM fs.step next = .ok l' := by
  rw [List.foldlM_cons] at walk
  cases stepped : fs.step l name with
  | error cause => simp [stepped, bind, Except.bind] at walk
  | ok next => exact ⟨next, rfl, by simpa [stepped, bind, Except.bind] using walk⟩

theorem exists_of_walk_append {names names' : List String}
    (walk : (names ++ names').foldlM fs.step l = .ok l') :
    ∃ d, names.foldlM fs.step l = .ok d ∧ names'.foldlM fs.step d = .ok l' := by
  rw [List.foldlM_append] at walk
  cases before : names.foldlM fs.step l with
  | error cause => simp [before, bind, Except.bind] at walk
  | ok d => exact ⟨d, rfl, by simpa [before, bind, Except.bind] using walk⟩

theorem exists_readAt_of_readText {text : String} (read : fs.readText p = .ok text) :
    ∃ l bytes, fs.canonicalize p = .ok l ∧ fs.readAt l = .ok bytes := by
  unfold readText FileSystem.read at read
  cases checked : checkLength p with
  | error cause => simp [checked, bind, Except.bind] at read
  | ok _ =>
      cases found : fs.canonicalize p with
      | error cause => simp [checked, found, bind, Except.bind] at read
      | ok l =>
          cases contents : fs.readAt l with
          | error cause => simp [checked, found, contents, bind, Except.bind] at read
          | ok bytes => exact ⟨l, bytes, rfl, contents⟩

theorem eq_of_walk_here {dots : List String} (still : ∀ dot ∈ dots, dot = ".")
    (walk : dots.foldlM fs.step l = .ok l') : l' = l := by
  cases dots with
  | nil => exact (Except.ok.inj walk).symm
  | cons dot dots =>
      obtain ⟨next, stepped, -⟩ := exists_of_walk_cons walk
      rw [walk_here still (directory_of_step stepped)] at walk
      exact (Except.ok.inj walk).symm

namespace IsTree

theorem directory_of_start (tree : fs.IsTree) : fs.entry? (fs.start p) = some .directory := by
  unfold start
  split
  · exact entry?_nil
  · exact tree.working

theorem directory_of_step_dots (tree : fs.IsTree) (dots : name = "." ∨ name = "..")
    (stepped : fs.step l name = .ok l') : fs.entry? l' = some .directory := by
  have here := directory_of_step stepped
  rcases dots with rfl | rfl
  · rw [step_here here] at stepped
    exact Except.ok.inj stepped ▸ here
  · have up : fs.step l ".." = .ok l.dropLast := by simp [step, here]
    rw [up] at stepped
    exact Except.ok.inj stepped ▸ tree.directory_of_present here

theorem directory_of_fileName?_eq_none (tree : fs.IsTree) (unnamed : p.fileName? = none)
    (found : fs.canonicalize p = .ok l) : fs.entry? l = some .directory := by
  have walk := (canonicalize_eq_ok.mp found).2
  have back (step : String) (last : p.steps.getLast? = some step) : step = "." ∨ step = ".." := by
    unfold Path.steps at last
    dsimp only at last
    split at last
    · rw [List.getLast?_concat] at last
      exact .inl (Option.some.inj last).symm
    · exact Path.getLast?_names_of_fileName?_eq_none unnamed last
  cases steps : p.steps using List.reverseRecOn with
  | nil =>
      rw [steps] at walk
      exact Except.ok.inj walk ▸ tree.directory_of_start
  | append_singleton before step =>
      rw [steps] at walk back
      obtain ⟨d, -, last⟩ := exists_of_walk_append walk
      obtain ⟨next, stepped, ended⟩ := exists_of_walk_cons last
      obtain rfl : next = l := Except.ok.inj ended
      exact tree.directory_of_step_dots (back step List.getLast?_concat) stepped

theorem exists_endsIn_of_readAt (tree : fs.IsTree) (found : fs.canonicalize p = .ok l)
    (read : fs.readAt l = .ok bytes) :
    ∃ name directory d, p.EndsIn name directory ∧ fs.Reaches directory d ∧ l = d ++ [name] := by
  have walk := (canonicalize_eq_ok.mp found).2
  rw [readAt_eq_ok] at read
  cases named : p.fileName? with
  | none =>
      rw [tree.directory_of_fileName?_eq_none named found] at read
      cases read
  | some name =>
      obtain ⟨directory, ends⟩ := Path.exists_endsIn named
      obtain ⟨dots, dots', still, still', steps⟩ := ends.exists_steps
      rw [steps, start_congr ends.absolute] at walk
      obtain ⟨d, reached, onwards⟩ := exists_of_walk_append walk
      obtain ⟨d', waited, entered⟩ := exists_of_walk_append onwards
      obtain rfl := eq_of_walk_here still waited
      obtain ⟨next, stepped, stayed⟩ := exists_of_walk_cons entered
      obtain rfl := eq_of_walk_here still' stayed
      exact ⟨name, directory, d', ends, ⟨reached, directory_of_step stepped⟩,
        ((step_eq_ok ends.proper).mp stepped).2.2.2⟩

end IsTree

end FileSystem

end RuleLint.File
