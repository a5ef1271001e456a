import Mathlib.Data.List.Basic
import Mathlib.Data.List.TakeWhile
import RuleLint.Proofs.File.Trees

namespace RuleLint.File

namespace Path

theorem names_append_cons (before after : List Char) :
    (Path.mk (.ofList (before ++ '/' :: after))).names =
      (Path.mk (.ofList before)).names ++ (Path.mk (.ofList after)).names := by
  have whole : String.ofList (before ++ '/' :: after) =
      String.ofList before ++ "/" ++ String.ofList after := by
    apply String.toList_injective
    simp
  rw [whole, names_append_slash]

theorem names_empty : (Path.mk (.ofList [])).names = [] := by
  simp [names, pieces, Text.splitOn]

theorem names_trimmedReverse (cs : List Char) :
    ∃ dots, (∀ dot ∈ dots, dot = ".") ∧ (Path.mk (.ofList cs.reverse)).names =
      (Path.mk (.ofList (trimmedReverse cs).reverse)).names ++ dots := by
  induction cs using trimmedReverse.induct with
  | case1 c rest ih =>
      obtain ⟨dots, still, same⟩ := ih
      refine ⟨dots, still, ?_⟩
      rw [trimmedReverse, ← same, List.reverse_cons, names_append_cons, names_empty, List.append_nil]
  | case2 rest ih =>
      obtain ⟨dots, still, same⟩ := ih
      refine ⟨dots ++ ["."], by simpa [or_imp, forall_and] using still, ?_⟩
      have here : (Path.mk (.ofList ['.'])).names = ["."] := by decide
      rw [List.reverse_cons, names_append_cons, names_empty, List.append_nil] at same
      rw [trimmedReverse, ← List.append_assoc, ← same, List.reverse_cons, List.reverse_cons,
        List.append_assoc, List.singleton_append, names_append_cons, here]
  | case3 cs noSlash noDot =>
      refine ⟨[], List.forall_mem_nil _, ?_⟩
      rw [trimmedReverse, List.append_nil]
      · exact noSlash
      · exact noDot

theorem getLast?_trimmedReverse (cs : List Char) : (trimmedReverse cs).getLast? = cs.getLast? := by
  induction cs using trimmedReverse.induct with
  | case1 c rest ih => rw [trimmedReverse, ih, List.getLast?_cons_cons]
  | case2 rest ih => rw [trimmedReverse, ih, List.getLast?_cons_cons]
  | case3 cs noSlash noDot =>
      rw [trimmedReverse]
      · exact noSlash
      · exact noDot

/-- The path ends in `name`, and `directory` is the path before it. Slashes and `/.` may stand on
either side of the name. -/
structure EndsIn (p : Path) (name : String) (directory : Path) : Prop where
  named : p.fileName? = some name
  proper : ProperName name
  parent : p.parent? = some directory
  absolute : p.isAbsolute = directory.isAbsolute
  names : ∃ dots dots', (∀ dot ∈ dots, dot = ".") ∧ (∀ dot ∈ dots', dot = ".") ∧
    p.names = directory.names ++ (dots ++ name :: dots')

theorem trimmedReverse_eq (p : Path) :
    trimmedReverse p.text.toList.reverse = p.lastComponent.1 ++ p.lastComponent.2 :=
  List.takeWhile_append_dropWhile.symm

theorem noSlash_lastComponent (p : Path) : '/' ∉ p.lastComponent.1 := by
  intro inside
  simpa using List.mem_takeWhile_imp inside

theorem lastComponent_before (p : Path) :
    p.lastComponent.2 = [] ∨ ∃ rest, p.lastComponent.2 = '/' :: rest := by
  have stop := List.head?_dropWhile_not (fun c => decide (c ≠ '/')) (trimmedReverse p.text.toList.reverse)
  cases found : p.lastComponent.2 with
  | nil => exact .inl rfl
  | cons c rest =>
      change List.dropWhile _ _ = _ at found
      rw [found] at stop
      have slash : c = '/' := by simpa using stop
      exact .inr ⟨rest, slash ▸ rfl⟩

theorem fileName?_eq_some {p : Path} {name : String} (named : p.fileName? = some name) :
    name = .ofList p.lastComponent.1.reverse ∧ ProperName name := by
  rw [fileName?] at named
  dsimp only at named
  split at named
  · cases named
  · rename_i plain
    cases named
    rw [not_or, not_or] at plain
    exact ⟨rfl, plain.1, by simpa using p.noSlash_lastComponent, plain.2.1, plain.2.2⟩

theorem getLast?_lastComponent (p : Path) :
    (p.lastComponent.1 ++ p.lastComponent.2).getLast? = p.text.toList.head? := by
  rw [← trimmedReverse_eq, getLast?_trimmedReverse, List.getLast?_reverse]

theorem exists_endsIn {p : Path} {name : String} (named : p.fileName? = some name) :
    ∃ directory, p.EndsIn name directory := by
  obtain ⟨component, proper⟩ := fileName?_eq_some named
  have last : (Path.mk (.ofList p.lastComponent.1.reverse)).names = [name] := by
    rw [← component, names_of_noSlash proper]
  have filled : p.lastComponent.1 ≠ [] := by
    intro empty
    rw [empty] at component
    exact proper.nonempty component
  let directory : Path := ⟨.ofList (trimmedReverse p.lastComponent.2).reverse⟩
  have parent : p.parent? = some directory := if_neg filled
  obtain ⟨dots', still', trimmed⟩ := names_trimmedReverse p.text.toList.reverse
  obtain ⟨dots, still, trimmed'⟩ := names_trimmedReverse p.lastComponent.2
  rw [List.reverse_reverse, String.ofList_toList, trimmedReverse_eq, List.reverse_append] at trimmed
  rcases p.lastComponent_before with none | ⟨rest, slash⟩
  · rw [none, List.reverse_nil, names_empty, eq_comm, List.append_eq_nil_iff] at trimmed'
    rw [none, List.reverse_nil, List.nil_append, last] at trimmed
    have relative : p.text.toList.head? ≠ some '/' := by
      rw [← getLast?_lastComponent, none, List.append_nil]
      exact fun ends => p.noSlash_lastComponent (List.mem_of_getLast? ends)
    refine ⟨directory, named, proper, parent, ?_, [], dots', List.forall_mem_nil _, still', ?_⟩
    · simp [isAbsolute, relative, directory, none, trimmedReverse]
    · rw [trimmed, show directory.names = [] by simpa [directory, none] using trimmed'.1]
      rfl
  · rw [slash, List.reverse_cons, List.append_assoc, List.singleton_append, names_append_cons,
      last] at trimmed
    rw [slash, List.reverse_cons, names_append_cons, names_empty, List.append_nil] at trimmed'
    refine ⟨directory, named, proper, parent, ?_, dots, dots', still, still', ?_⟩
    · have first := p.getLast?_lastComponent
      rw [slash, List.getLast?_append_cons] at first
      simp [isAbsolute, directory, slash, getLast?_trimmedReverse, first]
    · rw [trimmed, trimmed']
      simp [directory, slash]

namespace EndsIn

variable {p directory : Path} {name : String}

theorem exists_steps (ends : p.EndsIn name directory) :
    ∃ dots dots', (∀ dot ∈ dots, dot = ".") ∧ (∀ dot ∈ dots', dot = ".") ∧
      p.steps = directory.names ++ (dots ++ name :: dots') := by
  obtain ⟨dots, dots', still, still', whole⟩ := ends.names
  have filled : p.names ≠ [] := by simp [whole]
  by_cases slash : p.text.toList.getLast? = some '/'
  · refine ⟨dots, dots' ++ ["."], still, by simpa [or_imp, forall_and] using still', ?_⟩
    have steps : p.steps = p.names ++ ["."] := if_pos ⟨slash, filled⟩
    rw [steps, whole]
    simp
  · exact ⟨dots, dots', still, still', by rw [steps_eq_names slash, whole]⟩

theorem names_of_getLast?_steps (ends : p.EndsIn name directory)
    (last : p.steps.getLast? = some name) :
    p.text.toList.getLast? ≠ some '/' ∧ ∃ dots, (∀ dot ∈ dots, dot = ".") ∧
      p.names = directory.names ++ (dots ++ [name]) := by
  obtain ⟨dots, dots', still, still', whole⟩ := ends.names
  have filled : p.names ≠ [] := by simp [whole]
  have bare : p.text.toList.getLast? ≠ some '/' := by
    intro slash
    have steps : p.steps = p.names ++ ["."] := if_pos ⟨slash, filled⟩
    rw [steps, List.getLast?_append_cons] at last
    exact ends.proper.notHere (Option.some.inj last).symm
  refine ⟨bare, dots, still, ?_⟩
  rw [steps_eq_names bare, whole] at last
  cases dots' using List.reverseRecOn with
  | nil => exact whole
  | append_singleton dots' dot =>
      have here : dot = "." := still' dot (by simp)
      rw [here, ← List.cons_append, ← List.append_assoc, ← List.append_assoc,
        List.getLast?_append_cons] at last
      exact absurd (Option.some.inj last).symm ends.proper.notHere

end EndsIn

end Path

namespace FileSystem

variable {fs fs' : FileSystem} {l d : Location} {directory p : Path} {name : String}

theorem step_here (here : fs.entry? l = some .directory) : fs.step l "." = .ok l := by
  simp [step, here]

theorem walk_here {dots : List String} (still : ∀ dot ∈ dots, dot = ".")
    (here : fs.entry? l = some .directory) : dots.foldlM fs.step l = .ok l := by
  induction dots with
  | nil => rfl
  | cons dot dots ih =>
      rw [List.forall_mem_cons] at still
      rw [List.foldlM_cons, still.1, step_here here]
      exact ih still.2

theorem directory_of_step {l' : Location} (stepped : fs.step l name = .ok l') :
    fs.entry? l = some .directory := by
  unfold step at stepped
  split at stepped
  · assumption
  · cases stepped

theorem directory_of_walk {names : List String} (walk : names.foldlM fs.step l = .ok d)
    (there : fs.entry? d = some .directory) : fs.entry? l = some .directory := by
  cases names with
  | nil =>
      cases walk
      exact there
  | cons name names =>
      rw [List.foldlM_cons] at walk
      cases stepped : fs.step l name with
      | error cause => simp [stepped, bind, Except.bind] at walk
      | ok l' => exact directory_of_step stepped

theorem walk_of_keeps
    (keeps : ∀ l, fs.entry? l = some .directory → fs'.entry? l = some .directory)
    {names : List String} (walk : names.foldlM fs.step l = .ok d)
    (there : fs.entry? d = some .directory) : names.foldlM fs'.step l = .ok d := by
  induction names generalizing l with
  | nil => exact walk
  | cons name names ih =>
      rw [List.foldlM_cons] at walk ⊢
      cases stepped : fs.step l name with
      | error cause => simp [stepped, bind, Except.bind] at walk
      | ok l' =>
          simp only [stepped, bind, Except.bind] at walk
          have same : fs'.step l name = .ok l' := by
            have here := directory_of_step stepped
            have next := directory_of_walk walk there
            simp only [step, here, keeps l here] at stepped ⊢
            split_ifs at stepped ⊢ with dot parent long present
            · exact stepped
            · exact stepped
            · exact stepped
            · cases stepped
              simp [keeps _ next] at present
          rw [same]
          exact ih walk

structure Reaches (fs : FileSystem) (directory : Path) (d : Location) : Prop where
  walk : directory.names.foldlM fs.step (fs.start directory) = .ok d
  there : fs.entry? d = some .directory

theorem start_congr {q : Path} (same : p.isAbsolute = q.isAbsolute) : fs.start p = fs.start q := by
  simp [start, same]

theorem Reaches.of_keeps (reaches : fs.Reaches directory d)
    (keeps : ∀ l, fs.entry? l = some .directory → fs'.entry? l = some .directory)
    (working : fs'.workingDirectory = fs.workingDirectory) : fs'.Reaches directory d where
  walk := by
    have start : fs'.start directory = fs.start directory := by simp [FileSystem.start, working]
    rw [start]
    exact walk_of_keeps keeps reaches.walk reaches.there
  there := keeps d reaches.there

theorem walk_steps (ends : p.EndsIn name directory) (reaches : fs.Reaches directory d)
    {dots dots' : List String} (still : ∀ dot ∈ dots, dot = ".")
    (steps : p.steps = directory.names ++ (dots ++ name :: dots')) :
    p.steps.foldlM fs.step (fs.start p) =
      fs.step d name >>= fun l => dots'.foldlM fs.step l := by
  rw [steps, List.foldlM_append, start_congr ends.absolute, reaches.walk]
  change (dots ++ name :: dots').foldlM fs.step d = _
  rw [List.foldlM_append, walk_here still reaches.there]
  rfl

theorem step_congr (same : fs'.entry? l = fs.entry? l)
    (same' : fs'.entry? (l ++ [name]) = fs.entry? (l ++ [name])) :
    fs'.step l name = fs.step l name := by
  simp only [step, same, same']

theorem readAt_here {dots : List String} (still : ∀ dot ∈ dots, dot = ".")
    (same : fs'.entry? l = fs.entry? l) :
    (dots.foldlM fs'.step l >>= fs'.readAt) = (dots.foldlM fs.step l >>= fs.readAt) := by
  have last : fs'.readAt l = fs.readAt l := by
    simp only [readAt, same]
  by_cases here : fs.entry? l = some .directory
  · rw [walk_here still here, walk_here still (same.trans here)]
    exact last
  · cases dots with
    | nil => exact last
    | cons dot dots =>
        have stuck (gs : FileSystem) (elsewhere : gs.entry? l ≠ some .directory) :
            gs.step l dot = .error .notDirectory := by
          unfold step
          split
          · exact absurd ‹_› elsewhere
          · rfl
        rw [List.foldlM_cons, List.foldlM_cons, stuck fs here, stuck fs' (same ▸ here)]
        rfl

theorem checkPath_of_checkLength (checked : checkLength p = .ok ()) : checkPath p = .ok () := by
  cases plain : checkPath p with
  | error cause => simp [checkLength, plain, bind, Except.bind] at checked
  | ok value => rfl

theorem read_congr (ends : p.EndsIn name directory) (reaches : fs.Reaches directory d)
    (reaches' : fs'.Reaches directory d)
    (same : fs'.entry? (d ++ [name]) = fs.entry? (d ++ [name])) : fs'.read p = fs.read p := by
  obtain ⟨dots, dots', still, still', steps⟩ := ends.exists_steps
  have split (gs : FileSystem) : gs.read p = checkLength p >>= fun _ => checkPath p >>= fun _ =>
      p.steps.foldlM gs.step (gs.start p) >>= gs.readAt := by
    simp only [read, canonicalize, bind_assoc]
  have stepped : fs'.step d name = fs.step d name :=
    step_congr (reaches'.there.trans reaches.there.symm) same
  rw [split, split, walk_steps ends reaches still steps, walk_steps ends reaches' still steps,
    stepped]
  cases found : fs.step d name with
  | error cause => rfl
  | ok l =>
      obtain ⟨-, -, -, rfl⟩ := (step_eq_ok ends.proper).mp found
      have walked := readAt_here still' same
      change _ = checkLength p >>= fun _ => checkPath p >>= fun _ =>
        dots'.foldlM fs.step (d ++ [name]) >>= fs.readAt
      rw [← walked]
      rfl

theorem read_of_getLast?_steps {bytes : Text.Bytes} (ends : p.EndsIn name directory)
    (reaches : fs.Reaches directory d) (checked : checkLength p = .ok ())
    (short : name.utf8ByteSize ≤ maxNameBytes) (last : p.steps.getLast? = some name)
    (there : fs.entry? (d ++ [name]) = some (.file bytes)) : fs.read p = .ok bytes := by
  obtain ⟨bare, dots, still, names⟩ := ends.names_of_getLast?_steps last
  have steps : p.steps = directory.names ++ (dots ++ name :: []) := by
    rw [Path.steps_eq_names bare, names]
  have taken : fs.step d name = .ok (d ++ [name]) :=
    (step_eq_ok ends.proper).mpr ⟨reaches.there, short, by simp [there], rfl⟩
  have found : fs.canonicalize p = .ok (d ++ [name]) := by
    rw [canonicalize_eq_ok, walk_steps ends reaches still steps, taken]
    exact ⟨checkPath_of_checkLength checked, rfl⟩
  rw [read, checked, found]
  exact readAt_eq_ok.mpr there

end FileSystem

end RuleLint.File
