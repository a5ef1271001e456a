import Mathlib.Data.List.Induction
import RuleLint.Proofs.File.Paths

namespace RuleLint.File

open Text (Bytes)

structure EntryName (name : String) : Prop extends ProperName name where
  noNul : '\x00' ∉ name.toList
  short : name.utf8ByteSize ≤ maxNameBytes

instance (name : String) : Decidable (EntryName name) :=
  decidable_of_iff ((name ≠ "" ∧ '/' ∉ name.toList ∧ name ≠ "." ∧ name ≠ "..") ∧
      '\x00' ∉ name.toList ∧ name.utf8ByteSize ≤ maxNameBytes)
    ⟨fun ⟨⟨nonempty, noSlash, notHere, notParent⟩, noNul, short⟩ =>
        ⟨⟨nonempty, noSlash, notHere, notParent⟩, noNul, short⟩,
      fun ⟨⟨nonempty, noSlash, notHere, notParent⟩, noNul, short⟩ =>
        ⟨⟨nonempty, noSlash, notHere, notParent⟩, noNul, short⟩⟩

/-- A file system as a tree: whatever stands somewhere stands in a directory and has a name. -/
structure FileSystem.IsTree (fs : FileSystem) : Prop where
  named : ∀ {l e}, fs.entry? l = some e → ∀ name ∈ l, EntryName name
  parent : ∀ {l name e}, fs.entry? (l ++ [name]) = some e → fs.entry? l = some .directory
  working : fs.entry? fs.workingDirectory = some .directory

namespace FileSystem

variable {fs : FileSystem} {l l' : Location} {name : String}

@[simp] theorem entry?_nil : fs.entry? [] = some .directory := if_pos rfl

theorem readAt_eq_ok {bytes : Bytes} :
    fs.readAt l = .ok bytes ↔ fs.entry? l = some (.file bytes) := by
  unfold readAt
  split <;> simp_all

theorem ne_nil_of_readAt {bytes : Bytes} (read : fs.readAt l = .ok bytes) : l ≠ [] := by
  rintro rfl
  rw [readAt_eq_ok, entry?_nil] at read
  cases read

theorem step_eq_ok (proper : ProperName name) :
    fs.step l name = .ok l' ↔
      fs.entry? l = some .directory ∧ name.utf8ByteSize ≤ maxNameBytes ∧
        (fs.entry? (l ++ [name])).isSome ∧ l' = l ++ [name] := by
  unfold step
  split
  · rename_i directory
    simp only [proper.notHere, proper.notParent, if_false, directory, true_and]
    split
    · rename_i long
      simp only [reduceCtorEq, false_iff]
      omega
    · rename_i short
      split
      · rename_i present
        simp only [Except.ok.injEq, present, true_and]
        exact ⟨fun same => ⟨by omega, same.symm⟩, fun same => same.2.symm⟩
      · rename_i absent
        simp [absent]
  · rename_i other
    simp only [reduceCtorEq, false_iff]
    intro directory
    exact other directory.1

theorem checkPath_eq_ok {p : Path} :
    checkPath p = .ok () ↔ '\x00' ∉ p.text.toList ∧ p.text ≠ "" := by
  unfold checkPath
  split
  · simp_all
  · split <;> simp_all

theorem canonicalize_eq_ok {p : Path} :
    fs.canonicalize p = .ok l ↔
      checkPath p = .ok () ∧ p.steps.foldlM fs.step (fs.start p) = .ok l := by
  unfold canonicalize
  cases checkPath p with
  | error cause => simp [bind, Except.bind]
  | ok value => simp [bind, Except.bind]

theorem canonicalize_join {directory : Path} (proper : ProperName name)
    (found : fs.canonicalize (directory.join name) = .ok l) : ∃ parent, l = parent ++ [name] := by
  have walk := (canonicalize_eq_ok.mp found).2
  rw [Path.steps_join directory proper, List.foldlM_append] at walk
  cases before : directory.names.foldlM fs.step (fs.start (directory.join name)) with
  | error cause => simp [before, bind, Except.bind] at walk
  | ok parent =>
      simp only [before, bind, Except.bind, List.foldlM_cons, List.foldlM_nil] at walk
      cases last : fs.step parent name with
      | error cause => simp [last] at walk
      | ok place =>
          simp only [last, pure, Except.pure, Except.ok.injEq] at walk
          exact ⟨parent, walk ▸ ((step_eq_ok proper).mp last).2.2.2⟩

end FileSystem

theorem mem_intercalate {α : Type} {separator c : α} {pieces : List (List α)}
    (member : c ∈ [separator].intercalate pieces) : c = separator ∨ ∃ piece ∈ pieces, c ∈ piece := by
  induction pieces with
  | nil => simp at member
  | cons piece pieces ih =>
      by_cases last : pieces = []
      · subst last
        exact .inr ⟨piece, by simp, by simpa using member⟩
      · rw [List.intercalate_cons_of_ne_nil last] at member
        simp only [List.mem_append, List.mem_singleton] at member
        rcases member with (first | between) | later
        · exact .inr ⟨piece, by simp, first⟩
        · exact .inl between
        · rcases ih later with same | ⟨other, inside, here⟩
          · exact .inl same
          · exact .inr ⟨other, List.mem_cons_of_mem _ inside, here⟩

namespace Location

variable {l : Location}

theorem path_toList :
    (Location.path l).text.toList = '/' :: ['/'].intercalate (l.map String.toList) := by
  simp [Location.path]

theorem isAbsolute_path : (Location.path l).isAbsolute = true := by
  simp [Path.isAbsolute, path_toList]

theorem names_path (proper : ∀ name ∈ l, ProperName name) : (Location.path l).names = l := by
  have root : ('/' :: ['/'].intercalate (l.map String.toList)).splitOn '/' =
      [] :: (['/'].intercalate (l.map String.toList)).splitOn '/' := by
    simp [List.splitOn_cons_eq_if_modifyHead]
  by_cases empty : l = []
  · subst empty
    decide
  · have whole : (['/'].intercalate (l.map String.toList)).splitOn '/' = l.map String.toList := by
      apply List.splitOn_intercalate
      · intro piece inside
        obtain ⟨name, member, rfl⟩ := List.mem_map.mp inside
        exact (proper name member).noSlash
      · simpa using empty
    rw [Path.names, Path.pieces, Text.splitOn_eq_list_splitOn, path_toList, root, whole]
    have back : (l.map String.toList).map String.ofList = l := by
      simp [Function.comp_def]
    have kept : l.filter (· ≠ "") = l := by
      rw [List.filter_eq_self]
      intro name member
      simpa using (proper name member).nonempty
    simp only [List.map_cons, back]
    simpa using kept

theorem checkPath_path (named : ∀ name ∈ l, EntryName name) :
    FileSystem.checkPath (Location.path l) = .ok () := by
  rw [FileSystem.checkPath_eq_ok, path_toList]
  constructor
  · intro nul
    rcases List.mem_cons.mp nul with slash | inside
    · exact absurd slash (by decide)
    · rcases mem_intercalate inside with slash | ⟨piece, member, here⟩
      · exact absurd slash (by decide)
      · obtain ⟨name, place, rfl⟩ := List.mem_map.mp member
        exact (named name place).noNul here
  · intro empty
    have text := path_toList (l := l)
    simp [empty] at text

end Location

namespace FileSystem.IsTree

variable {fs : FileSystem} {l : Location} {e : Entry}

theorem directory_of_present (tree : fs.IsTree) (present : fs.entry? l = some e) :
    fs.entry? l.dropLast = some .directory := by
  cases l using List.reverseRecOn with
  | nil => exact FileSystem.entry?_nil
  | append_singleton l name =>
      rw [List.dropLast_concat]
      exact tree.parent present

theorem walk (tree : fs.IsTree) (present : fs.entry? l = some e) :
    l.foldlM fs.step [] = .ok l := by
  induction l using List.reverseRecOn generalizing e with
  | nil => rfl
  | append_singleton l name ih =>
      have directory := tree.parent present
      have proper := tree.named present name (by simp)
      have last : fs.step l name = .ok (l ++ [name]) :=
        (FileSystem.step_eq_ok proper.toProperName).mpr
          ⟨directory, proper.short, by simp [present], rfl⟩
      rw [List.foldlM_append, ih directory]
      simp [bind, Except.bind, pure, Except.pure, last]

theorem names_path (tree : fs.IsTree) (present : fs.entry? l = some e) :
    (Location.path l).names = l :=
  Location.names_path fun name member => (tree.named present name member).toProperName

theorem canonicalize_join_eq (tree : fs.IsTree) {name : String}
    (directory : fs.entry? l = some .directory) (proper : ProperName name) :
    fs.canonicalize ((Location.path l).join name) =
      (FileSystem.checkPath ((Location.path l).join name)).bind fun _ => fs.step l name := by
  have start : fs.start ((Location.path l).join name) = [] := by
    simp [FileSystem.start, Path.isAbsolute_join _ proper, Location.isAbsolute_path]
  have walked : ((Location.path l).join name).steps.foldlM fs.step
      (fs.start ((Location.path l).join name)) = fs.step l name := by
    rw [start, Path.steps_join _ proper, tree.names_path directory, List.foldlM_append,
      tree.walk directory]
    cases last : fs.step l name <;> simp [bind, Except.bind, pure, Except.pure, last]
  rw [FileSystem.canonicalize, walked]
  rfl

theorem canonicalize_join_eq_ok (tree : fs.IsTree) {name : String} {l' : Location}
    (directory : fs.entry? l = some .directory) (proper : ProperName name) :
    fs.canonicalize ((Location.path l).join name) = .ok l' ↔
      l' = l ++ [name] ∧ (fs.entry? (l ++ [name])).isSome := by
  rw [tree.canonicalize_join_eq directory proper]
  constructor
  · intro walked
    cases checked : FileSystem.checkPath ((Location.path l).join name) with
    | error cause => simp [checked, Except.bind] at walked
    | ok value =>
        simp only [checked, Except.bind] at walked
        obtain ⟨-, -, present, same⟩ := (FileSystem.step_eq_ok proper).mp walked
        exact ⟨same, present⟩
  · rintro ⟨same, present⟩
    obtain ⟨e, there⟩ := Option.isSome_iff_exists.mp present
    have named := tree.named there
    have last : fs.step l name = .ok l' :=
      (FileSystem.step_eq_ok proper).mpr ⟨directory, (named name (by simp)).short, present, same⟩
    have checked : FileSystem.checkPath ((Location.path l).join name) = .ok () := by
      rw [FileSystem.checkPath_eq_ok]
      constructor
      · intro nul
        have above := FileSystem.checkPath_eq_ok.mp (Location.checkPath_path (tree.named directory))
        rcases Path.mem_join proper nul with before | slash | inside
        · exact above.1 before
        · exact absurd slash (by decide)
        · exact (named name (by simp)).noNul inside
      · exact Path.join_ne_empty _ proper
    simp only [checked, Except.bind, last]

theorem canonicalize_join_congr {fs' : FileSystem} (tree : fs.IsTree) (tree' : fs'.IsTree)
    {name : String} (directory : fs.entry? l = some .directory)
    (directory' : fs'.entry? l = some .directory) (proper : ProperName name)
    (same : fs'.entry? (l ++ [name]) = fs.entry? (l ++ [name])) :
    fs'.canonicalize ((Location.path l).join name) =
      fs.canonicalize ((Location.path l).join name) := by
  have step : fs'.step l name = fs.step l name := by
    simp only [FileSystem.step, directory, directory', same]
  rw [tree.canonicalize_join_eq directory proper, tree'.canonicalize_join_eq directory' proper, step]

theorem canonicalize_present (tree : fs.IsTree) {p : Path} (found : fs.canonicalize p = .ok l) :
    ∃ e, fs.entry? l = some e := by
  have walk := (FileSystem.canonicalize_eq_ok.mp found).2
  have began : ∃ e, fs.entry? (fs.start p) = some e := by
    unfold FileSystem.start
    split
    · exact ⟨_, FileSystem.entry?_nil⟩
    · exact ⟨_, tree.working⟩
  generalize p.steps = names at walk
  generalize fs.start p = here at walk began
  induction names generalizing here with
  | nil =>
      cases walk
      exact began
  | cons name names ih =>
      rw [List.foldlM_cons] at walk
      cases step : fs.step here name with
      | error cause => simp [step, bind, Except.bind] at walk
      | ok next =>
          simp only [step, bind, Except.bind] at walk
          apply ih next walk
          unfold FileSystem.step at step
          split at step
          · rename_i directory
            split at step
            · cases step
              exact began
            · split at step
              · cases step
                exact ⟨_, tree.directory_of_present directory⟩
              · split at step
                · cases step
                · split at step
                  · rename_i present
                    cases step
                    exact Option.isSome_iff_exists.mp present
                  · cases step
          · cases step

end FileSystem.IsTree

end RuleLint.File
