import RuleLint.Image.Store
import RuleLint.Proofs.File.Changes
import RuleLint.Proofs.File.LastNames
import RuleLint.Proofs.Image.RoundTrip
import RuleLint.Proofs.Module.Directories

/-!
# What writing an image leaves

An image is written to a temporary file, which is then moved to the image file. If the temporary file
cannot be written nothing changes; if it cannot be moved it stays, and what is read at the path of the
image file is what was read before (`write_leaves`).
-/

namespace RuleLint.Image

open File (Path Location FileSystem Entry ProperName)
open File.FileSystem (checkLength entry? entry?_put entry?_erase)
open Text (Bytes)

def temporaryName (name : String) : String := "." ++ name ++ ".tmp"

/-- The temporary file for `path` can be written at `d`. -/
structure Staged (fs : FileSystem) (path : Path) (name : String) (d : Location) : Prop where
  reaches : ∃ directory, path.EndsIn name directory ∧ fs.Reaches directory d
  checked : checkLength (temporary path name) = .ok ()
  short : (temporaryName name).utf8ByteSize ≤ File.maxNameBytes
  free : fs.entry? (d ++ [temporaryName name]) ≠ some .directory

/-- A file in the directory at `d` can take the place of the image file: the path ends in the name
itself, without a slash or `/.` after it, and no directory goes by that name. -/
structure Replaceable (fs : FileSystem) (path : Path) (name : String) (d : Location) : Prop where
  checked : checkLength path = .ok ()
  last : path.steps.getLast? = some name
  free : fs.entry? (d ++ [name]) ≠ some .directory

def SameBut (places : List Location) (fs fs' : FileSystem) : Prop :=
  fs'.workingDirectory = fs.workingDirectory ∧ ∀ l ∉ places, fs'.entry? l = fs.entry? l

variable {fs fs' : FileSystem} {path directory : Path} {name : String} {d : Location} {bytes : Bytes}

/-! ## Temporary files -/

theorem toList_temporaryName : (temporaryName name).toList = '.' :: (name.toList ++ ".tmp".toList) := by
  simp [temporaryName]

theorem properName_temporaryName (proper : ProperName name) : ProperName (temporaryName name) := by
  have long : 5 ≤ (temporaryName name).toList.length := by
    simp [toList_temporaryName]
  have other (text : String) (short : text.toList.length < 5) : temporaryName name ≠ text := by
    intro same
    rw [same] at long
    omega
  refine ⟨other _ (by decide), ?_, other _ (by decide), other _ (by decide)⟩
  rw [toList_temporaryName]
  simpa using proper.noSlash

theorem ne_temporaryName : name ≠ temporaryName name := by
  intro same
  have lengths := congrArg (fun text : String => text.toList.length) same
  simp only [toList_temporaryName, List.length_cons, List.length_append] at lengths
  omega

theorem short_of_temporaryName (short : (temporaryName name).utf8ByteSize ≤ File.maxNameBytes) :
    name.utf8ByteSize ≤ File.maxNameBytes := by
  simp only [temporaryName, String.utf8ByteSize_append] at short
  omega

theorem temporary_eq (ends : path.EndsIn name directory) :
    temporary path name = directory.join (temporaryName name) := by
  rw [temporary, Path.sibling, ends.parent]
  rfl

def staging (fs : FileSystem) (name : String) (d : Location) (bytes : Bytes) : FileSystem :=
  fs.put (d ++ [temporaryName name]) (.file bytes)

def replaced (fs : FileSystem) (name : String) (d : Location) (bytes : Bytes) : FileSystem :=
  ((staging fs name d bytes).erase (d ++ [temporaryName name])).put (d ++ [name]) (.file bytes)

theorem write_temporary_eq_ok (named : path.fileName? = some name) :
    fs.write (temporary path name) bytes = .ok fs' ↔
      ∃ d, Staged fs path name d ∧ fs' = staging fs name d bytes := by
  obtain ⟨directory, ends⟩ := Path.exists_endsIn named
  have only {other : Path} (ends' : path.EndsIn name other) : other = directory :=
    Option.some.inj (ends'.parent.symm.trans ends.parent)
  have proper := properName_temporaryName ends.proper
  rw [temporary_eq ends, File.FileSystem.write_join_eq_ok proper]
  constructor
  · rintro ⟨checked, short, d, reaches, free, rfl⟩
    exact ⟨d, ⟨⟨directory, ends, reaches⟩, temporary_eq ends ▸ checked, short, free⟩, rfl⟩
  · rintro ⟨d, ⟨⟨other, ends', reaches⟩, checked, short, free⟩, rfl⟩
    exact ⟨temporary_eq ends ▸ checked, short, d, only ends' ▸ reaches, free, rfl⟩

/-! ## The tree with the temporary file -/

theorem entry?_staging (l : Location) : entry? (staging fs name d bytes) l =
    if l = d ++ [temporaryName name] then some (.file bytes) else fs.entry? l :=
  entry?_put (by simp) _ l

theorem entry?_staging_name : entry? (staging fs name d bytes) (d ++ [name]) =
    fs.entry? (d ++ [name]) := by
  rw [entry?_staging, if_neg (by simpa using ne_temporaryName)]

section

variable (staged : Staged fs path name d)
include staged

theorem Staged.keeps (l : Location) (there : fs.entry? l = some .directory) :
    entry? (staging fs name d bytes) l = some .directory := by
  rw [entry?_staging, if_neg]
  · exact there
  · rintro rfl
    exact staged.free there

theorem Staged.read_staging : (staging fs name d bytes).read path = fs.read path := by
  obtain ⟨directory, ends, reaches⟩ := staged.reaches
  exact File.FileSystem.read_congr ends reaches (reaches.of_keeps staged.keeps rfl)
    entry?_staging_name

theorem Staged.rename_eq_ok :
    (staging fs name d bytes).rename (temporary path name) path = .ok fs' ↔
      Replaceable fs path name d ∧ fs' = replaced fs name d bytes := by
  obtain ⟨directory, ends, reaches⟩ := staged.reaches
  have checked := staged.checked
  have written : entry? (staging fs name d bytes) (d ++ [temporaryName name]) =
      some (.file bytes) := by
    rw [entry?_staging, if_pos rfl]
  rw [temporary_eq ends] at checked ⊢
  rw [File.FileSystem.rename_join_eq_ok ends (properName_temporaryName ends.proper) checked
    (reaches.of_keeps staged.keeps rfl) staged.short written, entry?_staging_name]
  constructor
  · rintro ⟨checked, -, last, free, same⟩
    exact ⟨⟨checked, last, free⟩, same⟩
  · rintro ⟨⟨checked, last, free⟩, same⟩
    exact ⟨checked, short_of_temporaryName staged.short, last, free, same⟩

end

theorem Staged.entryName (staged : Staged fs path name d) (replaceable : Replaceable fs path name d) :
    File.EntryName name := by
  obtain ⟨directory, ends, -⟩ := staged.reaches
  have plain := File.FileSystem.checkPath_eq_ok.mp
    (File.FileSystem.checkPath_of_checkLength replaceable.checked)
  exact ⟨ends.proper, fun nul => plain.1 (Path.mem_of_fileName? ends.named nul),
    short_of_temporaryName staged.short⟩

/-! ## The tree with the image file -/

section

variable (tree : fs.IsTree) (staged : Staged fs path name d)
include tree staged

theorem Staged.entry?_replaced (l : Location) : entry? (replaced fs name d bytes) l =
    if l = d ++ [name] then some (.file bytes)
    else if l = d ++ [temporaryName name] then none
    else fs.entry? l := by
  rw [replaced, entry?_put (by simp), entry?_erase (by simp), entry?_staging]
  by_cases here : l = d ++ [temporaryName name]
  · simp [here]
  · rw [if_neg here, if_neg here]
    by_cases under : d ++ [temporaryName name] <+: l
    · rw [if_pos under, tree.entry?_below staged.free under here]
    · rw [if_neg under]

theorem Staged.keeps_replaced (replaceable : Replaceable fs path name d) (l : Location)
    (there : fs.entry? l = some .directory) :
    entry? (replaced fs name d bytes) l = some .directory := by
  rw [staged.entry?_replaced tree, if_neg, if_neg]
  · exact there
  · rintro rfl
    exact staged.free there
  · rintro rfl
    exact replaceable.free there

theorem Staged.read_replaced (replaceable : Replaceable fs path name d) :
    (replaced fs name d bytes).read path = .ok bytes := by
  obtain ⟨directory, ends, reaches⟩ := staged.reaches
  have keeps (l : Location) : fs.entry? l = some .directory →
      entry? (replaced fs name d bytes) l = some .directory :=
    staged.keeps_replaced tree replaceable l
  apply File.FileSystem.read_of_getLast?_steps ends (reaches.of_keeps keeps rfl) replaceable.checked
    (short_of_temporaryName staged.short) replaceable.last
  rw [staged.entry?_replaced tree, if_pos rfl]

theorem Staged.isTree_replaced (replaceable : Replaceable fs path name d) :
    (replaced fs name d bytes).IsTree := by
  obtain ⟨directory, -, reaches⟩ := staged.reaches
  have keeps (l : Location) : fs.entry? l = some .directory →
      entry? (replaced fs name d bytes) l = some .directory :=
    staged.keeps_replaced tree replaceable l
  have others {l : Location} {e : Entry} (present : entry? (replaced fs name d bytes) l = some e) :
      l = d ++ [name] ∨ ∃ e, fs.entry? l = some e := by
    rw [staged.entry?_replaced tree] at present
    split_ifs at present with here gone
    · exact .inl here
    · exact .inr ⟨e, present⟩
  refine ⟨fun present => ?_, fun present => ?_, keeps _ tree.working⟩
  · rcases others present with rfl | ⟨e, present⟩
    · intro n member
      rcases List.mem_append.mp member with before | last
      · exact tree.named reaches.there n before
      · exact List.mem_singleton.mp last ▸ staged.entryName replaceable
    · exact tree.named present
  · rcases others present with here | ⟨e, present⟩
    · obtain ⟨rfl, -⟩ := List.append_inj' here rfl
      exact keeps _ reaches.there
    · exact keeps _ (tree.parent present)

end

/-! ## Outcomes -/

theorem not_staged (named : path.fileName? = some name)
    (failed : ∀ fs', fs.write (temporary path name) bytes ≠ .ok fs') (other : String)
    (d : Location) : ¬ Staged fs path other d := by
  intro staged
  obtain ⟨directory, ends, -⟩ := staged.reaches
  obtain rfl : other = name := Option.some.inj (ends.named.symm.trans named)
  exact failed _ ((write_temporary_eq_ok named).mpr ⟨d, staged, rfl⟩)

theorem write_cases (fs : FileSystem) (path : Path) (image : Image) :
    (∃ cause, write fs path image = (.error cause, fs) ∧ ∀ name d, ¬ Staged fs path name d) ∨
      ∃ name d, Staged fs path name d ∧
        ((Replaceable fs path name d ∧
            write fs path image = (.ok (), replaced fs name d image.encode)) ∨
          (¬ Replaceable fs path name d ∧ ∃ cause,
            write fs path image = (.error cause, staging fs name d image.encode))) := by
  cases named : path.fileName? with
  | none =>
      refine .inl ⟨.invalidPath path, by simp only [write, named], fun name d staged => ?_⟩
      obtain ⟨directory, ends, -⟩ := staged.reaches
      cases named.symm.trans ends.named
  | some name =>
      cases written : fs.write (temporary path name) image.encode with
      | error cause =>
          have failed (fs' : FileSystem) :
              fs.write (temporary path name) image.encode ≠ .ok fs' := by
            rw [written]
            nofun
          exact .inl ⟨.io cause, by simp only [write, named, written], not_staged named failed⟩
      | ok staging' =>
          obtain ⟨d, staged, rfl⟩ := (write_temporary_eq_ok named).mp written
          refine .inr ⟨name, d, staged, ?_⟩
          cases moved : (staging fs name d image.encode).rename (temporary path name) path with
          | error cause =>
              refine .inr ⟨fun replaceable => ?_, .io cause, ?_⟩
              · rw [staged.rename_eq_ok.mpr ⟨replaceable, rfl⟩] at moved
                cases moved
              · simp only [write, named, written, moved]
          | ok fs' =>
              obtain ⟨replaceable, rfl⟩ := staged.rename_eq_ok.mp moved
              exact .inl ⟨replaceable, by simp only [write, named, written, moved]⟩

theorem exists_of_write {image : Image} (written : write fs path image = (.ok (), fs')) :
    ∃ name d, Staged fs path name d ∧ Replaceable fs path name d ∧
      fs' = replaced fs name d image.encode := by
  rcases write_cases fs path image with
    ⟨cause, failed, -⟩ | ⟨name, d, staged, ⟨replaceable, stored⟩ | ⟨-, cause, failed⟩⟩
  · cases failed.symm.trans written
  · cases stored.symm.trans written
    exact ⟨name, d, staged, replaceable, rfl⟩
  · cases failed.symm.trans written

/-- Writing succeeds where the temporary file can be written and the image file replaced, and then
the image file holds the image and the temporary file is gone. Where it fails the content of the image
file is what it was, but the temporary file stays if it could be written. Nothing else changes. -/
theorem write_leaves (tree : fs.IsTree) (path : Path) (image : Image) :
    match write fs path image with
    | (.ok (), fs') =>
      ∃ name d, Staged fs path name d ∧ Replaceable fs path name d ∧
        fs'.read path = .ok image.encode ∧
        (image.payload.length < 2 ^ 32 → decode image.encode = .ok image) ∧
        fs'.entry? (d ++ [temporaryName name]) = none ∧
        SameBut [d ++ [name], d ++ [temporaryName name]] fs fs'
    | (.error _, fs') =>
      (fs' = fs ∧ ∀ name d, ¬ Staged fs path name d) ∨
      ∃ name d, Staged fs path name d ∧ ¬ Replaceable fs path name d ∧
        fs'.read path = fs.read path ∧
        fs'.entry? (d ++ [temporaryName name]) = some (.file image.encode) ∧
        SameBut [d ++ [temporaryName name]] fs fs' := by
  have cases := write_cases fs path image
  generalize write fs path image = result at cases
  rcases cases with
    ⟨cause, rfl, unstaged⟩ | ⟨name, d, staged, ⟨replaceable, rfl⟩ | ⟨kept, cause, rfl⟩⟩
  · exact .inl ⟨rfl, unstaged⟩
  · refine ⟨name, d, staged, replaceable, staged.read_replaced tree replaceable, fun short => ?_, ?_,
      rfl, fun l elsewhere => ?_⟩
    · rw [decode_encode_eq, if_pos short]
    · rw [staged.entry?_replaced tree, if_neg (by simpa using ne_temporaryName.symm), if_pos rfl]
    · simp only [List.mem_cons, List.not_mem_nil, or_false, not_or] at elsewhere
      rw [staged.entry?_replaced tree, if_neg elsewhere.1, if_neg elsewhere.2]
  · refine .inr ⟨name, d, staged, kept, staged.read_staging, ?_, rfl, fun l elsewhere => ?_⟩
    · rw [entry?_staging, if_pos rfl]
    · rw [entry?_staging, if_neg (by simpa using elsewhere)]

/-! A directory goes by the name of the image file, so the temporary file stays. -/

namespace Occupied

def image : Image := .referring "A" []

def files : FileSystem where
  entries := [(["A.rmod"], .directory)]
  workingDirectory := []

theorem isTree : files.IsTree := isTree_of_entries (by decide) rfl

theorem write_beside : (write files ⟨"B.rmod"⟩ image).1 = .ok () := by decide +kernel

theorem write_over : (write files ⟨"A.rmod"⟩ image).1 = .error (.io .isDirectory) ∧
    entry? (write files ⟨"A.rmod"⟩ image).2 [".A.rmod.tmp"] = some (.file image.encode) := by
  decide +kernel

theorem leaves : files.IsTree ∧ (write files ⟨"B.rmod"⟩ image).2.read ⟨"B.rmod"⟩ = .ok image.encode ∧
    ∃ name d, Staged files ⟨"A.rmod"⟩ name d ∧ ¬ Replaceable files ⟨"A.rmod"⟩ name d ∧
      entry? (write files ⟨"A.rmod"⟩ image).2 (d ++ [temporaryName name]) =
        some (.file image.encode) := by
  refine ⟨isTree, ?_, ?_⟩
  · have leaves := write_leaves isTree ⟨"B.rmod"⟩ image
    have stored := write_beside
    cases result : write files ⟨"B.rmod"⟩ image with
    | mk outcome fs' =>
        rw [result] at leaves stored
        cases stored
        obtain ⟨name, d, -, -, read, -⟩ := leaves
        exact read
  · have leaves := write_leaves isTree ⟨"A.rmod"⟩ image
    have failed := write_over
    cases result : write files ⟨"A.rmod"⟩ image with
    | mk outcome fs' =>
        rw [result] at leaves failed
        obtain ⟨refused, present⟩ := failed
        cases refused
        dsimp only at leaves
        rcases leaves with ⟨rfl, -⟩ | ⟨name, d, staged, kept, -, stays, -⟩
        · cases present
        · exact ⟨name, d, staged, kept, stays⟩

theorem leaves_temporary : files.entry? [".A.rmod.tmp"] = none ∧
    (write files ⟨"A.rmod"⟩ image).1 = .error (.io .isDirectory) ∧
    entry? (write files ⟨"A.rmod"⟩ image).2 [".A.rmod.tmp"] = some (.file image.encode) :=
  ⟨rfl, write_over⟩

end Occupied

end RuleLint.Image
