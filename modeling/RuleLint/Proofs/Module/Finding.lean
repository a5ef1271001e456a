import RuleLint.Module.Linking
import RuleLint.Proofs.File.Trees

namespace RuleLint

open File (Path Location FileSystem Entry ProperName)
open Text (Bytes)

def imageFile (extension name : String) : String := name ++ "." ++ extension

theorem imageFile_injective {extension name name' : String}
    (same : imageFile extension name = imageFile extension name') : name = name' := by
  apply String.toList_injective
  have texts := congrArg String.toList same
  simpa [imageFile] using texts

theorem isPlainName_iff {name : String} :
    isPlainName name = true ↔ name ≠ "" ∧ name ≠ "." ∧ name ≠ ".." ∧
      ∀ c ∈ name.toList, c ≠ '/' ∧ c ≠ '\\' ∧ c ≠ '\x00' := by
  simp [isPlainName, and_assoc]

theorem properName_imageFile {extension name : String} (plain : isPlainName name = true)
    (noSlash : '/' ∉ extension.toList) : ProperName (imageFile extension name) := by
  obtain ⟨nonempty, notHere, -, characters⟩ := isPlainName_iff.mp plain
  have text : (imageFile extension name).toList = name.toList ++ '.' :: extension.toList := by
    simp [imageFile]
  have some : name.toList ≠ [] := by
    simpa using nonempty
  obtain ⟨c, cs, spelled⟩ := List.exists_cons_of_ne_nil some
  refine ⟨?_, ?_, ?_, ?_⟩
  · intro same
    simp [same] at text
  · rw [text]
    intro slash
    rcases List.mem_append.mp slash with before | after
    · exact (characters _ before).1 rfl
    · rcases List.mem_cons.mp after with point | inside
      · exact absurd point (by decide)
      · exact noSlash inside
  · intro same
    simp [same, spelled] at text
  · intro same
    have letters : ['.', '.'] = c :: (cs ++ '.' :: extension.toList) := by
      simpa [same, spelled] using text
    obtain ⟨first, rest⟩ := List.cons.inj letters
    have alone : cs = [] := by
      cases cs with
      | nil => rfl
      | cons d ds => simp at rest
    apply notHere
    apply String.toList_injective
    simp [spelled, alone, ← first]

namespace Scope

variable {s : Scope} {fs : FileSystem} {name : String} {location : Location} {bytes : Bytes}

theorem resolveFile_eq_ok :
    s.resolveFile fs name = .ok (location, bytes) ↔
      ∃ path, candidate? s.directory s.extension name = some path ∧
        fs.canonicalize path = .ok location ∧ fs.readAt location = .ok bytes := by
  unfold resolveFile
  cases candidate? s.directory s.extension name with
  | none => simp
  | some path =>
      cases found : fs.canonicalize path with
      | error cause =>
          simp only [bind, Except.bind, Option.some.injEq, exists_eq_left', found, reduceCtorEq,
            false_and, iff_false]
          split <;> simp_all
      | ok place =>
          cases read : fs.readAt place with
          | error cause =>
              simp only [bind, Except.bind, read, Option.some.injEq, exists_eq_left', found,
                Except.ok.injEq]
              split
              · simp_all
              · simp only [reduceCtorEq, false_iff, not_and]
                intro same
                simp [← same, read]
              · simp only [reduceCtorEq, false_iff, not_and]
                intro same
                simp [← same, read]
          | ok contents =>
              simp only [bind, Except.bind, pure, Except.pure, read, Except.ok.injEq, Prod.mk.injEq,
                Option.some.injEq, exists_eq_left', found]
              constructor
              · rintro ⟨rfl, rfl⟩
                exact ⟨rfl, read⟩
              · rintro ⟨rfl, same⟩
                rw [read] at same
                exact ⟨rfl, Except.ok.inj same⟩

theorem candidate?_eq_some {directory path : Path} {extension : String} :
    candidate? directory extension name = some path ↔
      isPlainName name = true ∧ path = directory.join (imageFile extension name) := by
  unfold candidate? imageFile
  split
  · rename_i plain
    simp only [Option.some.injEq, plain, true_and]
    exact eq_comm
  · rename_i refused
    simp [refused]

theorem resolve_eq_host : s.resolve fs name = .host ↔ name ∈ s.hosts := by
  unfold resolve
  split
  · simp_all
  · rename_i absent
    simp only [List.contains_iff_mem] at absent
    split <;> simp [absent]

theorem resolve_eq_image :
    s.resolve fs name = .image location bytes ↔
      name ∉ s.hosts ∧ s.resolveFile fs name = .ok (location, bytes) := by
  unfold resolve
  split
  · simp_all
  · rename_i absent
    simp only [List.contains_iff_mem] at absent
    split <;> simp_all

theorem getLast?_of_resolveFile (noSlash : '/' ∉ s.extension.toList)
    (found : s.resolveFile fs name = .ok (location, bytes)) :
    location.getLast? = some (imageFile s.extension name) := by
  obtain ⟨path, plain, leads, -⟩ := resolveFile_eq_ok.mp found
  obtain ⟨proper, rfl⟩ := candidate?_eq_some.mp plain
  obtain ⟨parent, rfl⟩ := FileSystem.canonicalize_join (properName_imageFile proper noSlash) leads
  simp

theorem resolveFile_in_tree (tree : fs.IsTree) {directory : Location}
    (present : fs.entry? directory = some .directory) (place : s.directory = directory.path)
    (noSlash : '/' ∉ s.extension.toList) :
    s.resolveFile fs name = .ok (location, bytes) ↔ isPlainName name = true ∧
      location = directory ++ [imageFile s.extension name] ∧ fs.readAt location = .ok bytes := by
  rw [resolveFile_eq_ok]
  constructor
  · rintro ⟨path, plain, leads, read⟩
    obtain ⟨proper, rfl⟩ := candidate?_eq_some.mp plain
    rw [place, tree.canonicalize_join_eq_ok present (properName_imageFile proper noSlash)] at leads
    exact ⟨proper, leads.1, read⟩
  · rintro ⟨proper, rfl, read⟩
    refine ⟨_, candidate?_eq_some.mpr ⟨proper, rfl⟩, ?_, read⟩
    rw [place, tree.canonicalize_join_eq_ok present (properName_imageFile proper noSlash)]
    rw [FileSystem.readAt_eq_ok] at read
    simp [read]

theorem resolve_congr {fs' : FileSystem} (tree : fs.IsTree) (tree' : fs'.IsTree)
    {directory : Location} (present : fs.entry? directory = some .directory)
    (present' : fs'.entry? directory = some .directory) (place : s.directory = directory.path)
    (noSlash : '/' ∉ s.extension.toList)
    (same : name ∉ s.hosts → fs'.entry? (directory ++ [imageFile s.extension name]) =
      fs.entry? (directory ++ [imageFile s.extension name])) :
    s.resolve fs' name = s.resolve fs name := by
  by_cases hosted : name ∈ s.hosts
  · rw [resolve_eq_host.mpr hosted, resolve_eq_host.mpr hosted]
  · have files : s.resolveFile fs' name = s.resolveFile fs name := by
      unfold resolveFile
      cases plain : candidate? s.directory s.extension name with
      | none => rfl
      | some path =>
          obtain ⟨named, rfl⟩ := candidate?_eq_some.mp plain
          have proper := properName_imageFile named noSlash
          have leads := tree.canonicalize_join_congr tree' present present' proper (same hosted)
          simp only [place, leads]
          cases found : fs.canonicalize (directory.path.join (imageFile s.extension name)) with
          | error cause => rfl
          | ok location =>
              obtain ⟨rfl, -⟩ := (tree.canonicalize_join_eq_ok present proper).mp found
              have read : fs'.readAt (directory ++ [imageFile s.extension name]) =
                  fs.readAt (directory ++ [imageFile s.extension name]) := by
                simp only [FileSystem.readAt, same hosted]
              simp only [bind, Except.bind, read]
    simp only [resolve, files]

theorem location_of_resolve (tree : fs.IsTree) {directory : Location}
    (present : fs.entry? directory = some .directory) (place : s.directory = directory.path)
    (noSlash : '/' ∉ s.extension.toList) (resolved : s.resolve fs name = .image location bytes) :
    location = directory ++ [imageFile s.extension name] :=
  ((resolveFile_in_tree tree present place noSlash).mp (resolve_eq_image.mp resolved).2).2.1

/-- No file is found under two names. -/
def Separates (s : Scope) (fs : FileSystem) : Prop :=
  ∀ {name name' location bytes bytes'}, s.resolveFile fs name = .ok (location, bytes) →
    s.resolveFile fs name' = .ok (location, bytes') → name = name'

theorem separates_of_noSlash (noSlash : '/' ∉ s.extension.toList) : s.Separates fs := by
  intro name name' location bytes bytes' found found'
  have called := getLast?_of_resolveFile noSlash found
  rw [getLast?_of_resolveFile noSlash found'] at called
  exact (imageFile_injective (Option.some.inj called)).symm

end Scope

theorem image_unique {fs : FileSystem} {location : Location} {bytes bytes' : Bytes}
    {image image' : Image} (read : fs.readAt location = .ok bytes)
    (decoded : Image.decode bytes = .ok image) (read' : fs.readAt location = .ok bytes')
    (decoded' : Image.decode bytes' = .ok image') : bytes = bytes' ∧ image = image' := by
  rw [read] at read'
  cases read'
  rw [decoded] at decoded'
  exact ⟨rfl, Except.ok.inj decoded'⟩

/-- What a look at the files makes of a reference. -/
inductive Finding
  | host
  | refused (probes : List Probe)
  | image (location : Location) (bytes : Bytes) (image : Image)

namespace Scope

variable {s : Scope} {fs : FileSystem} {name : String}

def find (s : Scope) (fs : FileSystem) (name : String) : Finding :=
  match s.resolve fs name with
  | .host => .host
  | .declined probes => .refused probes
  | .image location bytes =>
    let refused (outcome : ProbeOutcome) : Finding :=
      .refused [⟨.directory, location.path.text, outcome⟩]
    match Image.decode bytes with
    | .error cause => refused (.malformed cause.message)
    | .ok image =>
      if image.name = name then .image location bytes image
      else refused (.nameMismatch image.name)

theorem find_eq_host : s.find fs name = .host ↔ name ∈ s.hosts := by
  have provided : s.resolve fs name = .host ↔ name ∈ s.hosts := resolve_eq_host
  rw [← provided]
  unfold find
  split
  · simp_all
  · simp_all
  · rename_i resolved
    split
    · simp [resolved]
    · split <;> simp [resolved]

theorem find_eq_image {location : Location} {bytes : Bytes} {image : Image} :
    s.find fs name = .image location bytes image ↔
      s.resolve fs name = .image location bytes ∧ Image.decode bytes = .ok image ∧
        image.name = name := by
  unfold find
  split
  · simp_all
  · simp_all
  · rename_i place contents resolved
    split
    · rename_i failed
      simp only [reduceCtorEq, false_iff]
      rintro ⟨same, decoded, -⟩
      cases same.symm.trans resolved
      simp [failed] at decoded
    · rename_i found decoded
      split
      · rename_i named
        simp only [Finding.image.injEq, resolved, Resolution.image.injEq]
        constructor
        · rintro ⟨rfl, rfl, rfl⟩
          exact ⟨⟨rfl, rfl⟩, decoded, named⟩
        · rintro ⟨⟨rfl, rfl⟩, same, -⟩
          rw [decoded] at same
          exact ⟨rfl, rfl, Except.ok.inj same⟩
      · rename_i other
        simp only [reduceCtorEq, false_iff]
        rintro ⟨same, again, named⟩
        cases same.symm.trans resolved
        rw [decoded] at again
        cases again
        exact other named

theorem Separates.name_eq {name' : String} {location : Location} {bytes bytes' : Bytes} {image : Image}
    (separates : s.Separates fs) (found : s.find fs name = .image location bytes image)
    (resolved : s.resolve fs name' = .image location bytes') : name = name' :=
  separates (resolve_eq_image.mp (find_eq_image.mp found).1).2 (resolve_eq_image.mp resolved).2

end Scope

end RuleLint
