import RuleLint.Proofs.File.LastNames
import RuleLint.Proofs.Module.Finding
import RuleLint.Watch

namespace RuleLint.Watch

open File (Path)
open File.Path (Goes lastPart)

variable {extension name : String} {directory image : Path}

theorem goes_imageFile (plain : isPlainName name = true) (extension : String) :
    Goes (imageFile extension name) := by
  by_cases slash : '/' ∈ extension.toList
  · obtain ⟨front, rest, split, noSlash⟩ := List.eq_append_cons_of_mem slash
    have proper := @properName_imageFile (.ofList front) name plain (by simpa using noSlash)
    have text : imageFile extension name = imageFile (.ofList front) name ++ "/" ++ .ofList rest := by
      apply String.toList_injective
      simp [imageFile, split]
    refine ⟨imageFile (.ofList front) name, ?_, proper.notHere⟩
    rw [text, File.Path.names_append_slash, File.Path.names_of_noSlash proper]
    exact List.mem_append_left _ (List.mem_singleton_self _)
  · exact File.Path.goes_of_proper (properName_imageFile plain slash)

theorem fileName?_candidate (looked : candidate? directory extension name = some image) :
    image.fileName? = (File.Path.mk (imageFile extension name)).fileName? := by
  obtain ⟨plain, rfl⟩ := Scope.candidate?_eq_some.mp looked
  exact File.Path.fileName?_join (goes_imageFile plain extension) directory

theorem fileName?_candidate_of_noSlash (noSlash : '/' ∉ extension.toList)
    (looked : candidate? directory extension name = some image) :
    image.fileName? = some (imageFile extension name) := by
  have plain := (Scope.candidate?_eq_some.mp looked).1
  rw [fileName?_candidate looked, File.Path.fileName?_of_proper (properName_imageFile plain noSlash)]

theorem extension?_of_imageFile {p : Path} (nonempty : name ≠ "")
    (called : p.fileName? = some (imageFile extension name)) :
    p.extension? = some (lastPart extension) := by
  rw [File.Path.extension?, called]
  exact File.Path.extensionOf?_of_point nonempty extension

def SharesExtension (p binary : Path) : Prop :=
  ∃ e, p.extension? = some e ∧ binary.extension? = some e

theorem touches_other (paths : List Path) (binary : Path) :
    touches ⟨.other, paths⟩ binary = false := by
  rw [touches]

theorem touches_iff {kind : EventKind} (changed : kind ≠ .other) {binary : Path} {file : String}
    (named : binary.fileName? = some file) (paths : List Path) :
    touches ⟨kind, paths⟩ binary = true ↔
      ∃ p ∈ paths, p.fileName? = some file ∨ SharesExtension p binary := by
  have shares (p : Path) : SharesExtension p binary ↔
      binary.extension?.isSome ∧ p.extension? = binary.extension? := by
    rw [SharesExtension]
    cases binary.extension? with
    | none => simp
    | some e => simp
  cases kind with
  | other => exact absurd rfl changed
  | create | modify => simp [touches, named, shares]

theorem touches_candidates_iff {kind : EventKind} (changed : kind ≠ .other) {binary : Path}
    {file : String} (named : binary.fileName? = some file) (noSlash : '/' ∉ extension.toList) :
    (∀ directory name image, candidate? directory extension name = some image →
      ∀ paths, image ∈ paths → touches ⟨kind, paths⟩ binary = true) ↔
      binary.extension? = some (lastPart extension) := by
  constructor
  · intro noticed
    obtain ⟨name, plain, other⟩ : ∃ name, isPlainName name = true ∧ imageFile extension name ≠ file := by
      by_cases same : imageFile extension "A" = file
      · refine ⟨"B", by decide, fun same' => ?_⟩
        exact absurd (imageFile_injective (same.trans same'.symm)) (by decide)
      · exact ⟨"A", by decide, same⟩
    have looked : candidate? ⟨""⟩ extension name = some _ :=
      Scope.candidate?_eq_some.mpr ⟨plain, rfl⟩
    have called := fileName?_candidate_of_noSlash noSlash looked
    have touched := noticed _ _ _ looked [_] (List.mem_singleton_self _)
    obtain ⟨p, among, here | ⟨e, its, binary's⟩⟩ := (touches_iff changed named _).mp touched
    · rw [List.mem_singleton.mp among, called] at here
      exact absurd (Option.some.inj here) other
    · rw [List.mem_singleton.mp among,
        extension?_of_imageFile (isPlainName_iff.mp plain).1 called] at its
      rw [binary's, ← its]
  · intro own directory name image looked paths among
    have plain := (Scope.candidate?_eq_some.mp looked).1
    have called := fileName?_candidate_of_noSlash noSlash looked
    exact (touches_iff changed named paths).mpr ⟨image, among, .inr
      ⟨_, extension?_of_imageFile (isPlainName_iff.mp plain).1 called, own⟩⟩

/-- Only files that were created or changed count, and of these the ones with the last name of the
watched image or with its extension. The file in which a dependency is looked for has the last name that
the name of the module and the extension of the settings make up, so if the watched image has the
extension of the settings every rebuilt dependency counts, and if not some do not. -/
theorem touches_rebuilt (settings : Settings) {binary : Path} {file : String}
    (named : binary.fileName? = some file) :
    (∀ paths, touches ⟨.other, paths⟩ binary = false) ∧
    ∀ kind ≠ EventKind.other,
      (∀ paths, touches ⟨kind, paths⟩ binary = true ↔
        ∃ p ∈ paths, p.fileName? = some file ∨ SharesExtension p binary) ∧
      (∀ directory name image, candidate? directory settings.extension name = some image →
        image.fileName? = (File.Path.mk (imageFile settings.extension name)).fileName?) ∧
      ('/' ∉ settings.extension.toList →
        ((∀ directory name image, candidate? directory settings.extension name = some image →
          ∀ paths, image ∈ paths → touches ⟨kind, paths⟩ binary = true) ↔
            binary.extension? = some (lastPart settings.extension)) ∧
        ∀ name, name ≠ "" → file = imageFile settings.extension name →
          binary.extension? = some (lastPart settings.extension)) := by
  refine ⟨fun paths => touches_other paths binary, fun kind changed => ⟨touches_iff changed named,
    fun directory name image looked => fileName?_candidate looked, fun noSlash =>
      ⟨touches_candidates_iff changed named noSlash, fun name nonempty same => ?_⟩⟩⟩
  exact extension?_of_imageFile nonempty (same ▸ named)

/-! An image and a dependency next to it, where the image goes by the default name, and where it was
written under a name of another extension. -/

namespace Renamed

theorem notices : (File.Path.mk "/out/App.rmod").fileName? = some "App.rmod" ∧
    touches ⟨.modify, [⟨"/out/Shared.rmod"⟩]⟩ ⟨"/out/App.rmod"⟩ = true := by
  have named : (File.Path.mk "/out/App.rmod").fileName? = some "App.rmod" := by decide +kernel
  have modified := (touches_rebuilt .default named).2 .modify (by decide)
  have looked : candidate? ⟨"/out"⟩ Settings.default.extension "Shared" = some ⟨"/out/Shared.rmod"⟩ := by
    decide +kernel
  have bare : '/' ∉ Settings.default.extension.toList := by decide +kernel
  have own := (modified.2.2 bare).2 "App" (by decide) (by decide)
  exact ⟨named, (modified.2.2 bare).1.mpr own _ _ _ looked _ (List.mem_singleton_self _)⟩

theorem misses : candidate? ⟨"/out"⟩ Settings.default.extension "Shared" = some ⟨"/out/Shared.rmod"⟩ ∧
    (File.Path.mk "/out/App.bin").fileName? = some "App.bin" ∧
    touches ⟨.modify, [⟨"/out/Shared.rmod"⟩]⟩ ⟨"/out/App.bin"⟩ = false := by
  decide +kernel

end Renamed

end RuleLint.Watch
