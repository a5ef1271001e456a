import RuleLint.Module.Loading
import RuleLint.Pack
import RuleLint.Proofs.Image.Storing

namespace RuleLint

open File (Path Location FileSystem ProperName)
open Image (Staged Replaceable SameBut temporaryName replaced)
open Text (Bytes)

variable {fs fs' : FileSystem} {directory path : Path} {d : Location} {file : String} {bytes : Bytes}

/-- The bytes are in the directory under that name, and nothing else changed. -/
structure StoredIn (fs fs' : FileSystem) (d : Location) (file : String) (bytes : Bytes) : Prop where
  holds : fs'.entry? (d ++ [file]) = some (.file bytes)
  cleared : fs'.entry? (d ++ [temporaryName file]) = none
  frame : SameBut [d ++ [file], d ++ [temporaryName file]] fs fs'

theorem Image.Staged.storedIn (tree : fs.IsTree) (staged : Staged fs path file d) :
    StoredIn fs (replaced fs file d bytes) d file bytes where
  holds := by rw [staged.entry?_replaced tree, if_pos rfl]
  cleared := by
    rw [staged.entry?_replaced tree, if_neg (by simpa using Image.ne_temporaryName.symm), if_pos rfl]
  frame := by
    refine ⟨rfl, fun l elsewhere => ?_⟩
    simp only [List.mem_cons, List.not_mem_nil, or_false, not_or] at elsewhere
    rw [staged.entry?_replaced tree, if_neg elsewhere.1, if_neg elsewhere.2]

theorem Image.Staged.at_join {name : String} {d' : Location} (proper : ProperName file)
    (reaches : fs.Reaches directory d) (staged : Staged fs (directory.join file) name d')
    (replaceable : Replaceable fs (directory.join file) name d') : name = file ∧ d' = d := by
  obtain ⟨other, ends, reaches'⟩ := staged.reaches
  have called := ends.named
  rw [Path.fileName?_join (Path.goes_of_proper proper), Path.fileName?_of_proper proper] at called
  obtain rfl := Option.some.inj called
  have short := Image.short_of_temporaryName staged.short
  have aim := FileSystem.target_of_getLast?_steps ends reaches' replaceable.checked short
    replaceable.last
  rw [(FileSystem.target_join_eq_ok proper).mpr ⟨replaceable.checked, reaches, rfl, short⟩] at aim
  cases aim
  exact ⟨rfl, rfl⟩

namespace Scope

variable {s : Scope} {image : Image}

theorem resolve_of_entry (tree : fs.IsTree) (noSlash : '/' ∉ s.extension.toList)
    (place : s.directory = d.path) {name : String} (plain : isPlainName name = true)
    (unhosted : name ∉ s.hosts)
    (holds : fs.entry? (d ++ [imageFile s.extension name]) = some (.file bytes)) :
    s.resolve fs name = .image (d ++ [imageFile s.extension name]) bytes := by
  refine resolve_eq_image.mpr ⟨unhosted, ?_⟩
  rw [resolveFile_in_tree tree (tree.parent holds) place noSlash]
  exact ⟨plain, rfl, FileSystem.readAt_eq_ok.mpr holds⟩

theorem find_of_resolve {l : Location} (resolved : s.resolve fs image.name = .image l image.encode)
    (short : image.payload.length < 2 ^ 32) : s.find fs image.name = .image l image.encode image := by
  refine find_eq_image.mpr ⟨resolved, ?_, rfl⟩
  rw [Image.decode_encode_eq, if_pos short]

theorem resolve_of_not_plain {name : String} (refused : isPlainName name = false)
    (unhosted : name ∉ s.hosts) :
    s.resolve fs name = .declined [⟨.host, "host modules", .notFound⟩,
      ⟨.directory, s.directory.text, .invalidName⟩] := by
  simp [resolve, resolveFile, candidate?, refused, unhosted]

end Scope

/-- From any module in the directory a reference by the name of the image leads to the image in the
file that is called after it. -/
def FoundFrom (fs : FileSystem) (extension : String) (d : Location) (image : Image) : Prop :=
  ∀ loader : Loader, loader.extension = extension → image.name ∉ loader.hosts →
    ∀ sibling location scope, loader.scopeFor fs sibling = .ok (location, scope) →
      location.dropLast = d →
      scope.resolve fs image.name = .image (d ++ [imageFile extension image.name]) image.encode ∧
      (image.payload.length < 2 ^ 32 → scope.find fs image.name =
        .image (d ++ [imageFile extension image.name]) image.encode image)

theorem scopeFor_eq_ok {loader : Loader} {location : Location} {scope : Scope}
    (found : loader.scopeFor fs path = .ok (location, scope)) :
    scope = loader.scope (Location.path location.dropLast) := by
  unfold Loader.scopeFor at found
  cases located : Loader.locate fs path with
  | error cause => simp [located, Except.map] at found
  | ok place =>
      rw [located] at found
      cases found
      rfl

theorem foundFrom_of_entry {extension : String} {image : Image} (tree : fs.IsTree)
    (noSlash : '/' ∉ extension.toList) (plain : isPlainName image.name = true)
    (holds : fs.entry? (d ++ [imageFile extension image.name]) = some (.file image.encode)) :
    FoundFrom fs extension d image := by
  rintro loader rfl unhosted sibling location scope opened rfl
  obtain rfl := scopeFor_eq_ok opened
  have resolved : (loader.scope (Location.path location.dropLast)).resolve fs image.name = _ :=
    Scope.resolve_of_entry tree noSlash rfl plain unhosted holds
  exact ⟨resolved, Scope.find_of_resolve resolved⟩

namespace Pack

variable {settings : Settings} {manifest : Path} {output : Option Path}

theorem run_eq_ok : run settings fs manifest output = (.ok path, fs') ↔
    ∃ text image, fs.readText manifest = .ok text ∧ Image.ofManifest text = .ok image ∧
      path = output.getD (defaultOutput settings manifest image) ∧
      Image.write fs path image = (.ok (), fs') := by
  constructor
  · intro ran
    unfold run at ran
    split at ran
    · cases ran
    · rename_i text read
      split at ran
      · cases ran
      · rename_i image described
        dsimp only at ran
        split at ran
        · cases ran
        · rename_i written
          cases ran
          exact ⟨text, image, read, described, rfl, written⟩
  · rintro ⟨text, image, read, described, rfl, written⟩
    simp only [run, read, described, written]

theorem exists_directory_of_readText (tree : fs.IsTree) {text : String}
    (read : fs.readText manifest = .ok text) :
    ∃ d file, fs.canonicalize manifest = .ok (d ++ [file]) ∧
      fs.Reaches (manifest.parent?.getD ⟨"."⟩) d := by
  obtain ⟨l, bytes, found, contents⟩ := FileSystem.exists_readAt_of_readText read
  obtain ⟨file, directory, d, ends, reaches, rfl⟩ := tree.exists_endsIn_of_readAt found contents
  refine ⟨d, file, found, ?_⟩
  rw [ends.parent]
  exact reaches

/-- A run without an asked-for output that succeeds wrote the image of the manifest to the file that
the name in the manifest and the extension of the settings make up, taken from the directory of the
manifest. If they make up the name of a file it is in that directory, and nothing else changed. If the
name is plain this is the file that the modules in the directory look for, and they find the image by
its name. If it is not they refuse to look for it, wherever the image is. -/
theorem run_finds (tree : fs.IsTree) (noSlash : '/' ∉ settings.extension.toList)
    (packed : run settings fs manifest none = (.ok path, fs')) :
    ∃ text image d file, fs.readText manifest = .ok text ∧ Image.ofManifest text = .ok image ∧
      fs.canonicalize manifest = .ok (d ++ [file]) ∧
      path = (manifest.parent?.getD ⟨"."⟩).join (imageFile settings.extension image.name) ∧
      fs'.read path = .ok image.encode ∧
      (ProperName (imageFile settings.extension image.name) →
        StoredIn fs fs' d (imageFile settings.extension image.name) image.encode) ∧
      (isPlainName image.name = true →
        candidate? (manifest.parent?.getD ⟨"."⟩) settings.extension image.name = some path ∧
        StoredIn fs fs' d (imageFile settings.extension image.name) image.encode ∧
        FoundFrom fs' settings.extension d image) ∧
      (isPlainName image.name = false → ∀ scope : Scope, image.name ∉ scope.hosts →
        candidate? scope.directory scope.extension image.name = none ∧
        scope.resolve fs' image.name = .declined [⟨.host, "host modules", .notFound⟩,
          ⟨.directory, scope.directory.text, .invalidName⟩]) := by
  obtain ⟨text, image, read, described, output, written⟩ := run_eq_ok.mp packed
  obtain ⟨d, file, found, reaches⟩ := exists_directory_of_readText tree read
  obtain ⟨name, d', staged, replaceable, rfl⟩ := Image.exists_of_write written
  replace output : path =
    (manifest.parent?.getD ⟨"."⟩).join (imageFile settings.extension image.name) := output
  have stored (proper : ProperName (imageFile settings.extension image.name)) :
      StoredIn fs (replaced fs name d' image.encode) d (imageFile settings.extension image.name)
        image.encode := by
    subst output
    obtain ⟨rfl, rfl⟩ := staged.at_join proper reaches replaceable
    exact staged.storedIn tree
  refine ⟨text, image, d, file, read, described, found, output,
    staged.read_replaced tree replaceable, stored, fun plain => ?_, fun refused scope unhosted => ?_⟩
  · have inside := stored (properName_imageFile plain noSlash)
    exact ⟨Scope.candidate?_eq_some.mpr ⟨plain, output⟩, inside,
      foundFrom_of_entry (staged.isTree_replaced tree replaceable) noSlash plain inside.holds⟩
  · exact ⟨if_neg (by simp [refused]), Scope.resolve_of_not_plain refused unhosted⟩

/-! A plain name, and one that leads out of the directory of the manifest. -/

open Yaml in
theorem document_of_name (name : String) :
    Document.ofTokens? [.blockMapping, .key, .scalar ⟨"name", true⟩, .value, .scalar ⟨name, true⟩,
        .blockEnd] =
      some ⟨.mapping none [(.scalar none ⟨"name", true⟩, .scalar none ⟨name, true⟩)], []⟩ := by
  simp [Document.ofTokens?, readDirectives, readRoot, readNode, readContent, readBlockEntries,
    readOptional, readValue, hasProperties, Anchors.none]

theorem ofManifest_of_name {text name : String} (tokens : Yaml.tokenize text =
      some [.blockMapping, .key, .scalar ⟨"name", true⟩, .value, .scalar ⟨name, true⟩, .blockEnd]) :
    Image.ofManifest text = .ok (.referring name []) := by
  have parsed : Yaml.Document.parse text = _ :=
    (congrArg (· >>= Yaml.Document.ofTokens?) tokens).trans (document_of_name name)
  rw [Image.ofManifest, parsed]
  rfl

namespace Beside

def image : Image := .referring "Lib" []

def files : FileSystem where
  entries := [(["m.yaml"], .file (Text.encodeUtf8 "name: Lib\n"))]
  workingDirectory := []

theorem isTree : files.IsTree := isTree_of_entries (by decide) rfl

theorem read : files.readText ⟨"m.yaml"⟩ = .ok "name: Lib\n" := by decide +kernel

theorem described : Image.ofManifest "name: Lib\n" = .ok image :=
  ofManifest_of_name (by decide +kernel)

theorem finds : files.IsTree ∧ '/' ∉ Settings.default.extension.toList ∧
    ∃ fs', run .default files ⟨"m.yaml"⟩ none = (.ok ⟨"Lib.rmod"⟩, fs') ∧
      StoredIn files fs' [] "Lib.rmod" image.encode ∧
      Scope.resolve ⟨⟨"/"⟩, ["core"], "rmod"⟩ fs' "Lib" = .image ["Lib.rmod"] image.encode := by
  have noSlash : '/' ∉ Settings.default.extension.toList := by decide +kernel
  have output : ⟨"Lib.rmod"⟩ = defaultOutput .default ⟨"m.yaml"⟩ image := by decide +kernel
  have written : Image.write files ⟨"Lib.rmod"⟩ image = (.ok (), _) :=
    Prod.ext (by decide +kernel) rfl
  have ran : run .default files ⟨"m.yaml"⟩ none = _ :=
    run_eq_ok.mpr ⟨_, image, read, described, output, written⟩
  obtain ⟨text, image', d, file, read', described', found, -, -, -, plain, -⟩ :=
    run_finds isTree noSlash ran
  cases read.symm.trans read'
  cases described.symm.trans described'
  have leads : files.canonicalize ⟨"m.yaml"⟩ = .ok ([] ++ ["m.yaml"]) := by decide +kernel
  obtain ⟨rfl, -⟩ := List.append_inj' (Except.ok.inj (leads.symm.trans found)) rfl
  obtain ⟨-, stored, findable⟩ := plain (by decide)
  have opened : (Loader.new .default).scopeFor (Image.write files ⟨"Lib.rmod"⟩ image).2 ⟨"m.yaml"⟩ =
      .ok (["m.yaml"], ⟨⟨"/"⟩, ["core"], "rmod"⟩) := by decide +kernel
  exact ⟨isTree, noSlash, _, ran, stored, (findable _ rfl (by decide) _ _ _ opened rfl).1⟩

end Beside

namespace Escaping

def image : Image := .referring "../Outside" []

def files : FileSystem where
  entries := [(["sub"], .directory), (["sub", "m.yaml"], .file (Text.encodeUtf8 "name: ../Outside\n"))]
  workingDirectory := []

theorem read : files.readText ⟨"sub/m.yaml"⟩ = .ok "name: ../Outside\n" := by decide +kernel

theorem described : Image.ofManifest "name: ../Outside\n" = .ok image :=
  ofManifest_of_name (by decide +kernel)

theorem writes_outside :
    files.canonicalize ⟨"sub/m.yaml"⟩ = .ok ["sub", "m.yaml"] ∧
    (∀ directory, candidate? directory Settings.default.extension image.name = none) ∧
    ∃ fs', run .default files ⟨"sub/m.yaml"⟩ none = (.ok ⟨"sub/../Outside.rmod"⟩, fs') ∧
      fs'.entry? ["Outside.rmod"] = some (.file image.encode) := by
  have output : ⟨"sub/../Outside.rmod"⟩ = defaultOutput .default ⟨"sub/m.yaml"⟩ image := by
    decide +kernel
  have written : Image.write files ⟨"sub/../Outside.rmod"⟩ image = (.ok (), _) :=
    Prod.ext (by decide +kernel) rfl
  have ran : run .default files ⟨"sub/m.yaml"⟩ none = _ :=
    run_eq_ok.mpr ⟨_, image, read, described, output, written⟩
  exact ⟨by decide +kernel, fun directory => if_neg (by decide), _, ran, by decide +kernel⟩

end Escaping

end Pack

end RuleLint
