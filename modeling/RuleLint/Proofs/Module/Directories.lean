import Mathlib.Logic.Relation
import RuleLint.Proofs.Image.RoundTrip
import RuleLint.Proofs.Module.Finding

namespace RuleLint

open File (Location FileSystem Entry EntryName)
open Relation (ReflTransGen TransGen)
open Text (Bytes)

def InDirectory (fs : FileSystem) (directory : Location) (image : Image) : Prop :=
  ∃ file bytes, fs.entry? (directory ++ [file]) = some (.file bytes) ∧
    Image.decode bytes = .ok image

/-- Every image in the directory is in the file called after it. -/
def Tidy (fs : FileSystem) (extension : String) (directory : Location) : Prop :=
  ∀ file bytes image, fs.entry? (directory ++ [file]) = some (.file bytes) →
    Image.decode bytes = .ok image → file = imageFile extension image.name

def Refers (fs : FileSystem) (directory : Location) (passed : List String) (a b : Image) : Prop :=
  InDirectory fs directory b ∧ ∃ r ∈ a.references, r.name = b.name ∧ r.name ∉ passed

def Reaches (fs : FileSystem) (directory : Location) (passed : List String) : Image → Image → Prop :=
  ReflTransGen (Refers fs directory passed)

/-- No references among the images of the directory lead back to where they start. The host's names
are names of images like any others. -/
def Acyclic (fs : FileSystem) (directory : Location) : Prop :=
  ∀ image, ¬ TransGen (Refers fs directory []) image image

/-- The references that are looked for in the scope are those to the images of an orderly
directory. -/
structure Orderly (fs : FileSystem) (scope : Scope) (directory : Location) : Prop where
  tree : fs.IsTree
  place : scope.directory = Location.path directory
  tidy : Tidy fs scope.extension directory
  noSlash : '/' ∉ scope.extension.toList
  present : fs.entry? directory = some .directory

variable {fs : FileSystem} {scope : Scope} {directory location : Location} {image a b : Image}
  {name : String} {bytes : Bytes}

theorem inDirectory_of_read (read : fs.readAt location = .ok bytes)
    (decoded : Image.decode bytes = .ok image) : InDirectory fs location.dropLast image := by
  have below := FileSystem.ne_nil_of_readAt read
  rw [FileSystem.readAt_eq_ok] at read
  refine ⟨location.getLast below, bytes, ?_, decoded⟩
  rwa [List.dropLast_concat_getLast]

theorem Tidy.location_eq {extension : String} (tidy : Tidy fs extension directory)
    (inside : location.dropLast = directory) (read : fs.readAt location = .ok bytes)
    (decoded : Image.decode bytes = .ok image) :
    location = directory ++ [imageFile extension image.name] := by
  have below := FileSystem.ne_nil_of_readAt read
  rw [FileSystem.readAt_eq_ok] at read
  have split := List.dropLast_concat_getLast below
  rw [inside] at split
  rw [← split] at read ⊢
  rw [tidy _ bytes image read decoded]

theorem InDirectory.orderly (inside : InDirectory fs directory image) (tree : fs.IsTree)
    (place : scope.directory = Location.path directory)
    (tidy : Tidy fs scope.extension directory) : Orderly fs scope directory := by
  obtain ⟨file, bytes, entry, decoded⟩ := inside
  have named := tree.named entry file (by simp)
  rw [tidy file bytes image entry decoded] at named
  refine ⟨tree, place, tidy, fun slash => named.noSlash ?_, tree.parent entry⟩
  simp [imageFile, slash]

namespace Orderly

variable (orderly : Orderly fs scope directory)

include orderly

theorem image_eq (inside : InDirectory fs directory a) (inside' : InDirectory fs directory b)
    (same : a.name = b.name) : a = b := by
  obtain ⟨file, bytes, entry, decoded⟩ := inside
  obtain ⟨file', bytes', entry', decoded'⟩ := inside'
  rw [orderly.tidy file bytes a entry decoded, same] at entry
  rw [orderly.tidy file' bytes' b entry' decoded', entry] at entry'
  cases entry'
  rw [decoded] at decoded'
  exact Except.ok.inj decoded'

theorem resolve_eq_image :
    scope.resolve fs name = .image location bytes ↔ name ∉ scope.hosts ∧ isPlainName name = true ∧
      location = directory ++ [imageFile scope.extension name] ∧
      fs.readAt location = .ok bytes := by
  rw [Scope.resolve_eq_image,
    Scope.resolveFile_in_tree orderly.tree orderly.present orderly.place orderly.noSlash]

theorem find_of_resolve (resolved : scope.resolve fs name = .image location bytes)
    (decoded : Image.decode bytes = .ok image) : scope.find fs name = .image location bytes image := by
  refine Scope.find_eq_image.mpr ⟨resolved, decoded, ?_⟩
  obtain ⟨-, -, here, read⟩ := orderly.resolve_eq_image.mp resolved
  rw [FileSystem.readAt_eq_ok, here] at read
  exact (imageFile_injective (orderly.tidy _ bytes image read decoded)).symm

theorem find_eq_image :
    scope.find fs name = .image location bytes image ↔ name ∉ scope.hosts ∧
      isPlainName name = true ∧ location = directory ++ [imageFile scope.extension name] ∧
      fs.readAt location = .ok bytes ∧ Image.decode bytes = .ok image := by
  constructor
  · intro found
    obtain ⟨resolved, decoded, -⟩ := Scope.find_eq_image.mp found
    obtain ⟨unhosted, plain, here, read⟩ := orderly.resolve_eq_image.mp resolved
    exact ⟨unhosted, plain, here, read, decoded⟩
  · rintro ⟨unhosted, plain, here, read, decoded⟩
    exact orderly.find_of_resolve (orderly.resolve_eq_image.mpr ⟨unhosted, plain, here, read⟩) decoded

theorem refers_of_find {r : Image.Reference} {passed : List String} (member : r ∈ a.references)
    (found : scope.find fs r.name = .image location bytes b) (part : passed ⊆ scope.hosts) :
    Refers fs directory passed a b := by
  obtain ⟨unhosted, -, here, read, decoded⟩ := orderly.find_eq_image.mp found
  have inside := inDirectory_of_read read decoded
  rw [here, List.dropLast_concat] at inside
  exact ⟨inside, r, member, (Scope.find_eq_image.mp found).2.2.symm, fun among => unhosted (part among)⟩

end Orderly

theorem acyclic_of_height (height : Image → Nat)
    (falls : ∀ {a b}, InDirectory fs directory a → Refers fs directory [] a b → height b < height a) :
    Acyclic fs directory := by
  intro image cycle
  have inside {a b : Image} (leads : TransGen (Refers fs directory []) a b) :
      InDirectory fs directory b := by
    cases leads with
    | single refers => exact refers.1
    | tail _ refers => exact refers.1
  have lower {b : Image} (leads : TransGen (Refers fs directory []) image b) :
      height b < height image := by
    induction leads with
    | single refers => exact falls (inside cycle) refers
    | tail before refers ih => exact Nat.lt_trans (falls (inside before) refers) ih
  exact Nat.lt_irrefl _ (lower cycle)

def OnTrail (fs : FileSystem) (directory : Location) (passed stack : List String)
    (image : Image) : Prop :=
  ∀ name ∈ stack, ∃ a, a.name = name ∧ InDirectory fs directory a ∧
    Reaches fs directory passed a image

theorem OnTrail.start {passed : List String} (inside : InDirectory fs directory image) :
    OnTrail fs directory passed [image.name] image := by
  intro name member
  rw [List.mem_singleton.mp member]
  exact ⟨image, rfl, inside, .refl⟩

theorem OnTrail.enter {passed stack : List String} (trail : OnTrail fs directory passed stack a)
    (refers : Refers fs directory passed a b) : OnTrail fs directory passed (b.name :: stack) b := by
  intro name member
  rcases List.mem_cons.mp member with rfl | before
  · exact ⟨b, rfl, refers.1, .refl⟩
  · obtain ⟨c, named, inside, reaches⟩ := trail name before
    exact ⟨c, named, inside, reaches.tail refers⟩

theorem OnTrail.cycle {passed stack : List String} (trail : OnTrail fs directory passed stack image)
    {r : Image.Reference} (member : r ∈ image.references) (onStack : r.name ∈ stack)
    (taken : r.name ∉ passed) :
    ∃ a, a.name = r.name ∧ Refers fs directory passed image a ∧ Reaches fs directory passed a image := by
  obtain ⟨a, named, inside, reaches⟩ := trail r.name onStack
  exact ⟨a, named, ⟨inside, r, member, named.symm, taken⟩, reaches⟩

theorem isTree_of_entries (each : ∀ place ∈ fs.entries.map (·.1), (∀ name ∈ place, EntryName name) ∧
      fs.entry? place.dropLast = some .directory)
    (working : fs.entry? fs.workingDirectory = some .directory) : fs.IsTree := by
  have listed {place : Location} {e : Entry} (present : fs.entry? place = some e) :
      place = [] ∨ place ∈ fs.entries.map (·.1) := by
    unfold FileSystem.entry? at present
    split at present
    · exact .inl ‹_›
    · exact .inr (List.mem_map_of_mem (mem_of_lookup_eq_some present))
  refine ⟨fun {place e} present name member => ?_, fun {place name e} present => ?_, working⟩
  · rcases listed present with rfl | among
    · cases member
    · exact (each place among).1 name member
  · rcases listed present with empty | among
    · simp at empty
    · simpa using (each _ among).2

def ofImages (extension : String) (images : List Image) : FileSystem where
  entries := images.map fun image => ([imageFile extension image.name], .file image.encode)
  workingDirectory := []

section

variable {extension : String} {images : List Image}

theorem entry?_ofImages {e : Entry}
    (present : FileSystem.entry? (ofImages extension images) location = some e) :
    (location = [] ∧ e = .directory) ∨
      ∃ image ∈ images, location = [imageFile extension image.name] ∧ e = .file image.encode := by
  unfold FileSystem.entry? at present
  split at present
  · rename_i root
    exact .inl ⟨root, (Option.some.inj present).symm⟩
  · obtain ⟨image, member, same⟩ := List.mem_map.mp (mem_of_lookup_eq_some present)
    obtain ⟨here, held⟩ := Prod.mk.inj same
    exact .inr ⟨image, member, here.symm, held.symm⟩

theorem isTree_ofImages (named : ∀ image ∈ images, EntryName (imageFile extension image.name)) :
    (ofImages extension images).IsTree := by
  refine isTree_of_entries (fun place member => ?_) FileSystem.entry?_nil
  obtain ⟨image, listed, rfl⟩ : ∃ image ∈ images, [imageFile extension image.name] = place := by
    simpa [ofImages] using member
  refine ⟨fun name inside => ?_, FileSystem.entry?_nil⟩
  exact List.mem_singleton.mp inside ▸ named image listed

theorem dropLast_eq_nil_of_ofImages {e : Entry}
    (present : FileSystem.entry? (ofImages extension images) location = some e) :
    location.dropLast = [] := by
  rcases entry?_ofImages present with ⟨rfl, -⟩ | ⟨image, -, rfl, -⟩ <;> rfl

theorem mem_of_inDirectory_ofImages
    (decodes : ∀ image ∈ images, Image.decode image.encode = .ok image)
    (inside : InDirectory (ofImages extension images) directory a) : a ∈ images := by
  obtain ⟨file, bytes, entry, decoded⟩ := inside
  rcases entry?_ofImages entry with ⟨-, other⟩ | ⟨image, member, -, held⟩
  · cases other
  · cases held
    rw [decodes image member] at decoded
    cases decoded
    exact member

theorem tidy_ofImages (decodes : ∀ image ∈ images, Image.decode image.encode = .ok image) :
    Tidy (ofImages extension images) extension [] := by
  intro file bytes a entry decoded
  rcases entry?_ofImages entry with ⟨-, other⟩ | ⟨image, member, here, held⟩
  · cases other
  · cases held
    rw [decodes image member] at decoded
    cases decoded
    exact List.singleton_inj.mp here

end

theorem decodes_of_short {images : List Image}
    (short : ∀ image ∈ images, image.payload.length < 2 ^ 32) :
    ∀ image ∈ images, Image.decode image.encode = .ok image := by
  intro image member
  rw [Image.decode_encode_eq, if_pos (short image member)]

def Image.referring (name : String) (names : List String) : Image :=
  ⟨name, none, names.map (⟨·, none⟩), []⟩

@[simp] theorem Image.referring_name (name : String) (names : List String) :
    (referring name names).name = name := rfl

@[simp] theorem Image.referring_references (name : String) (names : List String) :
    (referring name names).references = names.map (⟨·, none⟩) := rfl

/-! A module that refers to another one, which refers to nothing or back. -/

namespace Pair

def app : Image := .referring "App" ["Lib"]

def lib : Image := .referring "Lib" []

def back : Image := .referring "Lib" ["App"]

theorem decodes : ∀ image ∈ [app, lib, back], Image.decode image.encode = .ok image :=
  decodes_of_short (by decide +kernel)

end Pair

end RuleLint
