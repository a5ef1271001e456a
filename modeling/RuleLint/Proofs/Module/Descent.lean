import Mathlib.Data.Finset.Card
import RuleLint.Proofs.Module.Directories
import RuleLint.Proofs.Module.Keeping

/-!
# How deep linking goes

`Linking` says what the walk from a root comes to, and with which names on the stack. No name is
there twice, and each above the root's is the name of a file of its own. So the walk never goes
deeper than there are files that references can lead to (`links_within_files`).
-/

namespace RuleLint

open File (Path Location FileSystem)
open Hash (Fingerprint)
open Image (Reference)

def File.FileSystem.files (fs : FileSystem) : Finset Location :=
  (fs.entries.map (·.1)).toFinset.filter fun place => (fs.readAt place).toBool

def File.FileSystem.filesIn (fs : FileSystem) (directory : Location) : Finset Location :=
  fs.files.filter (·.dropLast = directory)

/-- The walk over the references of an image, as `linkReferences` makes it, that gives up where it
would enter more than `depth` images one below the other. -/
def linkWithin (fs : FileSystem) (scope : Scope) (depth : Nat) (stack : List String)
    (requester : String) (references : List Reference) (s : LinkState) :
    Option (List Link × LinkState) :=
  match references with
  | [] => some ([], s)
  | r :: references => do
    let (link, s) ←
      if r.name ∈ stack then some (.skipped, s)
      else
        match s.loader.recollect fs scope r.name with
        | (some m, l) => some (.module m, s.withLoader l)
        | (none, l) =>
          match scope.find fs r.name with
          | .host => some (.host r.name, s.withLoader l)
          | .refused probes => some (.skipped, (s.withLoader l).fail r.name requester probes)
          | .image location bytes image =>
            match depth with
            | 0 => none
            | depth + 1 => do
              let (links, s') ← linkWithin fs scope depth (r.name :: stack) image.name
                image.references (s.withLoader l)
              if s.failures.length < s'.failures.length then some (.skipped, s')
              else
                let (m, l) := s'.loader.adopt location (.ofBytes bytes) image links
                some (.module m, s'.withLoader l)
    let (links, s) ← linkWithin fs scope depth stack requester references s
    some (link :: links, s)
termination_by (depth, references.length)

/-- While `root` is being linked, the walk comes to what is left of the references of `requester`,
in the state `s` and with these names on the stack. -/
inductive Linking (fs : FileSystem) (scope : Scope) (root : Image) (l : Loader) :
    List String → String → List Reference → LinkState → Prop
  | start : Linking fs scope root l [root.name] root.name root.references ⟨l, []⟩
  | next {stack : List String} {requester : String} {r : Reference} {rest : List Reference}
      {s s' : LinkState} {link : Link}
      (here : Linking fs scope root l stack requester (r :: rest) s)
      (walk : Follows fs scope stack requester [r] s [link] s') :
      Linking fs scope root l stack requester rest s'
  | enter {stack : List String} {requester : String} {r : Reference} {rest : List Reference}
      {s : LinkState} {l' : Loader} {place : Location} {bytes : Text.Bytes} {image : Image}
      (here : Linking fs scope root l stack requester (r :: rest) s) (fresh : r.name ∉ stack)
      (missed : s.loader.recollect fs scope r.name = (none, l'))
      (found : scope.find fs r.name = .image place bytes image) :
      Linking fs scope root l (r.name :: stack) image.name image.references (s.withLoader l')

def Scope.Names (scope : Scope) (fs : FileSystem) (name : String) (place : Location) : Prop :=
  ∃ bytes image, scope.find fs name = .image place bytes image

/-- While `root` is being linked no name is on the stack twice, and those above the root's are the
names of different files among the places. With as many images below the root as there are places
the walk gets to its end. -/
structure LinksWithin (fs : FileSystem) (scope : Scope) (root : Image) (l : Loader)
    (places : Finset Location) : Prop where
  stack : ∀ {stack requester rest s}, Linking fs scope root l stack requester rest s →
    stack.Nodup ∧ stack.length ≤ places.card + 1 ∧
      ∃ above files, stack = above ++ [root.name] ∧ files.Nodup ∧
        (∀ place ∈ files, place ∈ places) ∧ List.Forall₂ (scope.Names fs) above files
  ends : linkWithin fs scope places.card [root.name] root.name root.references ⟨l, []⟩ =
    some (linkReferences fs scope [root.name] root.name root.references ⟨l, []⟩)

section

variable {fs : FileSystem} {scope : Scope} {root : Image} {l : Loader} {stack : List String}
  {requester name name' : String} {references : List Reference} {s s' : LinkState}
  {links : List Link} {place directory : Location} {places : Finset Location}

theorem mem_files : place ∈ fs.files ↔ ∃ bytes, fs.readAt place = .ok bytes := by
  have held : (fs.readAt place).toBool = true ↔ ∃ bytes, fs.readAt place = .ok bytes := by
    cases fs.readAt place <;> simp [Except.toBool]
  rw [FileSystem.files, Finset.mem_filter, held, and_iff_right_iff_imp]
  rintro ⟨bytes, read⟩
  have below := FileSystem.ne_nil_of_readAt read
  rw [FileSystem.readAt_eq_ok, FileSystem.entry?, if_neg below] at read
  exact List.mem_toFinset.mpr (List.mem_map_of_mem (mem_of_lookup_eq_some read))

theorem mem_filesIn :
    place ∈ fs.filesIn directory ↔
      place.dropLast = directory ∧ ∃ bytes, fs.readAt place = .ok bytes := by
  simp [FileSystem.filesIn, mem_files, and_comm]

theorem Scope.Names.mem_files (names : scope.Names fs name place) : place ∈ fs.files := by
  obtain ⟨bytes, image, found⟩ := names
  exact RuleLint.mem_files.mpr ⟨bytes, Scope.readAt_of_resolve (Scope.find_eq_image.mp found).1⟩

theorem Scope.Names.unique (names : scope.Names fs name place)
    (names' : scope.Names fs name' place) : name = name' := by
  obtain ⟨bytes, image, found⟩ := names
  obtain ⟨bytes', image', found'⟩ := names'
  obtain ⟨resolved, decoded, rfl⟩ := Scope.find_eq_image.mp found
  obtain ⟨resolved', decoded', rfl⟩ := Scope.find_eq_image.mp found'
  rw [(image_unique (readAt_of_resolve resolved) decoded (readAt_of_resolve resolved') decoded').2]

theorem nodup_of_names {above : List String} {files : List Location}
    (names : List.Forall₂ (scope.Names fs) above files) (distinct : above.Nodup) : files.Nodup := by
  induction names with
  | nil => exact .nil
  | @cons name place above files first rest ih =>
      obtain ⟨apart, distinct⟩ := List.nodup_cons.mp distinct
      refine List.nodup_cons.mpr ⟨fun member => ?_, ih distinct⟩
      obtain ⟨name', among, names'⟩ := exists_of_forall₂ rest.flip member
      exact apart (first.unique names' ▸ among)

theorem Linking.stack_eq (linking : Linking fs scope root l stack requester references s) :
    stack.Nodup ∧ ∃ above files, stack = above ++ [root.name] ∧
      List.Forall₂ (scope.Names fs) above files := by
  induction linking with
  | start => exact ⟨List.nodup_singleton _, [], [], rfl, .nil⟩
  | next here walk ih => exact ih
  | @enter stack requester r rest s l' place bytes image here fresh missed found ih =>
      obtain ⟨distinct, above, files, rfl, names⟩ := ih
      exact ⟨List.nodup_cons.mpr ⟨fresh, distinct⟩, r.name :: above, place :: files, rfl,
        .cons ⟨bytes, image, found⟩ names⟩

theorem Linking.exists_deeper {bound depth : Nat}
    (below : Linking fs scope root l (name :: stack) requester references s)
    (bounded : ∀ {stack requester rest s}, Linking fs scope root l stack requester rest s →
      stack.length ≤ bound) (deep : bound ≤ stack.length + depth) :
    ∃ d, depth = d + 1 ∧ bound ≤ (name :: stack).length + d := by
  have lower := bounded below
  rw [List.length_cons] at lower ⊢
  exact ⟨depth - 1, by omega, by omega⟩

theorem Follows.linkWithin_eq (walk : Follows fs scope stack requester references s links s')
    (here : Linking fs scope root l stack requester references s) {bound depth : Nat}
    (bounded : ∀ {stack requester rest s}, Linking fs scope root l stack requester rest s →
      stack.length ≤ bound) (deep : bound ≤ stack.length + depth) :
    linkWithin fs scope depth stack requester references s = some (links, s') := by
  induction walk generalizing depth with
  | nil => rw [linkWithin]
  | cyclic onStack rest ih =>
      have later := ih (here.next (.cyclic onStack .nil)) deep
      simp [linkWithin, onStack, later]
  | hosted fresh found rest ih =>
      have later := ih (here.next (.hosted fresh found .nil)) deep
      simp [linkWithin, fresh, Loader.recollect_of_host found, found, later]
  | cached fresh recalled rest ih =>
      have later := ih (here.next (.cached fresh recalled .nil)) deep
      simp [linkWithin, fresh, recalled, later]
  | refused fresh missed found rest ih =>
      have later := ih (here.next (.refused fresh missed found .nil)) deep
      simp [linkWithin, fresh, missed, found, later]
  | broken fresh missed found entered failed rest inner ih =>
      have below := here.enter fresh missed found
      have later := ih (here.next (.broken fresh missed found entered failed .nil)) deep
      obtain ⟨depth, rfl, deeper⟩ := below.exists_deeper bounded deep
      simp [linkWithin, fresh, missed, found, inner below deeper, failed, later]
  | linked fresh missed found entered whole adopted rest inner ih =>
      have below := here.enter fresh missed found
      have later := ih (here.next (.linked fresh missed found entered whole adopted .nil)) deep
      obtain ⟨depth, rfl, deeper⟩ := below.exists_deeper bounded deep
      simp [linkWithin, fresh, missed, found, inner below deeper, whole, adopted, later]

theorem linksWithin_of_names (leads : ∀ {name place}, scope.Names fs name place → place ∈ places) :
    LinksWithin fs scope root l places := by
  have spec {stack : List String} {requester : String} {rest : List Reference} {s : LinkState}
      (linking : Linking fs scope root l stack requester rest s) :
      stack.Nodup ∧ stack.length ≤ places.card + 1 ∧ ∃ above files, stack = above ++ [root.name] ∧
        files.Nodup ∧ (∀ place ∈ files, place ∈ places) ∧
          List.Forall₂ (scope.Names fs) above files := by
    obtain ⟨distinct, above, files, rfl, names⟩ := linking.stack_eq
    have apart := nodup_of_names names distinct.of_append_left
    have among : ∀ place ∈ files, place ∈ places := by
      intro place member
      obtain ⟨name, -, here⟩ := exists_of_forall₂ names.flip member
      exact leads here
    have counted : files.length ≤ places.card := by
      rw [← List.toFinset_card_of_nodup apart]
      exact Finset.card_le_card fun place member => among place (List.mem_toFinset.mp member)
    refine ⟨distinct, ?_, above, files, rfl, apart, among, names⟩
    rw [List.length_append, names.length_eq]
    exact Nat.succ_le_succ counted
  refine ⟨spec, ?_⟩
  have walk := linkReferences_follows fs scope [root.name] root.name root.references ⟨l, []⟩
  refine walk.linkWithin_eq .start (fun linking => (spec linking).2.1) ?_
  simp [Nat.add_comm]

theorem links_within_files (fs : FileSystem) (root : Image) (l : Loader) :
    (∀ scope, LinksWithin fs scope root l fs.files) ∧
      ∀ path location, fs.IsTree → fs.canonicalize path = .ok location →
        '/' ∉ l.extension.toList →
          LinksWithin fs (l.scope (Location.path location.dropLast)) root l
            (fs.filesIn location.dropLast) := by
  refine ⟨fun scope => linksWithin_of_names Scope.Names.mem_files, ?_⟩
  intro path location tree leads noSlash
  obtain ⟨e, present⟩ := tree.canonicalize_present leads
  have directory := tree.directory_of_present present
  refine linksWithin_of_names fun {name place} names =>
    mem_filesIn.mpr ⟨?_, mem_files.mp names.mem_files⟩
  obtain ⟨bytes, image, found⟩ := names
  have here := Scope.location_of_resolve tree directory rfl noSlash (Scope.find_eq_image.mp found).1
  rw [here, List.dropLast_concat]

end

/-! Two modules that refer to each other and to themselves. -/

namespace Ringed

def app : Image := .referring "App" ["Lib", "App"]

def lib : Image := .referring "Lib" ["App", "Lib", "App"]

def files : FileSystem := ofImages "rmod" [app, lib]

def loader : Loader := .new .default

theorem isTree : files.IsTree := isTree_ofImages (by decide)

theorem links_within :
    files.IsTree ∧ files.canonicalize ⟨"/App.rmod"⟩ = .ok ["App.rmod"] ∧
      '/' ∉ loader.extension.toList ∧
      LinksWithin files (loader.scope (Location.path [])) app loader (files.filesIn []) :=
  ⟨isTree, rfl, by decide, (links_within_files files app loader).2 ⟨"/App.rmod"⟩ ["App.rmod"] isTree
    rfl (by decide)⟩

end Ringed

/-! With the extension `/img` the module `Lib` is looked for in the directory `Lib.`, and not next
to the root. -/

namespace Aside

open Pair (app lib)

def files : FileSystem where
  entries := [(["App"], .file app.encode), (["Lib."], .directory),
    (["Lib.", "img"], .file lib.encode)]
  workingDirectory := []

def loader : Loader := .new { Settings.default with extension := "/img" }

theorem isTree : files.IsTree := isTree_of_entries (by decide) rfl

theorem find_lib : (loader.scope (Location.path [])).find files "Lib" =
    .image ["Lib.", "img"] lib.encode lib :=
  Scope.find_eq_image.mpr ⟨rfl, Pair.decodes lib (by simp), rfl⟩

theorem linking_lib : Linking files (loader.scope (Location.path [])) app loader ["Lib", "App"]
    lib.name lib.references ⟨loader, []⟩ := by
  have missed : loader.recollect files (loader.scope (Location.path [])) "Lib" =
      (none, loader) := by
    rw [Loader.recollect_of_image (Scope.find_eq_image.mp find_lib).1]
    rfl
  have root : Linking files (loader.scope (Location.path [])) app loader ["App"] "App"
      [⟨"Lib", none⟩] ⟨loader, []⟩ := .start
  exact root.enter (by decide) missed find_lib

end Aside

theorem links_beyond_directory :
    ¬ ∀ (fs : FileSystem) (root : Image) (l : Loader) (path : Path) (location : Location),
      fs.IsTree → fs.canonicalize path = .ok location →
        LinksWithin fs (l.scope (Location.path location.dropLast)) root l
          (fs.filesIn location.dropLast) := by
  intro within
  have bounds := within Aside.files Pair.app Aside.loader ⟨"/App"⟩ ["App"] Aside.isTree rfl
  obtain ⟨-, -, above, files, same, -, among, names⟩ := bounds.stack Aside.linking_lib
  obtain rfl : ["Lib"] = above := List.append_cancel_right same
  cases names with
  | cons first rest =>
      obtain ⟨bytes, image, found⟩ := first
      obtain ⟨rfl, -, -⟩ := Finding.image.inj (Aside.find_lib.symm.trans found)
      have inside := (mem_filesIn.mp (among _ (.head _))).1
      cases inside

end RuleLint
