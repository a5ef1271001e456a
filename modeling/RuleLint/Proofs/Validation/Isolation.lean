import RuleLint.Proofs.Module.Alike
import RuleLint.Proofs.Validation.Rebuilds

namespace RuleLint

open File (Path Location FileSystem ProperName)
open Hash (Fingerprint)
open Text (Bytes)

def Module.Inside (directory : Location) (m : Module) : Prop :=
  ∀ x ∈ m.tree, ∃ file, x.location = directory ++ [file]

/-- From the root on, a reference to the name is looked for among the files. -/
def Scope.LooksFor (s : Scope) (fs : FileSystem) (root : Image) (name : String) : Prop :=
  name ∉ s.hosts ∧ ∃ x, s.LeadsOn fs root x ∧ ∃ r ∈ x.references, r.name = name

/-- The directory is there for both, and holds the same for both under the name of the file and
under those of the files that references from there are looked for in. -/
structure Scope.SeesSame (s : Scope) (fs fs' : FileSystem) (directory : Location) (file : String) :
    Prop where
  present : fs.entry? directory = some .directory
  present' : fs'.entry? directory = some .directory
  self : fs'.entry? (directory ++ [file]) = fs.entry? (directory ++ [file])
  reached : ∀ {bytes root name}, fs.readAt (directory ++ [file]) = .ok bytes →
    Image.decode bytes = .ok root → s.LooksFor fs root name →
      fs'.entry? (directory ++ [imageFile s.extension name]) =
        fs.entry? (directory ++ [imageFile s.extension name])

theorem Scope.SeesSame.canonicalize_eq {s : Scope} {fs fs' : FileSystem} {directory : Location}
    {file : String} {path : Path} (sees : s.SeesSame fs fs' directory file) (tree : fs.IsTree)
    (tree' : fs'.IsTree)
    (spelled : ProperName file ∧ path = (Location.path directory).join file ∨
      fs.canonicalize path = .ok (directory ++ [file]) ∧
        fs'.canonicalize path = .ok (directory ++ [file])) :
    fs'.canonicalize path = fs.canonicalize path ∧
      ∀ location, fs.canonicalize path = .ok location → location = directory ++ [file] := by
  rcases spelled with ⟨proper, rfl⟩ | ⟨leads, leads'⟩
  · refine ⟨tree.canonicalize_join_congr tree' sees.present sees.present' proper sees.self, ?_⟩
    exact fun location there => ((tree.canonicalize_join_eq_ok sees.present proper).mp there).1
  · exact ⟨leads'.trans leads.symm, fun location there => Except.ok.inj (there.symm.trans leads)⟩

namespace Run

/-- There are no symbolic links, and whatever the run loads it loads with the references looked for
next to it. -/
structure Beside (run : Run) : Prop where
  tree : ∀ {fs request}, (fs, request) ∈ run.moments → fs.IsTree
  beside : ∀ {fs request location base wanted}, (fs, request) ∈ run.moments →
    request.Targets run.subsystem fs location base wanted → base = Location.path location.dropLast

/-- The run asks for no module of the directory. -/
def Avoids (run : Run) (directory : Location) : Prop :=
  ∀ {fs request location base wanted}, (fs, request) ∈ run.moments →
    request.Targets run.subsystem fs location base wanted → ∀ file, location ≠ directory ++ [file]

end Run

section

variable {fs : FileSystem} {scope : Scope} {base directory location : Location} {bytes : Bytes}
  {stack : List String} {image : Image} {links : List Link}

theorem concat_of_read (read : fs.readAt location = .ok bytes) :
    ∃ file, location = location.dropLast ++ [file] :=
  ⟨_, (List.dropLast_concat_getLast (FileSystem.ne_nil_of_readAt read)).symm⟩

variable (tree : fs.IsTree) (present : fs.entry? base = some .directory)
  (looks : scope.directory = Location.path base) (noSlash : '/' ∉ scope.extension.toList)

include tree present looks noSlash

theorem inside_of_answers {place : Location} {file : String} (here : place = base ++ [file])
    (answers : List.Forall₂ (Answer fs scope stack fun place m => m.Inside place.dropLast)
      image.references links) (f : Fingerprint) (l : Loader) :
    (l.built place f image links).Inside base := by
  refine Module.forall_mem_tree.mpr ⟨⟨file, here⟩, fun d dependency => ?_⟩
  obtain ⟨r, -, -, place, bytes, leads, inside⟩ := Answer.of_dependency answers dependency
  rwa [Scope.location_of_resolve tree present looks noSlash leads, List.dropLast_concat] at inside

theorem keeps_inside (policy : CachePolicy) :
    Keeps fs scope policy (fun place e => e.module.Inside place.dropLast)
      (fun place m => m.Inside place.dropLast) fun _ _ => True where
  hit _ inside _ := inside
  enter _ _ _ _ := trivial
  new := by
    intro stack image place bytes links _ _ found answers l
    have leads := (Scope.find_eq_image.mp found).1
    have here := Scope.location_of_resolve tree present looks noSlash leads
    have inside := inside_of_answers tree present looks noSlash here answers
    have beside : place.dropLast = base := by rw [here, List.dropLast_concat]
    rw [beside]
    exact ⟨inside _ l, inside _ l⟩

theorem keeps_elsewhere (directory : Location) (policy : CachePolicy) :
    Keeps fs scope policy (fun place _ => ∀ file, place ≠ directory ++ [file]) (fun _ _ => True)
      fun _ _ => base ≠ directory where
  hit _ _ _ := trivial
  enter other _ _ _ := other
  new := by
    intro stack image place bytes links other _ found _ _
    have leads := (Scope.find_eq_image.mp found).1
    refine ⟨fun file same => ?_, trivial⟩
    rw [Scope.location_of_resolve tree present looks noSlash leads] at same
    exact other (List.append_inj_left' same rfl)

end

namespace Loads

variable {fs : FileSystem} {scope : Scope} {location : Location} {wanted : Image → Bool}
  {l l' : Loader} {result : Except LoadError (Option Module)}
  (load : Loads fs scope location wanted l result l') (tree : fs.IsTree)
  (present : fs.entry? location.dropLast = some .directory)
  (looks : scope.directory = Location.path location.dropLast)
  (noSlash : '/' ∉ scope.extension.toList)

include load tree present looks noSlash

theorem inside (holds : l.Holds fun place e => e.module.Inside place.dropLast) :
    (l'.Holds fun place e => e.module.Inside place.dropLast) ∧
      ∀ {m}, result = .ok (some m) → m.Inside location.dropLast := by
  have kept := load.keeps (keeps_inside tree present looks noSlash l.cache.policy)
    (fun inside _ => inside) (fun _ _ => trivial) (fun read _ _ answers l => by
      obtain ⟨file, here⟩ := concat_of_read read
      have inside := inside_of_answers tree present looks noSlash here answers
      exact ⟨inside _ l, inside _ l⟩) rfl holds
  exact kept

theorem elsewhere {directory : Location} (other : ∀ file, location ≠ directory ++ [file])
    (holds : l.Holds fun place _ => ∀ file, place ≠ directory ++ [file]) :
    l'.Holds fun place _ => ∀ file, place ≠ directory ++ [file] := by
  refine (load.keeps (keeps_elsewhere tree present looks noSlash directory _) (fun _ _ => trivial)
    ?_ (fun _ _ _ _ _ => ⟨other, trivial⟩) rfl holds).1
  intro bytes image read _ same
  obtain ⟨file, here⟩ := concat_of_read read
  exact other file (same ▸ here)

end Loads

namespace Run

variable {run run' : Run} {fs fs' : FileSystem} {request : Request} {location directory : Location}
  {base path : Path} {wanted : Image → Bool} {file : String}

theorem Beside.present (beside : run.Beside) (member : (fs, request) ∈ run.moments)
    (target : request.Targets run.subsystem fs location base wanted) :
    fs.entry? location.dropLast = some .directory := by
  obtain ⟨path, leads⟩ := target.leads
  have tree := beside.tree member
  obtain ⟨e, present⟩ := tree.canonicalize_present leads
  exact tree.directory_of_present present

theorem Beside.holds_inside (beside : run.Beside) (noSlash : '/' ∉ run.settings.extension.toList) :
    run.finish.loader.Holds fun place e => e.module.Inside place.dropLast := by
  refine holds_of_loads (fun member target load _ holds => ?_) (List.Subset.refl _)
  obtain rfl := beside.beside member target
  exact (load.inside (beside.tree member) (beside.present member target) rfl noSlash holds).1

theorem Beside.entry?_eq_none (beside : run.Beside) (noSlash : '/' ∉ run.settings.extension.toList)
    (avoids : run.Avoids directory) (file : String) :
    run.finish.loader.cache.entry? (directory ++ [file]) = none := by
  have holds : run.finish.loader.Holds fun place _ => ∀ file, place ≠ directory ++ [file] := by
    refine holds_of_loads (fun member target load _ holds => ?_) (List.Subset.refl _)
    obtain rfl := beside.beside member target
    exact load.elsewhere (beside.tree member) (beside.present member target) rfl noSlash
      (avoids member target) holds
  cases entry : run.finish.loader.cache.entry? (directory ++ [file]) with
  | none => rfl
  | some e => exact absurd rfl (holds _ e entry file)

theorem Beside.alike (beside : run.Beside) (noSlash : '/' ∉ run.settings.extension.toList)
    (beside' : run'.Beside) (settings : run'.settings = run.settings) (avoids : run.Avoids directory)
    (avoids' : run'.Avoids directory) (fs fs' : FileSystem) :
    run.finish.loader.Alike fs fs' directory run'.finish.loader := by
  have noSlash' : '/' ∉ run'.settings.extension.toList := settings ▸ noSlash
  refine ⟨run'.settings_finish.trans (settings.trans run.settings_finish.symm), ?_⟩
  rintro place ⟨file, rfl⟩
  rw [beside.entry?_eq_none noSlash avoids, beside'.entry?_eq_none noSlash' avoids']
  exact .none

theorem agrees_of_seesSame (tree : fs.IsTree) (tree' : fs'.IsTree)
    (noSlash : '/' ∉ run.settings.extension.toList)
    (sees : (run.scopeAt directory).SeesSame fs fs' directory file) {bytes : Bytes} {root : Image}
    (read : fs.readAt (directory ++ [file]) = .ok bytes) (decoded : Image.decode bytes = .ok root) :
    (run.scopeAt directory).Agrees fs fs' directory root where
  resolve onward member :=
    Scope.resolve_congr tree tree' sees.present sees.present' rfl noSlash fun unhosted =>
      sees.reached read decoded ⟨unhosted, _, onward, _, member, rfl⟩
  inside leads := ⟨_, Scope.location_of_resolve tree sees.present rfl noSlash leads⟩

/-- Where references are looked for next to the image that is loaded, all that is loaded comes from
there. Two loaders that loaded nothing from the directory load the same from it, up to load ids, from
file systems that only differ in files that no reference from there leads to. -/
theorem load_isolated (run : Run) (noSlash : '/' ∉ run.settings.extension.toList)
    (beside : run.Beside) (fs : FileSystem) (tree : fs.IsTree) (directory : Location)
    (file : String) (path : Path) :
    (fs.canonicalize path = .ok (directory ++ [file]) →
      ∀ m, (run.finish.loader.load fs path).1 = .ok m → m.Inside directory) ∧
    ∀ (run' : Run) (fs' : FileSystem), run'.settings = run.settings → run'.Beside →
      run.Avoids directory → run'.Avoids directory → fs'.IsTree →
      (run.scopeAt directory).SeesSame fs fs' directory file →
      (ProperName file ∧ path = (Location.path directory).join file ∨
        fs.canonicalize path = .ok (directory ++ [file]) ∧
          fs'.canonicalize path = .ok (directory ++ [file])) →
      (run'.finish.loader.load fs' path).1.map Module.unnumbered =
        (run.finish.loader.load fs path).1.map Module.unnumbered := by
  have scope : run.finish.loader.scope (Location.path directory) = run.scopeAt directory :=
    scope_finish _
  constructor
  · intro leads m loaded
    obtain ⟨e, there⟩ := tree.canonicalize_present leads
    have load := Loader.loadAtIf_loads fs (run.scopeAt directory) (directory ++ [file])
      (fun _ => true) run.finish.loader
    rw [Loader.load_of_ok leads, List.dropLast_concat, scope] at loaded
    rw [Loader.loadAt_eq, loaded] at load
    have inside := (load.inside tree (tree.directory_of_present there)
      (by rw [List.dropLast_concat]; rfl) noSlash (beside.holds_inside noSlash)).2 rfl
    rwa [List.dropLast_concat] at inside
  · intro run' fs' settings beside' avoids avoids' tree' sees spelled
    obtain ⟨same, leads_to⟩ := sees.canonicalize_eq tree tree' spelled
    -- Neither loader holds anything for the directory that the other does not.
    have alike := beside.alike noSlash beside' settings avoids avoids' fs fs'
    cases leads : fs.canonicalize path with
    | error cause => rw [Loader.load_of_error leads, Loader.load_of_error (same.trans leads)]
    | ok location =>
        obtain rfl := leads_to location leads
        have read : fs'.readAt (directory ++ [file]) = fs.readAt (directory ++ [file]) := by
          simp only [FileSystem.readAt, sees.self]
        rw [Loader.load_of_ok leads, Loader.load_of_ok (same.trans leads), List.dropLast_concat,
          Loader.scope_eq_of_settings alike.settings, scope]
        exact alike.loadAt ⟨file, rfl⟩ read fun read decoded =>
          agrees_of_seesSame tree tree' noSlash sees read decoded

end Run

/-! A module is loaded from another directory first, and from a directory that holds other files. -/

namespace Apart

open Pair (app lib decodes)

def crowded : FileSystem where
  entries := [(["App.rmod"], .file app.encode), (["Lib.rmod"], .file lib.encode),
    (["core.rmod"], .file []), (["other"], .directory),
    (["other", "Lib.rmod"], .file lib.encode)]
  workingDirectory := ["other"]

def run : Run := ⟨.default, Rule.expressive .builtin, [(crowded, .load ⟨"Lib.rmod"⟩)]⟩

def first : Run := ⟨.default, Rule.expressive .builtin, []⟩

theorem tree : crowded.IsTree := isTree_of_entries (by decide) rfl

theorem beside : run.Beside where
  tree member := by
    obtain ⟨rfl, -⟩ := Prod.mk.inj (List.mem_singleton.mp member)
    exact tree
  beside member target := by
    obtain ⟨rfl, rfl⟩ := Prod.mk.inj (List.mem_singleton.mp member)
    cases target with
    | load leads => rfl

theorem avoids : run.Avoids [] := by
  intro fs request location base wanted member target file same
  obtain ⟨rfl, rfl⟩ := Prod.mk.inj (List.mem_singleton.mp member)
  cases target with
  | load leads =>
      have there : crowded.canonicalize ⟨"Lib.rmod"⟩ = .ok ["other", "Lib.rmod"] := rfl
      rw [there] at leads
      cases leads
      simp at same

theorem find_lib : (run.scopeAt []).find crowded "Lib" = .image ["Lib.rmod"] lib.encode lib :=
  Scope.find_eq_image.mpr ⟨rfl, decodes lib (by simp), rfl⟩

theorem onward {x : Image} (onward : (run.scopeAt []).LeadsOn crowded app x) : x = app ∨ x = lib := by
  induction onward with
  | refl => exact .inl rfl
  | tail _ leads ih =>
      obtain ⟨r, member, place, bytes, found⟩ := leads
      rcases ih with rfl | rfl
      · obtain rfl : r = ⟨"Lib", none⟩ := by simpa [app] using member
        rw [find_lib] at found
        cases found
        exact .inr rfl
      · simp [lib] at member

theorem sees : (run.scopeAt []).SeesSame crowded Rebuilt.before [] "App.rmod" where
  present := rfl
  present' := rfl
  self := rfl
  reached := by
    rintro bytes root name read decoded ⟨-, x, leads, r, member, rfl⟩
    have contents : crowded.readAt ["App.rmod"] = .ok app.encode := rfl
    obtain ⟨-, rfl⟩ := image_unique contents (decodes app (by simp)) read decoded
    rcases onward leads with rfl | rfl
    · obtain rfl : r = ⟨"Lib", none⟩ := by simpa [app] using member
      rfl
    · simp [lib] at member

def libModule : Module := ⟨["Lib.rmod"], .ofBytes lib.encode, lib, [], [], 1⟩

def appModule : Module := ⟨["App.rmod"], .ofBytes app.encode, app, [libModule], [], 2⟩

theorem load_first : (first.finish.loader.load Rebuilt.before ⟨"/App.rmod"⟩).1 = .ok appModule := by
  have leads : Rebuilt.before.canonicalize ⟨"/App.rmod"⟩ = .ok ["App.rmod"] := rfl
  have read : Rebuilt.before.readAt ["App.rmod"] = .ok app.encode := rfl
  have found : (first.scopeAt []).find Rebuilt.before "Lib" = .image ["Lib.rmod"] lib.encode lib :=
    Scope.find_eq_image.mpr ⟨rfl, decodes lib (by simp), rfl⟩
  have walk : Follows Rebuilt.before (first.scopeAt []) ["App"] "App" app.references
      ⟨first.start.loader, []⟩ _ _ :=
    .linked (by decide) rfl found .nil (by decide) rfl .nil
  have loaded := Loader.loadAt_of_follows rfl read (decodes app (by simp)) walk rfl
  rw [Loader.load_of_ok leads]
  exact congrArg Prod.fst loaded

theorem first_beside : first.Beside := ⟨nofun, nofun⟩

theorem load_crowded :
    '/' ∉ run.settings.extension.toList ∧ run.Beside ∧ run.Avoids [] ∧ crowded.IsTree ∧
      (run.scopeAt []).SeesSame crowded Rebuilt.before [] "App.rmod" ∧
      (run.finish.loader.load crowded ⟨"/App.rmod"⟩).1.map Module.unnumbered =
        .ok appModule.unnumbered ∧
      appModule.Inside [] := by
  have noSlash : '/' ∉ run.settings.extension.toList := by decide
  have other := Rebuilt.isTree (List.Subset.refl _)
  have inside := (Run.load_isolated first noSlash first_beside Rebuilt.before other [] "App.rmod"
    ⟨"/App.rmod"⟩).1 rfl appModule load_first
  have named : File.EntryName "App.rmod" := by decide
  have same := (Run.load_isolated run noSlash beside crowded tree [] "App.rmod" ⟨"/App.rmod"⟩).2
    first Rebuilt.before rfl first_beside avoids nofun other sees (.inl ⟨named.toProperName, rfl⟩)
  rw [load_first] at same
  exact ⟨noSlash, beside, avoids, tree, sees, same.symm, inside⟩

end Apart

end RuleLint
