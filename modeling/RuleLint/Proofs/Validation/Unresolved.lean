import RuleLint.Proofs.Module.Survey
import RuleLint.Proofs.Validation.Outcome

namespace RuleLint

open File (Path Location FileSystem)
open Relation (ReflTransGen)

/-- A reference to the name cannot be resolved: neither the host nor the root is meant, and no file
of the directory that is called after the name holds an image that declares it. -/
structure Scope.Unresolvable (s : Scope) (fs : FileSystem) (root : Image) (name : String) : Prop where
  unhosted : name ∉ s.hosts
  other : name ≠ root.name
  lost : ¬ ∃ path location bytes image, candidate? s.directory s.extension name = some path ∧
    fs.canonicalize path = .ok location ∧ fs.readAt location = .ok bytes ∧
    Image.decode bytes = .ok image ∧ image.name = name

def Image.Mentions (image : Image) (name : String) : Prop := ∃ r ∈ image.references, r.name = name

namespace Scope

variable {s : Scope} {fs : FileSystem} {root : Image} {name : String} {probes : List Probe}

theorem unresolvable_iff :
    s.Unresolvable fs root name ↔ name ≠ root.name ∧ ∃ probes, s.find fs name = .refused probes := by
  constructor
  · rintro ⟨unhosted, other, lost⟩
    refine ⟨other, ?_⟩
    cases found : s.find fs name with
    | host => exact absurd (find_eq_host.mp found) unhosted
    | refused probes => exact ⟨probes, rfl⟩
    | image location bytes image =>
        obtain ⟨resolved, decoded, named⟩ := find_eq_image.mp found
        obtain ⟨path, called, leads, read⟩ := resolveFile_eq_ok.mp (resolve_eq_image.mp resolved).2
        exact absurd ⟨path, location, bytes, image, called, leads, read, decoded, named⟩ lost
  · rintro ⟨other, probes, refused⟩
    have unhosted : name ∉ s.hosts := fun hosted => by
      rw [find_eq_host.mpr hosted] at refused
      cases refused
    refine ⟨unhosted, other, ?_⟩
    rintro ⟨path, location, bytes, image, called, leads, read, decoded, named⟩
    have file := resolveFile_eq_ok.mpr ⟨path, called, leads, read⟩
    rw [find_eq_image.mpr ⟨resolve_eq_image.mpr ⟨unhosted, file⟩, decoded, named⟩] at refused
    cases refused

theorem probes_ne_nil (refused : s.find fs name = .refused probes) : probes ≠ [] := by
  unfold find at refused
  split at refused
  · cases refused
  · rename_i resolved
    cases refused
    unfold resolve at resolved
    split at resolved
    · cases resolved
    · split at resolved
      · cases resolved
      · cases resolved
        simp
  · split at refused
    · cases refused
      simp
    · split at refused <;> cases refused
      simp

end Scope

namespace Loader

variable {l : Loader} {fs : FileSystem} {path : Path} {location : Location} {root : Image}

theorem load_of_shows (empty : ∀ place, l.cache.entry? place = none)
    (shown : Shows fs path location root) :
    ∃ l₁ links s, (∀ place, l₁.cache.entry? place = none) ∧
      Follows fs (l.scope (Location.path location.dropLast)) [root.name] root.name root.references
        ⟨l₁, []⟩ links s ∧
      ((s.failures = [] ∧ ∃ m, (l.load fs path).1 = .ok m) ∨
        (s.failures ≠ [] ∧ (l.load fs path).1 =
          .error (.unresolved ⟨root.name, location.path, s.failures⟩))) := by
  obtain ⟨bytes, leads, read, decoded⟩ := shown
  have load := loadAtIf_loads fs (l.scope (Location.path location.dropLast)) location
    (fun _ => true) l
  rw [loadAt_eq, ← load_of_ok leads] at load
  generalize l.load fs path = loaded at load ⊢
  obtain ⟨result, l'⟩ := loaded
  cases result with
  | error cause =>
      cases load with
      | unreadable failed => simp [read] at failed
      | malformed forgets read' failed =>
          rw [read] at read'
          cases read'
          simp [decoded] at failed
      | unresolved forgets read' decoded' accepted walk broken =>
          obtain ⟨rfl, rfl⟩ := image_unique read decoded read' decoded'
          exact ⟨_, _, _, forgets.entry?_eq_none empty, walk, .inr ⟨broken, rfl⟩⟩
  | ok m =>
      generalize same : (Except.ok m : Except LoadError Module).map some = loaded at load
      cases load with
      | cached entry current => simp [empty] at entry
      | unreadable failed => cases same
      | malformed forgets read' failed => cases same
      | unwanted forgets read' decoded' refused => cases refused
      | linked forgets read' decoded' accepted walk whole stale =>
          obtain ⟨rfl, rfl⟩ := image_unique read decoded read' decoded'
          exact ⟨_, _, _, forgets.entry?_eq_none empty, walk, .inl ⟨whole, m, rfl⟩⟩
      | unresolved forgets read' decoded' accepted walk broken => cases same

/-- A load fails exactly if an image that the root spans has a reference that cannot be resolved, and
then it reports these references and no others. -/
theorem load_unresolved (l : Loader) (fs : FileSystem) (path : Path) (location : Location)
    (root : Image) (empty : ∀ place, l.cache.entry? place = none)
    (shown : Shows fs path location root)
    (separates : (l.scope (Location.path location.dropLast)).Separates fs) :
    let scope := l.scope (Location.path location.dropLast)
    ((∃ failure, (l.load fs path).1 = .error (.unresolved failure)) ↔
      ∃ x name, scope.Spans fs root x ∧ x.Mentions name ∧ scope.Unresolvable fs root name) ∧
    ∀ failure, (l.load fs path).1 = .error (.unresolved failure) →
      (∀ name requester, (∃ f ∈ failure.failures, f.name = name ∧ f.requestedBy = requester) ↔
        ∃ x, scope.Spans fs root x ∧ x.name = requester ∧ x.Mentions name ∧
          scope.Unresolvable fs root name) ∧
      ∀ f ∈ failure.failures, f.probes ≠ [] := by
  intro scope
  obtain ⟨l₁, links, s, fresh, walk, outcome⟩ := load_of_shows empty shown
  have reported (name requester : String) :
      (∃ f ∈ s.failures, f.name = name ∧ f.requestedBy = requester) ↔
        ∃ x, scope.Spans fs root x ∧ x.name = requester ∧ x.Mentions name ∧
          scope.Unresolvable fs root name := by
    rw [walk.mem_failures_iff separates fresh]
    refine exists_congr fun x => and_congr_right' (and_congr_right' ?_)
    rw [Scope.unresolvable_iff]
    constructor
    · rintro ⟨r, member, same, lost⟩
      exact ⟨⟨r, member, same⟩, lost⟩
    · rintro ⟨⟨r, member, same⟩, lost⟩
      exact ⟨r, member, same, lost⟩
  have broken : s.failures ≠ [] ↔
      ∃ x name, scope.Spans fs root x ∧ x.Mentions name ∧ scope.Unresolvable fs root name := by
    constructor
    · intro broken
      obtain ⟨f, member⟩ := List.exists_mem_of_ne_nil _ broken
      obtain ⟨x, spans, -, mentions, lost⟩ := (reported f.name f.requestedBy).mp ⟨f, member, rfl, rfl⟩
      exact ⟨x, f.name, spans, mentions, lost⟩
    · rintro ⟨x, name, spans, mentions, lost⟩
      obtain ⟨f, member, -⟩ := (reported name x.name).mpr ⟨x, spans, rfl, mentions, lost⟩
      exact List.ne_nil_of_mem member
  rw [← broken]
  rcases outcome with ⟨whole, m, loaded⟩ | ⟨failed, loaded⟩
  · simp [loaded, whole]
  · refine ⟨⟨fun _ => failed, fun _ => ⟨_, loaded⟩⟩, ?_⟩
    intro failure same
    rw [loaded] at same
    cases same
    refine ⟨reported, fun f member => ?_⟩
    obtain ⟨x, -, -, r, -, -, -, refused⟩ :=
      walk.failures_report .refl (by simp) rfl (List.Subset.refl _) (by simp) f member
    exact Scope.probes_ne_nil refused

end Loader

/-! Two modules refer to each other, and one of them to a module that is missing. -/

namespace Tangled

open Pair (app)

def lib : Image := .referring "Lib" ["App", "Gone"]

def files : FileSystem where
  entries := [(["App.rmod"], .file app.encode), (["Lib.rmod"], .file lib.encode)]
  workingDirectory := []

def start : Loader := .new .default

theorem decodes : ∀ image ∈ [app, lib], Image.decode image.encode = .ok image :=
  decodes_of_short (by decide +kernel)

theorem shows_app : Shows files ⟨"/App.rmod"⟩ ["App.rmod"] app :=
  ⟨app.encode, rfl, rfl, decodes app (by simp)⟩

theorem separates : (start.scope ⟨"/"⟩).Separates files :=
  Scope.separates_of_noSlash (by decide)

theorem spans_lib : (start.scope ⟨"/"⟩).Spans files app lib :=
  .single ⟨⟨⟨"Lib", none⟩, by simp [app], _, _,
    Scope.find_eq_image.mpr ⟨rfl, decodes lib (by simp), rfl⟩⟩, by decide⟩

theorem unresolvable_gone : (start.scope ⟨"/"⟩).Unresolvable files app "Gone" :=
  Scope.unresolvable_iff.mpr ⟨by decide, _, rfl⟩

theorem reports_gone : (∀ place, start.cache.entry? place = none) ∧
    Shows files ⟨"/App.rmod"⟩ ["App.rmod"] app ∧ (start.scope ⟨"/"⟩).Separates files ∧
    ∃ failure, (start.load files ⟨"/App.rmod"⟩).1 = .error (.unresolved failure) ∧
      ∃ f ∈ failure.failures, f.name = "Gone" ∧ f.requestedBy = "Lib" := by
  have mentions : lib.Mentions "Gone" := ⟨⟨"Gone", none⟩, by simp [lib], rfl⟩
  have reports := Loader.load_unresolved start files ⟨"/App.rmod"⟩ ["App.rmod"] app (fun _ => rfl)
    shows_app separates
  obtain ⟨failure, failed⟩ := reports.1.mpr ⟨lib, "Gone", spans_lib, mentions, unresolvable_gone⟩
  refine ⟨fun _ => rfl, shows_app, separates, failure, failed, ?_⟩
  exact ((reports.2 failure failed).1 "Gone" "Lib").mpr
    ⟨lib, spans_lib, rfl, mentions, unresolvable_gone⟩

end Tangled

theorem OwnName.load_root : ∃ m, (start.loader.load files ⟨"/Copy.rmod"⟩).1 = .ok m := by
  have leads : files.canonicalize ⟨"/Copy.rmod"⟩ = .ok ["Copy.rmod"] := rfl
  rw [Loader.load_of_ok leads]
  exact ⟨_, congrArg Prod.fst (Loader.loadAt_of_follows rfl rfl (decodes root (by simp)) walk rfl)⟩

theorem TwoNames.load_app : ∃ m, (start.loader.load files ⟨"/App.img"⟩).1 = .ok m := by
  have leads : files.canonicalize ⟨"/App.img"⟩ = .ok ["App.img"] := rfl
  rw [Loader.load_of_ok leads]
  exact ⟨_, congrArg Prod.fst (Loader.loadAt_of_follows rfl rfl (decodes app (by simp)) walk rfl)⟩

/-- A load does not fail for every reference that cannot be resolved: neither where references to the
root's own name lead to other images, nor where one file goes by two names. -/
theorem Loader.load_leaves_out :
    (¬ ∀ (l : Loader) fs path location root, (∀ place, l.cache.entry? place = none) →
      Shows fs path location root →
      ((∃ failure, (l.load fs path).1 = .error (.unresolved failure)) ↔
        ∃ (x : Image) (name : String),
          ReflTransGen ((l.scope (Location.path location.dropLast)).Leads fs) root x ∧
            x.Mentions name ∧
            (l.scope (Location.path location.dropLast)).Unresolvable fs root name)) ∧
    (¬ ∀ (l : Loader) fs path location root, (∀ place, l.cache.entry? place = none) →
      Shows fs path location root →
      ((∃ failure, (l.load fs path).1 = .error (.unresolved failure)) ↔
        ∃ (x : Image) (name : String),
          (l.scope (Location.path location.dropLast)).Spans fs root x ∧ x.Mentions name ∧
            (l.scope (Location.path location.dropLast)).Unresolvable fs root name)) := by
  constructor
  · intro each
    have lost : OwnName.scope.Unresolvable OwnName.files OwnName.root "Missing" :=
      Scope.unresolvable_iff.mpr ⟨by decide, _, rfl⟩
    have mentions : OwnName.other.Mentions "Missing" := ⟨_, List.mem_singleton.mpr rfl, rfl⟩
    obtain ⟨failure, failed⟩ := (each OwnName.start.loader _ _ _ _ (fun _ => rfl)
      OwnName.shows_root).mpr ⟨_, _, .single OwnName.leads_other, mentions, lost⟩
    obtain ⟨m, loaded⟩ := OwnName.load_root
    cases loaded.symm.trans failed
  · intro each
    obtain ⟨r, member, other, probes, refused⟩ := TwoNames.dangles_app
    have lost : TwoNames.scope.Unresolvable TwoNames.files TwoNames.app r.name :=
      Scope.unresolvable_iff.mpr ⟨other, probes, refused⟩
    obtain ⟨failure, failed⟩ := (each TwoNames.start.loader _ _ _ _ (fun _ => rfl)
      TwoNames.shows_app).mpr ⟨_, _, .refl, ⟨r, member, rfl⟩, lost⟩
    obtain ⟨m, loaded⟩ := TwoNames.load_app
    cases loaded.symm.trans failed

end RuleLint
