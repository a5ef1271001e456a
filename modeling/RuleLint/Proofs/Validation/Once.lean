import RuleLint.Proofs.Module.Settled
import RuleLint.Proofs.Validation.Naming

namespace RuleLint

open File (Path Location FileSystem)

namespace Loader

variable {fs : FileSystem} {path : Path} {location : Location} {l : Loader} {e : CacheEntry}
  {m : Module}

theorem loadAt_of_loadAtIf {scope : Scope} {l' : Loader}
    (loaded : l.loadAtIf fs scope location (fun _ => true) = (.ok (some m), l')) :
    l.loadAt fs scope location = (.ok m, l') := by
  rw [loadAt_eq] at loaded
  generalize l.loadAt fs scope location = answer at loaded ⊢
  obtain ⟨result, after⟩ := answer
  cases result with
  | error cause => cases loaded
  | ok m =>
      cases loaded
      rfl

theorem load_of_settled (settled : l.Settled fs) (leads : fs.canonicalize path = .ok location)
    (entry : l.cache.entry? location = some e) : l.load fs path = (.ok e.module, l) := by
  rw [load_of_ok leads]
  exact loadAt_of_loadAtIf (loadAtIf_of_current entry (settled.current entry))

end Loader

namespace Validator

variable {fs : FileSystem} {v : Validator} {request : Request}

theorem grows_of_lasting (settled : v.loader.Settled fs) (lasting : request.Lasting) :
    v.loader.Extends (v.after fs request).loader ∧ (v.after fs request).loader.Settled fs := by
  rcases after_of_lasting fs v lasting with same | ⟨location, directory, wanted, -, loaded⟩
  · rw [same]
    exact ⟨.refl _, settled⟩
  · rw [loaded]
    exact ⟨(settled.gains _ _ _).extends_loader settled, settled.loadAtIf⟩

theorem run_grows {moments : List (FileSystem × Request)} (settled : v.loader.Settled fs)
    (still : ∀ moment ∈ moments, moment.1 = fs ∧ moment.2.Lasting) :
    v.loader.Extends (v.run moments).loader ∧ (v.run moments).loader.Settled fs := by
  refine run_keeps (P := fun w => v.loader.Extends w.loader ∧ w.loader.Settled fs) ?_
    ⟨.refl _, settled⟩
  rintro w _ request member ⟨grown, settled⟩
  obtain ⟨rfl, lasting⟩ := still _ member
  obtain ⟨grows, settled'⟩ := grows_of_lasting settled lasting
  exact ⟨grown.trans grows, settled'⟩

end Validator

namespace Run

variable {run : Run} {fs : FileSystem}

theorem settled_start : run.start.loader.Settled fs := fun _ => run.start_holds _

theorem finish_next (run : Run) (fs : FileSystem) (request : Request) :
    (run.next fs request).finish = run.finish.after fs request := by
  simp only [finish, next, Validator.run, List.foldl_append]
  rfl

theorem finish_grows (still : ∀ moment ∈ run.moments, moment.1 = fs ∧ moment.2.Lasting) :
    run.start.loader.Extends run.finish.loader ∧ run.finish.loader.Settled fs :=
  Validator.run_grows settled_start still

/-- As long as no file is changed and nothing is dropped there are as many entries as images that
were built, and every load of a file that was loaded before gives the module that it gave then. -/
theorem loads_once (run : Run) (fs : FileSystem)
    (still : ∀ moment ∈ run.moments, moment.1 = fs ∧ moment.2.Lasting) :
    run.finish.loader.loads = run.finish.loader.cache.size ∧
      ∀ path m, (run.finish.loader.load fs path).1 = .ok m →
        ∀ later : List Request, (∀ request ∈ later, request.Lasting) →
          ∀ path', fs.canonicalize path' = fs.canonicalize path →
            (((run.next fs (.load path)).finish.run (later.map (fs, ·))).loader.load fs path').1 =
              .ok m := by
  obtain ⟨grown, settled⟩ := finish_grows still
  constructor
  · have loads : run.start.loader.loads = 0 := rfl
    have size : run.start.loader.cache.size = 0 := rfl
    have same := grown.size
    omega
  · intro path m loaded later lasting path' same
    cases leads : fs.canonicalize path with
    | error cause => simp [Loader.load_of_error leads] at loaded
    | ok location =>
        have gains := settled.gains (run.finish.loader.scope (Location.path location.dropLast))
          location fun _ => true
        rw [Loader.loadAt_eq, ← Loader.load_of_ok leads, loaded] at gains
        obtain ⟨e, entry, rfl⟩ := gains.stored rfl
        have loads : (Request.load path).Lasting := trivial
        obtain ⟨-, settled'⟩ := Validator.grows_of_lasting settled loads
        have held : ∀ moment ∈ later.map (fs, ·), moment.1 = fs ∧ moment.2.Lasting := by
          simpa using lasting
        obtain ⟨grows, settled''⟩ := Validator.run_grows settled' held
        rw [finish_next, Loader.load_of_settled settled'' (same.trans leads) (grows.entries entry)]

end Run

/-! A file is loaded by itself and again as a dependency, by a name that it does not declare. -/

theorem Misnamed.linked_once :
    (∀ moment ∈ run.moments, moment.1 = files ∧ moment.2.Lasting) ∧
      run.finish.loader.loads = run.finish.loader.cache.size ∧
      (run.finish.loader.load files ⟨"/App.rmod"⟩).1 = .ok linked ∧
      (((run.next files (.load ⟨"/App.rmod"⟩)).finish.run
          [(files, .check ⟨"/Shared.rmod"⟩)]).loader.load files ⟨"/./App.rmod"⟩).1 = .ok linked := by
  have still : ∀ moment ∈ run.moments, moment.1 = files ∧ moment.2.Lasting := by
    simp [run, Request.Lasting]
  obtain ⟨count, again⟩ := Run.loads_once run files still
  exact ⟨still, count, load_app,
    again _ _ load_app [.check ⟨"/Shared.rmod"⟩] (by simp [Request.Lasting]) _ rfl⟩

end RuleLint
