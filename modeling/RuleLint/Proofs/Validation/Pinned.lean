import RuleLint.Proofs.Module.Joining
import RuleLint.Proofs.Validation.Once

namespace RuleLint

open File (Path Location FileSystem)

theorem Validator.run_grows_of_pinned {v : Validator} {moments : List (FileSystem × Request)}
    (pinned : v.loader.settings.cachePolicy = .pinned)
    (lasting : ∀ moment ∈ moments, moment.2.Lasting) :
    v.loader.Extends (v.run moments).loader := by
  refine (run_keeps (P := fun w => v.loader.Extends w.loader) ?_ (.refl _))
  intro w fs request member grown
  have settled : w.loader.Settled fs :=
    Loader.settled_of_pinned ((congrArg Settings.cachePolicy grown.settings).trans pinned)
  exact grown.trans (grows_of_lasting settled (lasting _ member)).1

theorem Validator.linked_of_new {v : Validator} {fs : FileSystem} {request : Request}
    {place : Location} {e : CacheEntry} (settled : v.loader.Settled fs) (lasting : request.Lasting)
    (new : (v.after fs request).loader.cache.entry? place = some e)
    (absent : v.loader.cache.entry? place = none) :
    ∃ location directory wanted, request.Targets v.subsystem fs location directory wanted ∧
      v.loader.Extends (v.after fs request).loader ∧
      (v.after fs request).loader.Linked fs (v.loader.scope directory) location e := by
  rcases after_of_lasting fs v lasting with same | ⟨location, directory, wanted, target, loaded⟩
  · rw [same, absent] at new
    cases new
  · have gains := settled.gains (v.loader.scope directory) location wanted
    rw [← loaded] at gains
    have linked := (gains.linked_of_new settled new).resolve_left (by simp [absent])
    exact ⟨location, directory, wanted, target, gains.extends_loader settled, linked⟩

theorem keeps_located (fs : FileSystem) (scope : Scope) (policy : CachePolicy) :
    Keeps fs scope policy (fun place e => e.module.location = place)
      (fun place m => m.location = place) fun _ _ => True where
  hit _ located _ := located
  enter _ _ _ _ := trivial
  new _ _ _ _ _ := ⟨rfl, rfl⟩

namespace Run

variable {run : Run} {fs : FileSystem}

theorem located (run : Run) : run.finish.loader.Holds fun place e => e.module.location = place :=
  holds_of_loads (fun _ _ load _ holds =>
    (load.keeps (keeps_located _ _ _) (fun located _ => located) (fun _ _ => trivial)
      (fun _ _ _ _ _ => ⟨rfl, rfl⟩) rfl holds).1) (List.Subset.refl _)

/-- What is in the cache stays there and is handed out for its file, whatever the file holds. What a
request adds to the cache is linked with nothing else, and with what was stored before for each file
that it refers to, except by the name of the image that was asked for, if that is in another file. -/
theorem pinned_stays (run : Run) (pinned : run.settings.cachePolicy = .pinned)
    (lasting : ∀ moment ∈ run.moments, moment.2.Lasting) :
    (∀ place e, run.finish.loader.cache.entry? place = some e →
      e.module.location = place ∧
        ∀ later : List (FileSystem × Request), (∀ moment ∈ later, moment.2.Lasting) →
          ∀ fs path, fs.canonicalize path = .ok place →
            (run.finish.run later).loader.load fs path =
              (.ok e.module, (run.finish.run later).loader)) ∧
      ∀ fs request, request.Lasting →
        ∀ place' e', (run.next fs request).finish.loader.cache.entry? place' = some e' →
          run.finish.loader.cache.entry? place' = none →
            ∃ location directory wanted,
              request.Targets run.subsystem fs location directory wanted ∧
                ∀ place e, (run.next fs request).finish.loader.cache.entry? place = some e →
                  (∀ d ∈ e'.module.dependencies, d.location = place → d = e.module) ∧
                  (run.finish.loader.cache.entry? place = some e ∨
                      e.module.loadId < e'.module.loadId →
                    ∀ r ∈ e'.module.image.references, ∀ bytes,
                      (run.start.loader.scope directory).resolve fs r.name = .image place bytes →
                        e.module ∈ e'.module.dependencies ∨
                          place ≠ location ∧ ∃ bytes root, fs.readAt location = .ok bytes ∧
                            Image.decode bytes = .ok root ∧ r.name = root.name) := by
  have grown : run.start.loader.Extends run.finish.loader :=
    Validator.run_grows_of_pinned pinned lasting
  have policy : run.finish.loader.settings.cachePolicy = .pinned :=
    (congrArg Settings.cachePolicy grown.settings).trans pinned
  constructor
  · intro place e entry
    refine ⟨run.located place e entry, fun later lasting' fs path leads => ?_⟩
    have grows := Validator.run_grows_of_pinned (v := run.finish) policy lasting'
    have settled : (run.finish.run later).loader.Settled fs :=
      Loader.settled_of_pinned ((congrArg Settings.cachePolicy grows.settings).trans policy)
    exact Loader.load_of_settled settled leads (grows.entries entry)
  · intro fs request lasts place' e' new absent
    have located := (run.next fs request).located
    rw [finish_next] at new ⊢
    rw [finish_next] at located
    have settled : run.finish.loader.Settled fs := Loader.settled_of_pinned policy
    obtain ⟨location, directory, wanted, target, grows, linked⟩ :=
      Validator.linked_of_new settled lasts new absent
    rw [show run.finish.subsystem = run.subsystem from Validator.run_subsystem _ _] at target
    refine ⟨location, directory, wanted, target, fun place e entry => ⟨?_, ?_⟩⟩
    · rintro d dependency rfl
      obtain ⟨place, e'', entry'', rfl⟩ := linked.held d dependency
      rw [located place e'' entry''] at entry
      rw [entry''] at entry
      cases entry
      rfl
    · intro before r member bytes leads
      rw [← scope_finish] at leads
      refine linked.joins r member place bytes e leads entry ?_
      rcases before with before | earlier
      -- What was there before the request has a load id below those of the modules it builds.
      · rcases grown.recent before with start | ⟨-, bound⟩
        · cases start
        · rcases grows.recent new with old | ⟨later, -⟩
          · rw [absent] at old
            cases old
          · omega
      · exact earlier

end Run

/-! The file `Copy.rmod` declares the module `App` too, and refers to `Lib`, which refers to `App`. -/

namespace Copied

def app : Image := .referring "App" []

def copy : Image := .referring "App" ["Lib"]

def lib : Image := .referring "Lib" ["App"]

def files : FileSystem where
  entries := [(["App.rmod"], .file app.encode), (["Copy.rmod"], .file copy.encode),
    (["Lib.rmod"], .file lib.encode)]
  workingDirectory := []

theorem decodes : ∀ image ∈ [app, copy, lib], Image.decode image.encode = .ok image :=
  decodes_of_short (by decide +kernel)

def run : Run :=
  ⟨{ Settings.default with cachePolicy := .pinned }, Rule.expressive .builtin,
    [(files, .load ⟨"/App.rmod"⟩)]⟩

def appEntry : CacheEntry :=
  ⟨.ofBytes app.encode, ⟨["App.rmod"], .ofBytes app.encode, app, [], [], 1⟩⟩

def libEntry : CacheEntry :=
  ⟨.ofBytes lib.encode, ⟨["Lib.rmod"], .ofBytes lib.encode, lib, [], [], 2⟩⟩

def warm : Loader where
  extension := "rmod"
  hosts := ["core"]
  cache := ⟨.pinned, [(["App.rmod"], appEntry)]⟩
  loads := 1
  scopes := .empty

def warmer : Loader :=
  { warm with cache := ⟨.pinned, [(["Lib.rmod"], libEntry), (["App.rmod"], appEntry)]⟩, loads := 2 }

theorem finish_run : run.finish.loader = warm := by
  have leads : files.canonicalize ⟨"/App.rmod"⟩ = .ok ["App.rmod"] := rfl
  have read : files.readAt ["App.rmod"] = .ok app.encode := rfl
  have walk : Follows files (run.scopeAt []) ["App"] "App" app.references
      ⟨run.start.loader, []⟩ [] ⟨run.start.loader, []⟩ := .nil
  have loaded := Loader.loadAt_of_follows rfl read (decodes app (by simp)) walk rfl
  change (run.start.loader.load files ⟨"/App.rmod"⟩).2 = warm
  rw [Loader.load_of_ok leads]
  exact congrArg Prod.snd loaded

theorem find_lib :
    (run.scopeAt []).find files "Lib" = .image ["Lib.rmod"] lib.encode lib :=
  Scope.find_eq_image.mpr ⟨rfl, decodes lib (by simp), rfl⟩

theorem walk : Follows files (run.scopeAt []) ["App"] "App" copy.references ⟨warm, []⟩
    [.module libEntry.module] ⟨warmer, []⟩ :=
  .linked (by decide) rfl find_lib (.cyclic (by decide) .nil) (by decide) rfl .nil

theorem entry_lib :
    (run.next files (.load ⟨"/Copy.rmod"⟩)).finish.loader.cache.entry? ["Lib.rmod"] =
      some libEntry := by
  have leads : files.canonicalize ⟨"/Copy.rmod"⟩ = .ok ["Copy.rmod"] := rfl
  have read : files.readAt ["Copy.rmod"] = .ok copy.encode := rfl
  have loaded := Loader.loadAt_of_follows rfl read (decodes copy (by simp)) walk rfl
  rw [Run.finish_next]
  change (run.finish.loader.load files ⟨"/Copy.rmod"⟩).2.cache.entry? ["Lib.rmod"] = _
  rw [Loader.load_of_ok leads, finish_run]
  exact congrArg (fun answer => answer.2.cache.entry? ["Lib.rmod"]) loaded

end Copied

theorem Run.pinned_passes_over :
    ¬ ∀ (run : Run) (fs : FileSystem) (request : Request) (location : Location) (directory : Path)
        (wanted : Image → Bool), run.settings.cachePolicy = .pinned →
      (∀ moment ∈ run.moments, moment.2.Lasting) → request.Lasting →
      request.Targets run.subsystem fs location directory wanted →
      ∀ place e place' e', run.finish.loader.cache.entry? place = some e →
        (run.next fs request).finish.loader.cache.entry? place' = some e' →
        run.finish.loader.cache.entry? place' = none →
        ∀ r ∈ e'.module.image.references, ∀ bytes,
          (run.start.loader.scope directory).resolve fs r.name = .image place bytes →
            e.module ∈ e'.module.dependencies := by
  intro joins
  have lasting : ∀ moment ∈ Copied.run.moments, moment.2.Lasting := by
    simp [Copied.run, Request.Lasting]
  have before (place : Location) :
      Copied.run.finish.loader.cache.entry? place = Copied.warm.cache.entry? place := by
    rw [Copied.finish_run]
  have member := joins Copied.run Copied.files (.load ⟨"/Copy.rmod"⟩) ["Copy.rmod"] _ _ rfl lasting
    trivial (.load rfl) ["App.rmod"] Copied.appEntry ["Lib.rmod"] Copied.libEntry (before _)
    Copied.entry_lib (before _) ⟨"App", none⟩ (by simp [Copied.libEntry, Copied.lib])
    Copied.app.encode rfl
  simp [Copied.libEntry] at member

/-- The file of `App` is spoilt and that of `Lib` is gone, and `App` is still loaded. -/
theorem Copied.stays :
    run.settings.cachePolicy = .pinned ∧ (∀ moment ∈ run.moments, moment.2.Lasting) ∧
      run.finish.loader.cache.entry? ["App.rmod"] = some appEntry ∧
      ((run.finish.run [(files, .check ⟨"/Copy.rmod"⟩)]).loader.load
        ⟨[(["App.rmod"], .file [])], []⟩ ⟨"/App.rmod"⟩).1 = .ok appEntry.module := by
  have lasting : ∀ moment ∈ run.moments, moment.2.Lasting := by simp [run, Request.Lasting]
  have entry : run.finish.loader.cache.entry? ["App.rmod"] = some appEntry := by
    rw [finish_run]
    rfl
  have again := ((Run.pinned_stays run rfl lasting).1 ["App.rmod"] appEntry entry).2
    [(files, .check ⟨"/Copy.rmod"⟩)] (by simp [Request.Lasting])
    ⟨[(["App.rmod"], .file [])], []⟩ ⟨"/App.rmod"⟩ rfl
  exact ⟨rfl, lasting, entry, congrArg Prod.fst again⟩

end RuleLint
