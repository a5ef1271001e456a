import RuleLint.Proofs.Module.Coverage
import RuleLint.Proofs.Module.Recalling
import RuleLint.Proofs.Rule.Compiling
import RuleLint.Proofs.Rule.Parsing
import RuleLint.Proofs.Validation.Requests

/-!
# The order of validations

What a validation finds does not depend on the validations before it, as long as the references from
its module do not lead through two modules in a circle (`Validator.check_of_untangled`). In a circle
it does: a module that is linked on the way back to another is cached without that one.
-/

namespace RuleLint

open File (Path Location FileSystem)
open Rule (Toolchain)

/-- No two images that the references lead to refer to each other, over any number of steps. -/
def Untangled (fs : FileSystem) (directory : Location) (passed : List String) (image : Image) :
    Prop :=
  ∀ a b, Reaches fs directory passed image a → Reaches fs directory passed a b →
    Reaches fs directory passed b a → a = b

section

variable {fs : FileSystem} {scope : Scope} {directory place : Location}

theorem Orderly.steady_of_untangled (orderly : Orderly fs scope directory) :
    Steady fs scope directory scope.hosts (Untangled fs directory scope.hosts) fun _ => True where
  orderly := orderly
  part := List.Subset.refl _
  down := by
    intro a b untangled refers c d reaches
    exact untangled c d (.head refers reaches)
  excused := by
    intro stack image r untangled trail member onStack
    by_cases hosted : r.name ∈ scope.hosts
    · exact .inr hosted
    · obtain ⟨a, named, refers, reaches⟩ := trail.cycle member onStack hosted
      have same : image = a := untangled image a .refl (.single refers) reaches
      exact .inl (named.symm.trans (congrArg Image.name same.symm))
  listed := fun _ _ _ _ _ _ => trivial

theorem images_eq_of_trusted {H : Image → Prop} {m m' : Module}
    (trusted : Trusted fs scope H (fun _ => True) place m)
    (trusted' : Trusted fs scope H (fun _ => True) place m') (holds : H m.image) :
    m.tree.map (·.image) = m'.tree.map (·.image) := by
  obtain ⟨bytes, read, -, decoded⟩ := trusted.read
  obtain ⟨bytes', read', -, decoded'⟩ := trusted'.read
  rw [read'] at read
  cases read
  rw [decoded'] at decoded
  refine Faithful.same (f := fun m => m.tree.map (·.image)) ?_ m m'
    (trusted.location.trans trusted'.location.symm) (trusted.tree holds)
    (trusted'.tree (Except.ok.inj decoded ▸ holds))
  intro m m' _ _ _ _ image dependencies
  have below (m : Module) : m.tree.map (·.image) =
      m.image :: (m.dependencies.map fun d => d.tree.map (·.image)).flatten := by
    rw [Module.tree_eq, List.map_cons, List.map_flatMap, List.flatMap_def]
  rw [below, below, image, dependencies]

namespace Run

variable {run : Run}

def Sound (run : Run) (fs : FileSystem) (directory : Location) : Location → Module → Prop :=
  Trusted fs (run.scopeAt directory) (Untangled fs directory run.settings.hostModules) fun _ => True

theorem gives_of_untangled (tree : fs.IsTree) (tidy : Tidy fs run.settings.extension directory)
    {location : Location} {wanted : Image → Bool} {l l' : Loader}
    {result : Except LoadError (Option Module)} (inside : location.dropLast = directory)
    (load : Loads fs (run.scopeAt directory) location wanted l result l')
    (holds : l.Holds fun place e => run.Sound fs directory place e.module) :
    (l'.Holds fun place e => run.Sound fs directory place e.module) ∧
      ((∀ {bytes image}, fs.readAt location = .ok bytes → Image.decode bytes = .ok image →
          Untangled fs directory run.settings.hostModules image) →
        Gives fs (run.scopeAt directory) (Untangled fs directory run.settings.hostModules)
          (fun _ => True) location wanted result) :=
  load.gives inside (fun _ sound _ => sound) (fun _ trusted => trusted) rfl holds
    fun inside => (inside.orderly tree rfl tidy).steady_of_untangled

theorem holds_sound (tree : fs.IsTree) (tidy : Tidy fs run.settings.extension directory)
    {paths : List Path} (checks : run.moments = paths.map fun p => (fs, .check p))
    (inside : ∀ p ∈ paths, ∀ location, fs.canonicalize p = .ok location →
      location.dropLast = directory) :
    run.finish.loader.Holds fun place e => run.Sound fs directory place e.module := by
  refine holds_of_loads ?_ (List.Subset.refl _)
  intro fs' request location base wanted l result l' member target load _ holds
  rw [checks] at member
  obtain ⟨p, listed, same⟩ := List.mem_map.mp member
  cases same
  cases target with
  | check leads =>
      have here := inside p listed location leads
      rw [here] at load
      exact (gives_of_untangled tree tidy here load holds).1

theorem relevant_gives (tree : fs.IsTree) (tidy : Tidy fs run.settings.extension directory)
    {path : Path} {location : Location} (leads : fs.canonicalize path = .ok location)
    (inside : location.dropLast = directory) {v : Validator}
    (settings : v.loader.settings = run.settings) (subsystem : v.subsystem = run.subsystem)
    (holds : v.loader.Holds fun place e => run.Sound fs directory place e.module)
    (untangled : ∀ {bytes image}, fs.readAt location = .ok bytes → Image.decode bytes = .ok image →
      Untangled fs directory run.settings.hostModules image) :
    Gives fs (run.scopeAt directory) (Untangled fs directory run.settings.hostModules)
      (fun _ => True) location (Rule.isRelevant run.subsystem) (v.relevant fs path).1 := by
  have scope : v.loader.scope (Location.path location.dropLast) = run.scopeAt directory := by
    rw [inside]
    exact Loader.scope_eq_of_settings (l := run.start.loader) (settings.trans rfl) _
  have load := Loader.loadAtIf_loads fs (run.scopeAt directory) location
    (Rule.isRelevant run.subsystem) v.loader
  rw [Validator.relevant_of_ok leads, scope, subsystem]
  exact (gives_of_untangled tree tidy inside load holds).2 untangled

theorem check_finish {tools : Toolchain} (subsystem : run.subsystem = Rule.expressive tools)
    (tree : fs.IsTree) (tidy : Tidy fs run.settings.extension directory) {paths : List Path}
    {path : Path} (checks : run.moments = paths.map fun p => (fs, .check p))
    (inside : ∀ p ∈ path :: paths, ∀ location, fs.canonicalize p = .ok location →
      location.dropLast = directory)
    (untangled : ∀ location image, Shows fs path location image →
      Untangled fs directory run.settings.hostModules image) :
    (run.finish.check fs path).1 = (run.start.check fs path).1 := by
  have kind : run.finish.subsystem = run.subsystem := Validator.run_subsystem _ _
  have begin_ : run.start.subsystem = run.subsystem := rfl
  rw [Validator.check_fst, Validator.check_fst, kind, begin_, subsystem]
  cases leads : fs.canonicalize path with
  | error cause => rw [Validator.relevant_of_error leads, Validator.relevant_of_error leads]
  | ok location =>
      have here := inside path (by simp) location leads
      have warm := relevant_gives tree tidy leads here run.settings_finish kind
        (holds_sound tree tidy checks fun p listed => inside p (List.mem_cons_of_mem _ listed))
        fun read decoded => untangled location _ ⟨_, leads, read, decoded⟩
      have cold := relevant_gives tree tidy leads here (v := run.start) rfl rfl (run.start_holds _)
        fun read decoded => untangled location _ ⟨_, leads, read, decoded⟩
      refine Validator.verdict_eq_of_images (warm.agree cold fun m m' trusted trusted' => ?_)
      obtain ⟨bytes, read, -, decoded⟩ := trusted.read
      exact images_eq_of_trusted trusted trusted'
        (untangled location _ ⟨bytes, leads, read, decoded⟩)

end Run

/-- The references of `z` lead to `q` and those of `q` to `z`, and none of them leads nowhere. -/
structure Circle (fs : FileSystem) (scope : Scope) (z q : Image) : Prop where
  other : z ≠ q
  spans : scope.Spans fs z q
  back : scope.Spans fs q z
  resolves : ∀ x, scope.Spans fs z x → ¬ scope.Dangles fs z x

/-- The entry is the module that its name is found to be, and below it no module has the name. -/
structure Apart (fs : FileSystem) (scope : Scope) (name : String) (place : Location) (m : Module) :
    Prop where
  found : ∃ bytes, scope.find fs m.image.name = .image place bytes m.image
  below : ∀ x ∈ m.tree, ∀ d ∈ x.dependencies, d.image.name ≠ name

theorem keeps_apart (separates : scope.Separates fs) (name : String) (policy : CachePolicy) :
    Keeps fs scope policy (fun place e => Apart fs scope name place e.module) (Apart fs scope name)
      fun stack _ => name ∈ stack where
  hit _ apart _ := apart
  enter onStack _ _ _ := List.mem_cons_of_mem _ onStack
  new := by
    rintro stack image place bytes links onStack - found answers l
    have apart : Apart fs scope name place (l.built place (.ofBytes bytes) image links) := by
      refine ⟨⟨bytes, found⟩, Module.forall_mem_tree.mpr ⟨fun d dependency => ?_, ?_⟩⟩
      · obtain ⟨r, -, fresh, here, contents, leads, ⟨bytes', found'⟩, -⟩ :=
          Answer.of_dependency answers dependency
        have named := separates.name_eq found' leads
        rw [named]
        rintro same
        exact fresh (same ▸ onStack)
      · intro d dependency
        obtain ⟨r, -, -, here, contents, -, apart⟩ := Answer.of_dependency answers dependency
        exact apart.below
    exact ⟨apart, apart⟩

namespace Circle

variable {z q : Image} (circle : Circle fs scope z q)

include circle

theorem name_ne : q.name ≠ z.name := by
  cases circle.spans with
  | refl => exact absurd rfl circle.other
  | tail _ leads => exact leads.2

theorem find_eq : ∃ place bytes, scope.find fs z.name = .image place bytes z := by
  cases circle.back with
  | refl => exact absurd rfl circle.other
  | tail _ leads =>
      obtain ⟨⟨r, -, place, bytes, found⟩, -⟩ := leads
      exact ⟨place, bytes, (Scope.find_eq_image.mp found).2.2 ▸ found⟩

theorem spans_of_spans {x : Image} (reaches : scope.Spans fs q x) : scope.Spans fs z x := by
  obtain ⟨place, bytes, found⟩ := circle.find_eq
  induction reaches with
  | refl => exact circle.spans
  | @tail a b _ leads ih =>
      obtain ⟨⟨r, member, here, contents, target⟩, -⟩ := leads
      have named := (Scope.find_eq_image.mp target).2.2
      by_cases root : b.name = z.name
      · rw [← named, root, found] at target
        cases target
        exact .refl
      · exact ih.tail ⟨⟨r, member, here, contents, target⟩, root⟩

theorem resolves_from (x : Image) (reaches : scope.Spans fs q x) : ¬ scope.Dangles fs q x := by
  rintro ⟨r, member, -, probes, refused⟩
  obtain ⟨place, bytes, found⟩ := circle.find_eq
  refine circle.resolves x (circle.spans_of_spans reaches) ⟨r, member, ?_, probes, refused⟩
  intro same
  rw [same, found] at refused
  cases refused

theorem entry_of_loads {l l' : Loader} {wanted : Image → Bool}
    {result : Except LoadError (Option Module)} {location location' : Location} {bytes : Text.Bytes}
    (load : Loads fs scope location wanted l result l') (orderly : Orderly fs scope directory)
    (here : location = directory ++ [imageFile scope.extension z.name])
    (here' : location' = directory ++ [imageFile scope.extension q.name])
    (empty : ∀ place, l.cache.entry? place = none) (read : fs.readAt location = .ok bytes)
    (decoded : Image.decode bytes = .ok z) (accepted : wanted z = true) :
    ∃ e, l'.cache.entry? location' = some e ∧ e.module.image = q ∧ Drawn fs scope z location' e ∧
      z ∉ e.module.tree.map (·.image) := by
  have separates : scope.Separates fs := Scope.separates_of_noSlash orderly.noSlash
  obtain ⟨l₁, links, s, fresh, walk, whole, stale, -, rfl⟩ :=
    load.linked_of_resolves separates empty read decoded accepted circle.resolves
  have drawn := (walk.drawn fresh).1
  rcases (walk.covers_root separates fresh whole).listed_of_spans drawn circle.spans with
    same | ⟨place, e, entry, rfl⟩
  · exact absurd same.symm circle.other
  · have apart := (walk.keeps (keeps_apart separates z.name _) (List.mem_singleton.mpr rfl)
      (List.Subset.refl _) rfl fun place e entry => by simp [fresh] at entry).1 place e entry
    obtain ⟨contents, found⟩ := apart.found
    obtain rfl := here'.trans (orderly.find_eq_image.mp found).2.2.1.symm
    refine ⟨e, ?_, rfl, drawn _ e entry, fun inside => ?_⟩
    · rw [(Loader.adopt_of_stale z links stale).2, if_neg, entry]
      intro same
      rw [here, here'] at same
      exact circle.name_ne
        (imageFile_injective (List.singleton_inj.mp (List.append_cancel_left same)))
    · obtain ⟨x, node, same⟩ := List.mem_map.mp inside
      exact Module.forall_mem_tree_of_dependencies circle.name_ne apart.below x node
        (congrArg Image.name same)

end Circle

namespace Validator

theorem new_eq_start (settings : Settings) (subsystem : Rule.Subsystem)
    (moments : List (FileSystem × Request)) :
    Validator.new settings subsystem =
      (Run.mk ((Loader.new settings).withHost subsystem.moduleName).settings subsystem
        moments).start := by
  unfold Validator.new Run.start Loader.withHost
  split <;> rfl

theorem relevant_of_circle (settings : Settings) (tools : Toolchain) (tree : fs.IsTree)
    (tidy : Tidy fs settings.extension directory) {path path' : Path} {location location' : Location}
    {z q : Image} (shown : Shows fs path location z) (shown' : Shows fs path' location' q)
    (inside : location.dropLast = directory) (inside' : location'.dropLast = directory)
    (relevant : z.referencesModule Rule.Expressive.moduleName = true)
    (relevant' : q.referencesModule Rule.Expressive.moduleName = true)
    (circle : Circle fs (scopeBeside settings tools location) z q) :
    (∃ m, (((Validator.new settings (Rule.expressive tools)).check fs path).2.relevant fs path').1 =
        .ok (some m) ∧ m.image = q ∧ z ∉ m.tree.map (·.image)) ∧
      ∃ m, ((Validator.new settings (Rule.expressive tools)).relevant fs path').1 = .ok (some m) ∧
        m.image = q ∧ z ∈ m.tree.map (·.image) := by
  obtain ⟨bytes, leads, read, decoded⟩ := shown
  obtain ⟨bytes', leads', read', decoded'⟩ := shown'
  have beside : scopeBeside settings tools location = scopeBeside settings tools location' := by
    rw [scopeBeside, scopeBeside, inside, inside']
  have tidy' : Tidy fs (scopeBeside settings tools location).extension directory := by
    rw [scopeBeside_extension]
    exact tidy
  have orderly : Orderly fs (scopeBeside settings tools location) directory :=
    (inside ▸ inDirectory_of_read read decoded).orderly tree (by rw [← inside]; rfl) tidy'
  have here := tidy'.location_eq inside read decoded
  have here' := tidy'.location_eq inside' read' decoded'
  have empty := entry?_new settings (Rule.expressive tools)
  constructor
  -- The check of `z` leaves `q` in the cache without `z`, and that module is handed out.
  · have load := relevant_loads (v := Validator.new settings (Rule.expressive tools)) leads
    obtain ⟨e, entry, rfl, ⟨⟨contents, found, fingerprint⟩, nodes⟩, apart⟩ :=
      circle.entry_of_loads load orderly here here' empty read decoded relevant
    obtain ⟨-, -, -, held, -⟩ := orderly.find_eq_image.mp found
    have unchanged : e.module.dependenciesCurrent fs = true :=
      (Module.dependenciesCurrent_iff _).mpr fun d dependency x node =>
        (nodes x (Module.mem_tree_of_dependency dependency node)).1
    refine ⟨e.module, ?_, rfl, apart⟩
    rw [check_snd, relevant_of_ok leads', Loader.loadAtIf_of_entry entry held fingerprint unchanged,
      relevant_subsystem]
    exact congrArg Except.ok (if_pos relevant')
  · have load := relevant_loads (v := Validator.new settings (Rule.expressive tools)) leads'
    rw [inside', ← inside] at load
    obtain ⟨m, loaded, image, images⟩ := load.images_of_resolves
      (Scope.separates_of_noSlash orderly.noSlash) empty read' decoded' relevant' circle.resolves_from
    exact ⟨m, loaded, image, (images z).mpr circle.back⟩

theorem check_of_untangled (settings : Settings) (tools : Toolchain) (tree : fs.IsTree)
    (tidy : Tidy fs settings.extension directory) {paths : List Path} {path : Path}
    (inside : ∀ p ∈ path :: paths, ∀ location, fs.canonicalize p = .ok location →
      location.dropLast = directory)
    (untangled : ∀ location image, Shows fs path location image →
      Untangled fs directory (Validator.new settings (Rule.expressive tools)).loader.hosts image) :
    (((Validator.new settings (Rule.expressive tools)).run
        (paths.map fun p => (fs, .check p))).check fs path).1 =
      ((Validator.new settings (Rule.expressive tools)).check fs path).1 := by
  have start := new_eq_start settings (Rule.expressive tools) (paths.map fun p => (fs, .check p))
  have extension : ((Loader.new settings).withHost
      (Rule.expressive tools).moduleName).settings.extension = settings.extension :=
    Loader.withHost_extension ..
  rw [start] at untangled ⊢
  exact Run.check_finish rfl tree (extension ▸ tidy) rfl inside untangled

/-- A validation finds the same after any validations of modules in its directory as it finds first,
unless the references from its module lead through two modules in a circle. Once a module of a
circle was validated, every other one of that circle is validated without it. -/
theorem check_order (settings : Settings) (tools : Toolchain) (fs : FileSystem)
    (directory : Location) (tree : fs.IsTree) (tidy : Tidy fs settings.extension directory) :
    (∀ paths path, (∀ p ∈ path :: paths, ∀ location, fs.canonicalize p = .ok location →
        location.dropLast = directory) →
      (∀ location image, Shows fs path location image →
        Untangled fs directory (Validator.new settings (Rule.expressive tools)).loader.hosts image) →
      (((Validator.new settings (Rule.expressive tools)).run
          (paths.map fun p => (fs, .check p))).check fs path).1 =
        ((Validator.new settings (Rule.expressive tools)).check fs path).1) ∧
    ∀ path path' location location' z q, Shows fs path location z → Shows fs path' location' q →
      location.dropLast = directory → location'.dropLast = directory →
      z.referencesModule Rule.Expressive.moduleName = true →
      q.referencesModule Rule.Expressive.moduleName = true →
      Circle fs (scopeBeside settings tools location) z q →
      (∃ m, (((Validator.new settings (Rule.expressive tools)).check fs path).2.relevant fs path').1 =
          .ok (some m) ∧ m.image = q ∧ z ∉ m.tree.map (·.image)) ∧
        ∃ m, ((Validator.new settings (Rule.expressive tools)).relevant fs path').1 = .ok (some m) ∧
          m.image = q ∧ z ∈ m.tree.map (·.image) :=
  ⟨fun _ _ inside untangled => check_of_untangled settings tools tree tidy inside untangled,
    fun _ _ _ _ _ _ shown shown' inside inside' relevant relevant' circle =>
      relevant_of_circle settings tools tree tidy shown shown' inside inside' relevant relevant'
        circle⟩

end Validator

end

/-! The modules `A` and `B` refer to each other, and a rule of `B` is about a type of `A`. -/

namespace Circled

def color : Image.TypeDef := ⟨"Color", none, .enumeration, [], [], ["Red"]⟩

def rule : Image.Annotation := ⟨"AssertThat", some "ExpressiveAttribute", ["paint"]⟩

def car : Image.TypeDef := ⟨"Car", none, .object, [⟨"paint", "Color", [rule]⟩], [], []⟩

def a : Image := { Image.referring "A" ["Expressive", "B"] with types := [color] }

def b : Image := { Image.referring "B" ["Expressive", "A"] with types := [car] }

def lib : Image := .referring "Lib" []

def app : Image := .referring "App" ["Expressive", "Lib"]

def files : FileSystem := ofImages "rmod" [a, b, lib, app]

def start : Validator := .new .default (Rule.expressive .builtin)

def scope : Scope := Validator.scopeBeside .default .builtin ["A.rmod"]

theorem decodes : ∀ image ∈ [a, b, lib, app], Image.decode image.encode = .ok image :=
  decodes_of_short (by decide +kernel)

theorem tree : files.IsTree := isTree_ofImages (by decide)

theorem tidy : Tidy files "rmod" [] := tidy_ofImages decodes

theorem inside {path : Path} {location : Location} (leads : files.canonicalize path = .ok location) :
    location.dropLast = [] := by
  obtain ⟨e, present⟩ := tree.canonicalize_present leads
  exact dropLast_eq_nil_of_ofImages present

theorem shows_a : Shows files ⟨"/A.rmod"⟩ ["A.rmod"] a :=
  ⟨a.encode, rfl, rfl, decodes a (by simp)⟩

theorem shows_b : Shows files ⟨"/B.rmod"⟩ ["B.rmod"] b :=
  ⟨b.encode, rfl, rfl, decodes b (by simp)⟩

theorem shows_app : Shows files ⟨"/App.rmod"⟩ ["App.rmod"] app :=
  ⟨app.encode, rfl, rfl, decodes app (by simp)⟩

theorem find_a : scope.find files "A" = .image ["A.rmod"] a.encode a :=
  Scope.find_eq_image.mpr ⟨rfl, decodes a (by simp), rfl⟩

theorem find_b : scope.find files "B" = .image ["B.rmod"] b.encode b :=
  Scope.find_eq_image.mpr ⟨rfl, decodes b (by simp), rfl⟩

theorem find_of_member {x : Image} {r : Image.Reference} (listed : x = a ∨ x = b)
    (member : r ∈ x.references) : scope.find files r.name = .host ∨
      scope.find files r.name = .image ["A.rmod"] a.encode a ∨
      scope.find files r.name = .image ["B.rmod"] b.encode b := by
  rcases listed with rfl | rfl
  · have named : r = ⟨"Expressive", none⟩ ∨ r = ⟨"B", none⟩ := by simpa [a] using member
    rcases named with rfl | rfl
    · exact .inl rfl
    · exact .inr (.inr find_b)
  · have named : r = ⟨"Expressive", none⟩ ∨ r = ⟨"A", none⟩ := by simpa [b] using member
    rcases named with rfl | rfl
    · exact .inl rfl
    · exact .inr (.inl find_a)

theorem spanned {x : Image} (spans : scope.Spans files a x) : x = a ∨ x = b := by
  induction spans with
  | refl => exact .inl rfl
  | @tail x y _ leads ih =>
      obtain ⟨⟨r, member, place, bytes, found⟩, -⟩ := leads
      rcases find_of_member ih member with hosted | found_a | found_b
      · cases hosted.symm.trans found
      · cases found_a.symm.trans found
        exact .inl rfl
      · cases found_b.symm.trans found
        exact .inr rfl

theorem circle : Circle files scope a b where
  other := by simp [a, b]
  spans := .single ⟨⟨⟨"B", none⟩, by simp [a], _, _, find_b⟩, by decide⟩
  back := .single ⟨⟨⟨"A", none⟩, by simp [b], _, _, find_a⟩, by decide⟩
  resolves x spans := by
    rintro ⟨r, member, -, probes, refused⟩
    rcases find_of_member (spanned spans) member with hosted | found_a | found_b
    · cases hosted.symm.trans refused
    · cases found_a.symm.trans refused
    · cases found_b.symm.trans refused

theorem lib_reaches {passed : List String} {x : Image} (reaches : Reaches files [] passed lib x) :
    x = lib := by
  rcases reaches.cases_head with same | ⟨y, ⟨-, r, member, -⟩, -⟩
  · exact same.symm
  · simp [lib] at member

theorem app_reaches {passed : List String} {x : Image} (reaches : Reaches files [] passed app x) :
    x = app ∨ x = lib := by
  rcases reaches.cases_head with same | ⟨y, ⟨inside, r, member, named, -⟩, rest⟩
  · exact .inl same.symm
  · have listed : y = a ∨ y = b ∨ y = lib ∨ y = app := by
      simpa using mem_of_inDirectory_ofImages decodes inside
    have either : r = ⟨"Expressive", none⟩ ∨ r = ⟨"Lib", none⟩ := by simpa [app] using member
    rcases listed with rfl | rfl | rfl | rfl
    · rcases either with rfl | rfl <;> simp [a] at named
    · rcases either with rfl | rfl <;> simp [b] at named
    · exact .inr (lib_reaches rest)
    · rcases either with rfl | rfl <;> simp [app] at named

theorem untangled (passed : List String) : Untangled files [] passed app := by
  intro x y first forth back
  rcases app_reaches first with rfl | rfl
  · rcases app_reaches forth with rfl | rfl
    · rfl
    · exact lib_reaches back
  · exact (lib_reaches forth).symm

theorem order : files.IsTree ∧ Tidy files "rmod" [] ∧
    ((start.run ([⟨"/B.rmod"⟩, ⟨"/A.rmod"⟩].map fun p => (files, .check p))).check files
        ⟨"/App.rmod"⟩).1 = (start.check files ⟨"/App.rmod"⟩).1 ∧
    (∃ m, ((start.check files ⟨"/A.rmod"⟩).2.relevant files ⟨"/B.rmod"⟩).1 = .ok (some m) ∧
      m.image = b ∧ a ∉ m.tree.map (·.image)) ∧
    ∃ m, (start.relevant files ⟨"/B.rmod"⟩).1 = .ok (some m) ∧ m.image = b ∧
      a ∈ m.tree.map (·.image) := by
  have orders := Validator.check_order .default .builtin files [] tree tidy
  refine ⟨tree, tidy, ?_, ?_⟩
  · refine orders.1 [⟨"/B.rmod"⟩, ⟨"/A.rmod"⟩] ⟨"/App.rmod"⟩ (fun p _ location leads => inside leads) ?_
    intro location image shown
    obtain ⟨-, rfl⟩ := shows_app.eq shown
    exact untangled _
  · exact orders.2 _ _ _ _ _ _ shows_a shows_b rfl rfl rfl rfl circle

/-! So `B` passes once `A` was validated: its rule is about a type that is not known then. -/

def alone : Module := ⟨["B.rmod"], .ofBytes b.encode, b, [], ["Expressive"], 1⟩

def below : Module := ⟨["A.rmod"], .ofBytes a.encode, a, [], ["Expressive"], 1⟩

def whole : Module := ⟨["B.rmod"], .ofBytes b.encode, b, [below], ["Expressive"], 2⟩

def holding (entries : List (Location × CacheEntry)) : Loader where
  extension := "rmod"
  hosts := ["core", "Expressive"]
  cache := ⟨.fingerprint, entries⟩
  loads := entries.length
  scopes := .empty

theorem relevant_before : (start.relevant files ⟨"/B.rmod"⟩).1 = .ok (some whole) := by
  have inner : Follows files scope ["A", "B"] "A" a.references ⟨start.loader, []⟩
      [.host "Expressive", .skipped] ⟨start.loader, []⟩ :=
    .hosted (by decide) rfl (.cyclic (by decide) .nil)
  have walk : Follows files scope ["B"] "B" b.references ⟨start.loader, []⟩
      [.host "Expressive", .module below]
      ⟨holding [(["A.rmod"], ⟨.ofBytes a.encode, below⟩)], []⟩ :=
    .hosted (by decide) rfl (.linked (by decide) rfl find_a inner (by simp) rfl .nil)
  have leads : files.canonicalize ⟨"/B.rmod"⟩ = .ok ["B.rmod"] := rfl
  have read : files.readAt ["B.rmod"] = .ok b.encode := rfl
  have accepted : Rule.isRelevant start.subsystem b = true := rfl
  have loaded := Loader.loadAtIf_of_follows rfl read (decodes b (by simp)) accepted walk rfl
  have beside : start.loader.scope (Location.path (List.dropLast ["B.rmod"])) = scope := rfl
  rw [Validator.relevant_of_ok leads, beside, loaded]
  rfl

theorem relevant_after :
    ((start.check files ⟨"/A.rmod"⟩).2.relevant files ⟨"/B.rmod"⟩).1 = .ok (some alone) := by
  have inner : Follows files scope ["B", "A"] "B" b.references ⟨start.loader, []⟩
      [.host "Expressive", .skipped] ⟨start.loader, []⟩ :=
    .hosted (by decide) rfl (.cyclic (by decide) .nil)
  have walk : Follows files scope ["A"] "A" a.references ⟨start.loader, []⟩
      [.host "Expressive", .module alone]
      ⟨holding [(["B.rmod"], ⟨.ofBytes b.encode, alone⟩)], []⟩ :=
    .hosted (by decide) rfl (.linked (by decide) rfl find_b inner (by simp) rfl .nil)
  have leads : files.canonicalize ⟨"/A.rmod"⟩ = .ok ["A.rmod"] := rfl
  have leads' : files.canonicalize ⟨"/B.rmod"⟩ = .ok ["B.rmod"] := rfl
  have read : files.readAt ["A.rmod"] = .ok a.encode := rfl
  have read' : files.readAt ["B.rmod"] = .ok b.encode := rfl
  have accepted : Rule.isRelevant start.subsystem a = true := rfl
  have loaded := Loader.loadAtIf_of_follows rfl read (decodes a (by simp)) accepted walk rfl
  have beside : start.loader.scope (Location.path (List.dropLast ["A.rmod"])) = scope := rfl
  have warm : (start.check files ⟨"/A.rmod"⟩).2.loader = holding [(["A.rmod"], ⟨.ofBytes a.encode,
      ⟨["A.rmod"], .ofBytes a.encode, a, [alone], ["Expressive"], 2⟩⟩),
      (["B.rmod"], ⟨.ofBytes b.encode, alone⟩)] := by
    rw [Validator.check_snd, Validator.relevant_of_ok leads, beside, loaded]
    rfl
  have entry : ModuleCache.entry? (start.check files ⟨"/A.rmod"⟩).2.loader.cache ["B.rmod"] =
      some ⟨.ofBytes b.encode, alone⟩ := by
    rw [warm]
    rfl
  rw [Validator.relevant_of_ok leads', Loader.loadAtIf_of_entry entry read' rfl rfl,
    Validator.check_snd, Validator.relevant_subsystem]
  rfl

theorem parse_paint : Rule.parse "paint" = .ok (.ident "paint" 1) := by
  have tokens : Rule.tokenize "paint" = .ok ⟨[⟨.ident "paint", 1⟩], 6⟩ := by
    have split : Rule.scan 1 "paint".toList = .ok [⟨.ident "paint", 1⟩] :=
      Rule.scan_cons_ok rfl rfl rfl rfl rfl (Rule.scan_nil _)
    rw [Rule.tokenize, split]
    rfl
  have derives : Rule.Derives .standard 0 [⟨.ident "paint", 1⟩] (.level 0 (.ident "paint" 1)) :=
    Rule.Derives.ident.level_of_primary (Nat.zero_le _)
  rw [Rule.parse_eq_of_tokenize tokens (by decide)]
  exact (Rule.Lexed.parse_eq_ok_iff _ _).mpr derives

theorem ofDeclared_color (m : Module) : Rule.Ty.ofDeclared ⟨m, car⟩ "Color" =
    match m.findType? "Color" with
    | some type => if type.isEnumeration then .enumeration type.name else .object type.name
    | none => .unknown := by
  have bare : Rule.Ty.bareName "Color" = "Color" := by decide
  have lower : "Color".map Char.toLower = "color" := by
    apply String.toList_injective
    rw [String.toList_map]
    decide
  have foreign : Rule.Ty.builtin? "color" = none := rfl
  simp only [Rule.Ty.ofDeclared, bare, lower, foreign]
  rfl

theorem compile_paint (m : Module) : Rule.compile ⟨m, car⟩ .builtin "paint" =
    if (Rule.Ty.ofDeclared ⟨m, car⟩ "Color").isBoolish then .ok ()
    else .error ⟨.notCondition (.ofDeclared ⟨m, car⟩ "Color"), 1⟩ := by
  have member : Rule.Declaring.member? ⟨m, car⟩ "paint" =
      some (.field ⟨"paint", "Color", [rule]⟩) := rfl
  rw [Rule.compile, parse_paint]
  simp only [bind, Except.bind, Rule.check, Rule.infer, Rule.identType, member, Rule.faultAt]
  rfl

theorem compileModule_paint (m : Module) (shape : m.image = b) :
    Rule.compileModule (Rule.expressive .builtin) m =
      match Rule.compile ⟨m, car⟩ .builtin "paint" with
      | .ok () => .ok []
      | .error diagnostic =>
        .ok [⟨"Car", "paint", "AssertThat", "paint", diagnostic.toRuleError⟩] := by
  have listed : Rule.candidates m.image Rule.Expressive.marker =
      [⟨car, ⟨"paint", "Color", [rule]⟩, rule⟩] := by
    rw [shape]
    rfl
  have sound : ∀ c ∈ Rule.candidates m.image Rule.Expressive.marker, ¬ c.Broken := by
    simp [listed, Rule.Candidate.Broken, rule, Rule.RuleKind.ofName?]
  have relevant : Rule.isRelevant (Rule.expressive .builtin) m.image = true := by
    rw [shape]
    rfl
  rw [Rule.compileModule_of_sound .builtin m relevant sound, listed]
  simp only [List.filterMap_cons, List.filterMap_nil, Rule.refusal, rule]
  cases Rule.compile ⟨m, car⟩ .builtin "paint" <;> rfl

theorem check_misses :
    ((start.run [(files, .check ⟨"/A.rmod"⟩)]).check files ⟨"/B.rmod"⟩).1 = .ok [] ∧
      ((start.check files ⟨"/B.rmod"⟩).1 = .ok [⟨"Car", "paint", "AssertThat", "paint",
        (Rule.Diagnostic.mk (.notCondition (.enumeration "Color")) 1).toRuleError⟩]) := by
  have unknown : Rule.compile ⟨alone, car⟩ .builtin "paint" = .ok () := by
    rw [compile_paint, ofDeclared_color]
    rfl
  have known : Rule.compile ⟨whole, car⟩ .builtin "paint" =
      .error ⟨.notCondition (.enumeration "Color"), 1⟩ := by
    rw [compile_paint, ofDeclared_color]
    rfl
  constructor
  · have subsystem : (start.check files ⟨"/A.rmod"⟩).2.subsystem = Rule.expressive .builtin := by
      rw [Validator.check_snd, Validator.relevant_subsystem]
      rfl
    have run : start.run [(files, .check ⟨"/A.rmod"⟩)] = (start.check files ⟨"/A.rmod"⟩).2 := rfl
    rw [run, Validator.check_fst, relevant_after, subsystem, Validator.verdict,
      compileModule_paint alone rfl, unknown]
    rfl
  · rw [Validator.check_fst, relevant_before, Validator.verdict]
    have compiled := compileModule_paint whole rfl
    rw [known] at compiled
    exact congrArg (Except.mapError ValidateError.unclassified) compiled

end Circled

end RuleLint
