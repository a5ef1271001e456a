import RuleLint.Proofs.Rule.Annotations
import RuleLint.Proofs.Rule.Compiling

/-!
# Rules by themselves

A module with many rules says what the modules with one of these rules each say, one after another
(`compileModule_apart`). It is refused as a whole only for an annotation that is broken by itself,
and then for the first of these.
-/

namespace RuleLint

open Image (TypeDef Field Annotation)

/-- The lists in which an element is replaced by one of its `parts` and the others by their `rest`,
from the first element on. -/
def singles {α : Type} (parts : α → List α) (rest : α → α) : List α → List (List α)
  | [] => []
  | x :: xs => (parts x).map (· :: xs.map rest) ++ (singles parts rest xs).map (rest x :: ·)

theorem forall₂_singles {α β : Type} {parts : α → List α} {rest : α → α} {h : α → List β}
    {S : α → β → α → Prop} (each : ∀ x, List.Forall₂ (S x) (h x) (parts x)) (xs : List α) :
    List.Forall₂ (fun b ys => ∃ before x after y, xs = before ++ x :: after ∧
        ys = before.map rest ++ y :: after.map rest ∧ S x b y)
      (xs.flatMap h) (singles parts rest xs) := by
  induction xs with
  | nil => exact .nil
  | cons x xs ih =>
      rw [List.flatMap_cons, singles]
      refine List.rel_append ?_ ?_
      · rw [List.forall₂_map_right_iff]
        exact (each x).imp fun b y related => ⟨[], x, xs, y, rfl, rfl, related⟩
      · rw [List.forall₂_map_right_iff]
        refine ih.imp ?_
        rintro b _ ⟨before, x', after, y, rfl, rfl, related⟩
        exact ⟨x :: before, x', after, y, rfl, rfl, related⟩

namespace Image

def Field.singles (marker : String) (f : Field) : List Field :=
  (f.annotations.filter (·.base = some marker)).map fun a => { f with annotations := [a] }

def TypeDef.singles (marker : String) (t : TypeDef) : List TypeDef :=
  (RuleLint.singles (Field.singles marker) Field.bare t.fields).map fun fields =>
    { t with fields := fields }

def singles (marker : String) (image : Image) : List Image :=
  (RuleLint.singles (TypeDef.singles marker) TypeDef.bare image.types).map fun types =>
    { image with types := types }

def TypeDef.annotations (t : TypeDef) : List Annotation := t.fields.flatMap (·.annotations)

def annotations (image : Image) : List Annotation := image.types.flatMap (·.annotations)

end Image

namespace Rule

open Image (TypeDef Field Annotation)

def typeCandidates (marker : String) (type : TypeDef) : List Candidate :=
  type.fields.flatMap fun field =>
    (field.annotations.filter (·.base = some marker)).map fun annotation =>
      ⟨type, field, annotation⟩

theorem candidates_eq (image : Image) (marker : String) :
    candidates image marker = image.types.flatMap (typeCandidates marker) := rfl

@[simp] theorem typeCandidates_bare (marker : String) (t : TypeDef) :
    typeCandidates marker t.bare = [] := by
  simp [typeCandidates, TypeDef.bare, Field.bare]

@[simp] theorem annotations_bare (t : TypeDef) : t.bare.annotations = [] := by
  simp [TypeDef.annotations, TypeDef.bare, Field.bare]

theorem field_bare_bare (f : Field) : f.bare.bare = f.bare := rfl

theorem typeDef_bare_bare (t : TypeDef) : t.bare.bare = t.bare := by
  simp [TypeDef.bare, Function.comp_def, field_bare_bare]

theorem flatMap_around {α β : Type} {h : α → List β} {rest : α → α} (silent : ∀ x, h (rest x) = [])
    (before after : List α) (x : α) :
    (before.map rest ++ x :: after.map rest).flatMap h = h x := by
  have none (xs : List α) : (xs.map rest).flatMap h = [] := by
    rw [List.flatMap_eq_nil_iff]
    simp [silent]
  rw [List.flatMap_append, List.flatMap_cons, none, none, List.nil_append, List.append_nil]

theorem map_around {α β : Type} {f : α → β} {rest : α → α} (same : ∀ x, f (rest x) = f x)
    {before after : List α} {x y : α} (here : f y = f x) :
    (before.map rest ++ y :: after.map rest).map f = (before ++ x :: after).map f := by
  simp [Function.comp_def, same, here]

/-- The image has the one annotation, which stands where the candidate stood. -/
structure Candidate.Alone (marker : String) (image : Image) (c : Candidate) (image' : Image) :
    Prop where
  bare : image'.bare = image.bare
  annotations : image'.annotations = c.annotation :: []
  candidates : ∃ c' : Candidate, candidates image' marker = [c'] ∧ c'.annotation = c.annotation ∧
    c'.field.bare = c.field.bare ∧ c'.type.bare = c.type.bare

theorem typeCandidates_singles (marker : String) (t : TypeDef) :
    List.Forall₂ (fun (c : Candidate) t' => c.type = t ∧ t'.bare = t.bare ∧
        t'.annotations = c.annotation :: [] ∧
        ∃ f', typeCandidates marker t' = [⟨t', f', c.annotation⟩] ∧ f'.bare = c.field.bare)
      (typeCandidates marker t) (t.singles marker) := by
  have each (f : Field) : List.Forall₂
      (fun (c : Candidate) f' => c.type = t ∧ c.field = f ∧ c.annotation.base = some marker ∧
        f' = { f with annotations := c.annotation :: [] })
      ((f.annotations.filter (·.base = some marker)).map fun a => ⟨t, f, a⟩)
      (f.singles marker) := by
    rw [Field.singles, List.forall₂_map_left_iff, List.forall₂_map_right_iff]
    refine List.forall₂_same.mpr fun a member => ⟨rfl, rfl, ?_, rfl⟩
    simpa using (List.mem_filter.mp member).2
  rw [TypeDef.singles, List.forall₂_map_right_iff]
  refine (forall₂_singles each t.fields).imp ?_
  rintro c fields ⟨before, f, after, f', split, rfl, here, field, marked, rfl⟩
  refine ⟨here, ?_, ?_, { f with annotations := c.annotation :: [] }, ?_, ?_⟩
  · have same : (before.map Field.bare ++ { f with annotations := c.annotation :: [] } ::
        after.map Field.bare).map Field.bare = (before ++ f :: after).map Field.bare :=
      map_around field_bare_bare rfl
    simp only [TypeDef.bare, split, same]
  · exact flatMap_around (fun _ => rfl) before after _
  · rw [typeCandidates, flatMap_around (fun _ => rfl)]
    simp [marked]
  · rw [field]
    rfl

theorem candidates_singles (marker : String) (image : Image) :
    List.Forall₂ (Candidate.Alone marker image) (candidates image marker)
      (image.singles marker) := by
  rw [Image.singles, List.forall₂_map_right_iff, candidates_eq]
  refine (forall₂_singles (typeCandidates_singles marker) image.types).imp ?_
  rintro c types ⟨before, t, after, t', split, rfl, here, bare, annotations, f', alone, field⟩
  refine ⟨?_, ?_, ⟨t', f', c.annotation⟩, ?_, rfl, field, ?_⟩
  · have same : (before.map TypeDef.bare ++ t' :: after.map TypeDef.bare).map TypeDef.bare =
        (before ++ t :: after).map TypeDef.bare := map_around typeDef_bare_bare bare
    simp only [Image.bare, split, same]
  · rw [Image.annotations, flatMap_around annotations_bare, annotations]
  · rw [candidates_eq, flatMap_around (typeCandidates_bare marker), alone]
  · rw [here, bare]

/-- A rule of the subsystem compiles alike whatever the other annotations of the module are. -/
def Subsystem.Independent (s : Subsystem) : Prop :=
  ∀ ⦃a : Annotation⦄ ⦃rule : Attribute⦄, s.bind a = some rule →
    ∀ ⦃m : Module⦄ ⦃image' : Image⦄ ⦃type type' : TypeDef⦄, image'.bare = m.image.bare →
      type'.bare = type.bare →
        rule.compile ⟨{ m with image := image' }, type'⟩ = rule.compile ⟨m, type⟩

/-- An attribute goes by the name of its annotation, and its rule is the annotation's first argument
where the rule is refused. -/
def Subsystem.Labels (s : Subsystem) : Prop :=
  ∀ ⦃a : Annotation⦄ ⦃rule : Attribute⦄, s.bind a = some rule →
    rule.name = a.name ∧ ∀ ⦃d error⦄, rule.compile d = .error (.rule error) →
      a.args.head? = some rule.expression

def Candidate.Sound (s : Subsystem) (m : Module) (c : Candidate) : Prop :=
  ∃ rule, s.bind c.annotation = some rule ∧
    ∀ reason, rule.compile ⟨m, c.type⟩ ≠ .error (.unclassified reason)

/-- Why a candidate that is not sound ends the compilation. -/
def Candidate.BreaksFor (s : Subsystem) (m : Module) (c : Candidate) (reason : String) : Prop :=
  s.bind c.annotation = none ∧ reason = "annotation '" ++ c.annotation.name ++ "' derives from '" ++
      s.marker ++ "' but exposes no compile capability" ∨
    ∃ rule, s.bind c.annotation = some rule ∧
      rule.compile ⟨m, c.type⟩ = .error (.unclassified reason)

def Subsystem.site? (s : Subsystem) (c : Candidate) : Option RuleSite :=
  (s.bind c.annotation).map fun rule =>
    ⟨c.type.name, c.field.name, rule.name, some rule.expression⟩

def CompilationError.site (e : CompilationError) : RuleSite :=
  ⟨e.typeName, e.field, e.annotation, some e.expression⟩

theorem independent_of_compiles {s : Subsystem} (tools : Toolchain)
    (compiles : ∀ ⦃a rule⦄, s.bind a = some rule →
      rule.compile = Expressive.compileAnnotation tools a) : s.Independent := by
  intro a rule bound m image' type type' image bare
  simp only [compiles bound, Expressive.compileAnnotation]
  cases a.args.head? with
  | none => rfl
  | some expression => simp only [compile_eq (Declaring.alike_of_bare tools image bare)]

theorem independent_expressive (tools : Toolchain) : (expressive tools).Independent := by
  refine independent_of_compiles tools fun a rule bound => ?_
  obtain ⟨kind, -, rfl⟩ := Option.map_eq_some_iff.mp bound
  rfl

theorem labels_expressive (tools : Toolchain) : (expressive tools).Labels := by
  intro a rule bound
  obtain ⟨kind, -, rfl⟩ := Option.map_eq_some_iff.mp bound
  refine ⟨rfl, fun d error refused => ?_⟩
  simp only [Expressive.compileAnnotation] at refused
  cases given : a.args.head? with
  | none => simp [given] at refused
  | some expression => rfl

variable {s : Subsystem} {m : Module} {image' : Image} {c c' : Candidate}

theorem compileCandidate_of_not_sound (broken : ¬ c.Sound s m) :
    ∃ reason, compileCandidate s m c =
        .error ⟨c.type.name, c.field.name, c.annotation.name, reason⟩ ∧ c.BreaksFor s m reason := by
  simp only [compileCandidate]
  cases bound : s.bind c.annotation with
  | none => exact ⟨_, rfl, .inl ⟨bound, rfl⟩⟩
  | some rule =>
      cases compiled : rule.compile ⟨m, c.type⟩ with
      | ok value => exact absurd ⟨rule, bound, by simp [compiled]⟩ broken
      | error fault =>
          cases fault with
          | rule error => exact absurd ⟨rule, bound, by simp [compiled]⟩ broken
          | unclassified reason => exact ⟨reason, by simp [compiled], .inr ⟨rule, bound, compiled⟩⟩

theorem exists_compileCandidate_iff : (∃ r, compileCandidate s m c = .ok r) ↔ c.Sound s m := by
  constructor
  · rintro ⟨r, ok⟩
    by_contra broken
    obtain ⟨reason, failed, -⟩ := compileCandidate_of_not_sound broken
    rw [ok] at failed
    cases failed
  · rintro ⟨rule, bound, unbroken⟩
    simp only [compileCandidate, bound]
    cases compiled : rule.compile ⟨m, c.type⟩ with
    | ok value => exact ⟨none, rfl⟩
    | error fault =>
        cases fault with
        | rule error => exact ⟨_, rfl⟩
        | unclassified reason => exact absurd compiled (unbroken reason)

theorem compileCandidate_eq_ok {r : Option CompilationError} (ok : compileCandidate s m c = .ok r) :
    ∀ e, r = some e → s.site? c = some e.site ∧ (s.Labels → c.site = e.site) := by
  rintro e rfl
  simp only [compileCandidate] at ok
  cases bound : s.bind c.annotation with
  | none => simp [bound] at ok
  | some rule =>
      simp only [bound] at ok
      cases compiled : rule.compile ⟨m, c.type⟩ with
      | ok value => simp [compiled] at ok
      | error fault =>
          cases fault with
          | unclassified reason => simp [compiled] at ok
          | rule error =>
              simp only [compiled] at ok
              cases ok
              refine ⟨by simp only [Subsystem.site?, bound]; rfl, fun labels => ?_⟩
              obtain ⟨name, expression⟩ := labels bound
              simp only [Candidate.site, CompilationError.site, name, expression compiled]

theorem compileCandidate_of_bare (independent : s.Independent)
    (image : image'.bare = m.image.bare) (same : c'.annotation = c.annotation)
    (field : c'.field.bare = c.field.bare) (type : c'.type.bare = c.type.bare) :
    compileCandidate s { m with image := image' } c' = compileCandidate s m c := by
  have typeName : c'.type.name = c.type.name := (congrArg TypeDef.name type :)
  have fieldName : c'.field.name = c.field.name := (congrArg Field.name field :)
  simp only [compileCandidate, same, typeName, fieldName]
  cases bound : s.bind c.annotation with
  | none => rfl
  | some rule => simp only [independent bound image type]

theorem compileModule_of_alone (independent : s.Independent)
    (relevant : isRelevant s m.image = true) (alone : c.Alone s.marker m.image image') :
    compileModule s { m with image := image' } = (compileCandidate s m c).map Option.toList := by
  obtain ⟨c', single, annotation, field, type⟩ := alone.candidates
  have relevant' : isRelevant s image' = true := by
    have references : image'.references = m.image.references :=
      (congrArg Image.references alone.bare :)
    rw [← relevant]
    simp only [isRelevant, Image.referencesModule, references]
  have verdict := compileCandidate_of_bare independent alone.bare annotation field type
  rw [compileModule_of_relevant relevant', single, List.mapM_cons, verdict]
  cases compileCandidate s m c with
  | error cause => rfl
  | ok r => cases r <;> rfl

theorem sublist_of_sites {γ : Type} {k : CompilationError → γ} {g : Candidate → γ}
    {cs : List Candidate} {rs : List (Option CompilationError)}
    (each : List.Forall₂ (fun c r => ∀ e, r = some e → g c = k e) cs rs) :
    ((rs.filterMap id).map k).Sublist (cs.map g) := by
  induction each with
  | nil => exact .slnil
  | @cons c r cs rs here rest ih =>
      cases r with
      | none => exact ih.cons _
      | some e =>
          rw [List.filterMap_cons_some (f := id) rfl, List.map_cons, List.map_cons, here e rfl]
          exact ih.cons_cons _

/-- The rules of a module compile as they do one by one. -/
theorem compileModule_apart (s : Subsystem) (m : Module) (independent : s.Independent)
    (relevant : isRelevant s m.image = true) :
    List.Forall₂ (Candidate.Alone s.marker m.image) (candidates m.image s.marker)
      (m.image.singles s.marker) ∧
    ((∃ es, compileModule s m = .ok es) ↔
      ∀ c ∈ candidates m.image s.marker, c.Sound s m) ∧
    compileModule s m = ((m.image.singles s.marker).mapM fun image =>
      compileModule s { m with image := image }).map List.flatten ∧
    (∀ es, compileModule s m = .ok es →
      (es.map fun e => some e.site).Sublist ((candidates m.image s.marker).map s.site?) ∧
      (s.Labels → (es.map CompilationError.site).Sublist (ruleSites s m))) ∧
    (∀ before c after, candidates m.image s.marker = before ++ c :: after →
      (∀ c' ∈ before, c'.Sound s m) → ¬ c.Sound s m →
        ∃ reason, c.BreaksFor s m reason ∧ compileModule s m =
          .error ⟨c.type.name, c.field.name, c.annotation.name, reason⟩) ∧
    (∀ c c' image', image'.bare = m.image.bare → c'.annotation = c.annotation →
      c'.field.bare = c.field.bare → c'.type.bare = c.type.bare →
        compileCandidate s { m with image := image' } c' = compileCandidate s m c) ∧
    ∀ tools, (expressive tools).Independent ∧ (expressive tools).Labels := by
  have whole := compileModule_of_relevant relevant
  have singles := candidates_singles s.marker m.image
  refine ⟨singles, ?_, ?_, ?_, ?_, fun _ _ _ => compileCandidate_of_bare independent,
    fun tools => ⟨independent_expressive tools, labels_expressive tools⟩⟩
  · simp only [whole, ← exists_compileCandidate_iff, ← exists_mapM_eq_ok_iff]
    cases (candidates m.image s.marker).mapM (compileCandidate s m) <;> simp [Except.map]
  · rw [whole, mapM_eq_map (singles.imp fun c image' => compileModule_of_alone independent relevant)]
    cases (candidates m.image s.marker).mapM (compileCandidate s m) with
    | error cause => rfl
    | ok rs => simp [Except.map, List.filterMap_eq_flatMap_toList, List.flatMap_def]
  · intro es ok
    rw [whole] at ok
    cases compiled : (candidates m.image s.marker).mapM (compileCandidate s m) with
    | error cause =>
        rw [compiled] at ok
        cases ok
    | ok rs =>
        rw [compiled] at ok
        cases ok
        have each := (mapM_eq_ok_iff.mp compiled).imp fun c r verdict =>
          compileCandidate_eq_ok verdict
        refine ⟨sublist_of_sites (each.imp fun c r sites e same => (sites e same).1), ?_⟩
        intro labels
        rw [ruleSites, if_pos relevant]
        exact sublist_of_sites (each.imp fun c r sites e same => (sites e same).2 labels)
  · intro before c after split sound broken
    obtain ⟨reason, failed, breaks⟩ := compileCandidate_of_not_sound broken
    refine ⟨reason, breaks, ?_⟩
    rw [whole, split, mapM_eq_error (fun c' member => ?_) failed]
    · rfl
    · exact exists_compileCandidate_iff.mpr (sound c' member)

/-! The second of three rules carries no expression, and the third one is refused. -/

namespace Mixed

def marked (name : String) (args : List String) : Annotation := ⟨name, some "ExpressiveAttribute", args⟩

def level : Field :=
  ⟨"Level", "int", [marked "AssertThat" ["Level > 0"], marked "RequiredIf" [],
    marked "AssertThat" ["Nope"]]⟩

def model : TypeDef := ⟨"Model", none, .object, [level], [], []⟩

def app : Image := ⟨"App", none, [⟨"Expressive", none⟩], [model]⟩

def module : Module := ⟨["App.rmod"], .ofBytes [], app, [], ["Expressive"], 1⟩

theorem sound_first (tools : Toolchain) :
    Candidate.Sound (expressive tools) module
      ⟨model, level, marked "AssertThat" ["Level > 0"]⟩ := by
  refine ⟨_, rfl, fun reason => ?_⟩
  simp only [Expressive.compileAnnotation, marked, List.head?_cons]
  split <;> simp

theorem not_sound_second (tools : Toolchain) :
    ¬ Candidate.Sound (expressive tools) module ⟨model, level, marked "RequiredIf" []⟩ := by
  rintro ⟨rule, bound, unbroken⟩
  cases bound
  exact unbroken _ rfl

theorem fails_for_second :
    (expressive .builtin).Independent ∧ isRelevant (expressive .builtin) app = true ∧
      ∃ reason, compileModule (expressive .builtin) module =
        .error ⟨"Model", "Level", "RequiredIf", reason⟩ := by
  have independent := independent_expressive .builtin
  have relevant : isRelevant (expressive .builtin) app = true := by decide
  obtain ⟨-, -, -, -, first, -⟩ := compileModule_apart _ module independent relevant
  obtain ⟨reason, -, failed⟩ := first [⟨model, level, marked "AssertThat" ["Level > 0"]⟩]
    ⟨model, level, marked "RequiredIf" []⟩ [⟨model, level, marked "AssertThat" ["Nope"]⟩] rfl
    (by simpa using sound_first .builtin) (not_sound_second .builtin)
  exact ⟨independent, relevant, reason, failed⟩

end Mixed

/-! The expressive rules, but each goes by the name of its kind. -/

namespace ByKind

def name : RuleKind → String
  | .assertThat => "AssertThat"
  | .requiredIf => "RequiredIf"

def subsystem (tools : Toolchain) : Subsystem where
  moduleName := Expressive.moduleName
  marker := Expressive.marker
  bind a := (RuleKind.ofName? a.name).map fun kind =>
    { name := name kind
      expression := a.args.head?.getD ""
      compile := Expressive.compileAnnotation tools a }

def module (annotations : List Annotation) : Module :=
  ⟨["App.rmod"], .ofBytes [], ⟨"App", none, [⟨"Expressive", none⟩],
    [⟨"Model", none, .object, [⟨"Level", "int", annotations⟩], [], []⟩]⟩, [], ["Expressive"], 1⟩

def blank : Annotation := ⟨"AssertThatAttribute", some "ExpressiveAttribute", [""]⟩

def broken : Annotation := ⟨"RequiredIf", some "ExpressiveAttribute", []⟩

def refused (name : String) : CompilationError :=
  ⟨"Model", "Level", name, "", ⟨.malformed, "Parse error at column 1: empty expression.", some 1⟩⟩

theorem independent (tools : Toolchain) : (subsystem tools).Independent := by
  refine independent_of_compiles tools fun a rule bound => ?_
  obtain ⟨kind, -, rfl⟩ := Option.map_eq_some_iff.mp bound
  rfl

theorem compiles_blank : compileModule (subsystem .builtin) (module [blank]) =
    .ok [refused "AssertThat"] := by
  rfl

/-- What a subsystem that renames its rules reports stands at none of the rule sites; and with a
broken rule beside it, a rule is no longer reported. -/
theorem names_no_site :
    (subsystem .builtin).Independent ∧
    isRelevant (subsystem .builtin) (module [blank]).image = true ∧
    (∃ es, compileModule (subsystem .builtin) (module [blank]) = .ok es ∧
      ¬ (es.map CompilationError.site).Sublist (ruleSites (subsystem .builtin) (module [blank]))) ∧
    (∃ e, compileModule (expressive .builtin) (module [blank]) = .ok [e]) ∧
    ∀ es, compileModule (expressive .builtin) (module [blank, broken]) ≠ .ok es := by
  refine ⟨independent .builtin, by decide, ⟨_, compiles_blank, by decide⟩,
    ⟨refused "AssertThatAttribute", rfl⟩, fun es ok => ?_⟩
  have fails : compileModule (expressive .builtin) (module [blank, broken]) = .error ⟨"Model",
      "Level", "RequiredIf", "'RequiredIf' annotation carries no expression argument"⟩ := rfl
  rw [fails] at ok
  cases ok

end ByKind

end Rule

end RuleLint
