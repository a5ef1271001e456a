import RuleLint.Proofs.Rule.Annotations
import RuleLint.Proofs.Rule.Compiling
import RuleLint.Proofs.Rule.Declared

namespace RuleLint

open Image (TypeDef Field)
open Text (isBlank hasBlankEnd fromFirst)

/-- The second name is the first one, with blanks around it or as that of a nullable type. The mark of
the nullable type does not come to stand behind a blank. -/
inductive Respelled : String → String → Prop
  | same (name : String) : Respelled name name
  | padded {before after : String} (name : String) (blank : ∀ c ∈ before.toList, isBlank c = true)
      (blank' : ∀ c ∈ after.toList, isBlank c = true) : Respelled name (before ++ name ++ after)
  | marked {name : String} (tight : hasBlankEnd name = false) : Respelled name (name ++ "?")

def Image.TypeDef.fieldAnnotations (t : TypeDef) : List (List Image.Annotation) :=
  t.fields.map (·.annotations)

structure Module.Respelled (m m' : Module) : Prop where
  retyped : m.Retyped RuleLint.Respelled m'
  references : m'.image.references = m.image.references
  annotations : m'.image.types.map TypeDef.fieldAnnotations = m.image.types.map TypeDef.fieldAnnotations

namespace Rule

variable {R : String → String → Prop} {tools : Toolchain}

theorem Ty.ofDeclared_respelled {name name' : String} (d : Declaring)
    (respelled : Respelled name name') : ofDeclared d name' = ofDeclared d name := by
  cases respelled with
  | same => rfl
  | padded name blank blank' => exact ofDeclared_padded blank blank' d name
  | marked tight => rw [ofDeclared_marked, if_neg (by simp [tight])]

structure Candidate.Retyped (R : String → String → Prop) (c c' : Candidate) : Prop where
  type : c.type.Retyped R c'.type
  field : c'.field.name = c.field.name
  annotation : c'.annotation = c.annotation

theorem candidates_retyped {image image' : Image}
    (types : List.Forall₂ (TypeDef.Retyped R) image.types image'.types)
    (annotations : image'.types.map TypeDef.fieldAnnotations = image.types.map TypeDef.fieldAnnotations)
    (marker : String) :
    List.Forall₂ (Candidate.Retyped R) (candidates image marker) (candidates image' marker) := by
  have annotated : List.Forall₂ (fun t t' : TypeDef => t'.fieldAnnotations = t.fieldAnnotations)
      image.types image'.types := Image.forall₂_of_map_eq annotations fun _ _ same => same
  refine List.rel_flatMap (types.mp (fun _ _ => And.intro) annotated) ?_
  rintro t t' ⟨retyped, same⟩
  have annotated : List.Forall₂ (fun f f' : Field => f'.annotations = f.annotations)
      t.fields t'.fields := Image.forall₂_of_map_eq same fun _ _ same => same
  refine List.rel_flatMap (retyped.fields.mp (fun _ _ => And.intro) annotated) ?_
  rintro f f' ⟨respelled, same⟩
  dsimp only
  rw [same, List.forall₂_map_left_iff, List.forall₂_map_right_iff]
  exact List.forall₂_same.mpr fun annotation _ => ⟨retyped, respelled.name, rfl⟩

variable {m m' : Module}

theorem compileCandidate_retyped (retyped : m.Retyped R m')
    (means : ∀ {d name name'}, R name name' → Ty.ofDeclared d name' = Ty.ofDeclared d name)
    {c c' : Candidate} (same : c.Retyped R c') :
    compileCandidate (expressive tools) m' c' = compileCandidate (expressive tools) m c := by
  have types : Declaring.Retyped R ⟨m, c.type⟩ ⟨m', c'.type⟩ := ⟨retyped, same.type⟩
  have alike := types.alike means tools
  simp only [compileCandidate, expressive, Expressive.bind, same.annotation, same.field,
    same.type.name]
  cases RuleKind.ofName? c.annotation.name with
  | none => rfl
  | some kind => simp only [Option.map_some, Expressive.compileAnnotation, compile_eq alike]

theorem Candidate.Retyped.site_eq {c c' : Candidate} (same : c.Retyped R c') : c'.site = c.site := by
  rw [Candidate.site, Candidate.site, same.type.name, same.field, same.annotation]

theorem compileModule_respelled (respelled : m.Respelled m') (tools : Toolchain) :
    ruleSites (expressive tools) m' = ruleSites (expressive tools) m ∧
      compileModule (expressive tools) m' = compileModule (expressive tools) m := by
  have relevant : isRelevant (expressive tools) m'.image = isRelevant (expressive tools) m.image := by
    rw [isRelevant, isRelevant, Image.referencesModule, Image.referencesModule, respelled.references]
  have types : List.Forall₂ (TypeDef.Retyped RuleLint.Respelled) m.image.types m'.image.types := by
    cases respelled.retyped with
    | node types => exact types
  have each := candidates_retyped types respelled.annotations (expressive tools).marker
  constructor
  · have sites : (candidates m'.image (expressive tools).marker).map Candidate.site =
        (candidates m.image (expressive tools).marker).map Candidate.site := by
      rw [← List.forall₂_eq_eq_eq, List.forall₂_map_left_iff, List.forall₂_map_right_iff]
      exact each.flip.imp fun _ _ same => same.site_eq
    rw [ruleSites, ruleSites, relevant, sites]
  · have compiled : (candidates m'.image (expressive tools).marker).mapM
          (compileCandidate (expressive tools) m') =
        (candidates m.image (expressive tools).marker).mapM
          (compileCandidate (expressive tools) m) := by
      have alike := mapM_eq_map (each.imp fun c c' same =>
        show compileCandidate (expressive tools) m' c' =
            (compileCandidate (expressive tools) m c).map id by
          rw [compileCandidate_retyped respelled.retyped (Ty.ofDeclared_respelled _) same,
            Except.map_id]
          rfl)
      rw [alike, List.map_id_fun, Except.map_id]
      rfl
    rw [compileModule, compileModule, relevant, compiled]

/-- Blanks around the declared name of a type make no difference, and neither does the mark of a
nullable type, unless it comes to stand behind a blank: then the name means what is declared with its
blanks. So the rules of a module are found and refused alike with more blanks and marks, except for such
marks. -/
theorem declared_respelled (d : Declaring) (name : String) :
    (∀ before after : String, (∀ c ∈ before.toList, isBlank c = true) →
      (∀ c ∈ after.toList, isBlank c = true) →
      Ty.ofDeclared d (before ++ name ++ after) = Ty.ofDeclared d name) ∧
    (Ty.ofDeclared d (name ++ "?") =
      if hasBlankEnd name then (d.lookupType? (.ofList (fromFirst name))).elim .unknown Ty.ofType
      else Ty.ofDeclared d name) ∧
    ∀ (tools : Toolchain) (m m' : Module), m.Respelled m' →
      ruleSites (expressive tools) m' = ruleSites (expressive tools) m ∧
        compileModule (expressive tools) m' = compileModule (expressive tools) m :=
  ⟨fun _ _ blank blank' => Ty.ofDeclared_padded blank blank' d name, Ty.ofDeclared_marked d name,
    fun tools _ _ respelled => compileModule_respelled respelled tools⟩

/-! A module whose rule compares a date and whose dependency declares a number, and the same module with
blanks and marks. A mark behind a blank loses the number. -/

namespace Marked

def order (due : String) : TypeDef where
  name := "Order"
  qualifier := none
  kind := .object
  fields := [⟨"due", due, [⟨"AssertThat", some "ExpressiveAttribute", ["due < Now()"]⟩]⟩]
  methods := []
  variants := []

def item (price : String) : TypeDef where
  name := "Item"
  qualifier := none
  kind := .object
  fields := [⟨"price", price, []⟩]
  methods := []
  variants := []

def stock (price : String) : Module :=
  ⟨["Stock.rmod"], .ofBytes [], ⟨"Stock", none, [], [item price]⟩, [], [], 1⟩

def shop (due price : String) : Module :=
  ⟨["Shop.rmod"], .ofBytes [], ⟨"Shop", none, [⟨"Expressive", none⟩, ⟨"Stock", none⟩], [order due]⟩,
    [stock price], ["Expressive"], 2⟩

theorem blank : ∀ c ∈ " \t".toList, isBlank c = true := List.all_eq_true.mp (by decide)

theorem respelled : (shop "date" "int").Respelled (shop (" \t" ++ "date" ++ " \t") ("int" ++ "?")) where
  retyped := by
    have own : (order "date").Retyped Respelled (order (" \t" ++ "date" ++ " \t")) :=
      { name := rfl
        qualifier := rfl
        kind := rfl
        variants := rfl
        fields := .cons ⟨rfl, .padded "date" blank blank⟩ .nil
        methods := .nil }
    have others : (item "int").Retyped Respelled (item ("int" ++ "?")) :=
      { name := rfl
        qualifier := rfl
        kind := rfl
        variants := rfl
        fields := .cons ⟨rfl, .marked (by decide)⟩ .nil
        methods := .nil }
    exact .node (.cons own .nil) (.cons (.node (.cons others .nil) .nil) .nil)
  references := rfl
  annotations := rfl

theorem compiles_alike : (∀ c ∈ " \t".toList, isBlank c = true) ∧
    (shop "date" "int").Respelled (shop (" \t" ++ "date" ++ " \t") ("int" ++ "?")) ∧
    Ty.ofDeclared ⟨shop "date" "int", order "date"⟩ (" \t" ++ "Item" ++ " \t") =
      Ty.ofDeclared ⟨shop "date" "int", order "date"⟩ "Item" ∧
    compileModule (expressive .builtin) (shop (" \t" ++ "date" ++ " \t") ("int" ++ "?")) =
      compileModule (expressive .builtin) (shop "date" "int") := by
  obtain ⟨padded, -, alike⟩ :=
    declared_respelled ⟨shop "date" "int", order "date"⟩ "Item"
  exact ⟨blank, respelled, padded _ _ blank blank, (alike .builtin _ _ respelled).2⟩

theorem loses_number : Ty.ofDeclared ⟨stock "int", item "int"⟩ "int " = .number ∧
    Ty.ofDeclared ⟨stock "int", item "int"⟩ ("int " ++ "?") = .unknown := by
  constructor
  · have padded : "int " = "" ++ "int" ++ " " := by decide
    rw [padded, Ty.ofDeclared_padded (List.all_eq_true.mp (by decide)) (List.all_eq_true.mp (by decide))]
    exact Ty.ofDeclared_of_builtin (by decide) (by rw [Ty.builtin?_map]; rfl)
  · rw [Ty.ofDeclared_marked, if_pos (by decide)]
    rfl

end Marked

end Rule

end RuleLint
