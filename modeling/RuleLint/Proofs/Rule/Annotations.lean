import RuleLint.Proofs.Rule.Retyping

namespace RuleLint

open Image (TypeDef Field Annotation)

namespace Image

def Field.bare (f : Field) : Field := { f with annotations := [] }

def TypeDef.bare (t : TypeDef) : TypeDef := { t with fields := t.fields.map Field.bare }

def bare (image : Image) : Image := { image with types := image.types.map TypeDef.bare }

theorem Field.retyped_of_bare {f f' : Field} (same : f'.bare = f.bare) : f.Retyped Eq f' where
  name := (congrArg Field.name same :)
  ty := (congrArg Field.ty same.symm :)

theorem Method.retyped_refl (m : Method) : m.Retyped Eq m :=
  ⟨rfl, List.forall₂_same.mpr fun _ _ => rfl, rfl⟩

theorem forall₂_of_map_eq {α β : Type} {f : α → β} {S : α → α → Prop} {xs ys : List α}
    (same : ys.map f = xs.map f) (each : ∀ x y, f y = f x → S x y) : List.Forall₂ S xs ys := by
  rw [← List.forall₂_eq_eq_eq, List.forall₂_map_left_iff, List.forall₂_map_right_iff] at same
  exact same.flip.imp fun x y equal => each x y equal

theorem TypeDef.retyped_of_bare {t t' : TypeDef} (same : t'.bare = t.bare) : t.Retyped Eq t' where
  name := (congrArg TypeDef.name same :)
  qualifier := (congrArg TypeDef.qualifier same :)
  kind := (congrArg TypeDef.kind same :)
  variants := (congrArg TypeDef.variants same :)
  fields := forall₂_of_map_eq (congrArg TypeDef.fields same) fun _ _ => Field.retyped_of_bare
  methods := by
    have methods : t'.methods = t.methods := (congrArg TypeDef.methods same :)
    rw [methods]
    exact List.forall₂_same.mpr fun m _ => m.retyped_refl

theorem types_retyped_of_bare {image image' : Image} (same : image'.bare = image.bare) :
    List.Forall₂ (TypeDef.Retyped Eq) image.types image'.types :=
  forall₂_of_map_eq (congrArg Image.types same) fun _ _ => TypeDef.retyped_of_bare

end Image

theorem Module.retyped_refl (m : Module) : m.Retyped Eq m := by
  induction m using Module.induction with
  | node m ih =>
      exact .node (Image.types_retyped_of_bare rfl) (List.forall₂_same.mpr fun d member => ih d member)

namespace Rule

theorem Declaring.alike_of_bare {m : Module} {image' : Image} {type type' : TypeDef}
    (tools : Toolchain) (image : image'.bare = m.image.bare) (bare : type'.bare = type.bare) :
    Declaring.Alike tools ⟨m, type⟩ ⟨{ m with image := image' }, type'⟩ := by
  have module : m.Retyped Eq { m with image := image' } :=
    .node (Image.types_retyped_of_bare image) (List.forall₂_same.mpr fun d _ => d.retyped_refl)
  have retyped : Declaring.Retyped Eq ⟨m, type⟩ ⟨{ m with image := image' }, type'⟩ :=
    ⟨module, Image.TypeDef.retyped_of_bare bare⟩
  exact retyped.alike (fun same => same ▸ rfl) tools

end Rule

end RuleLint
