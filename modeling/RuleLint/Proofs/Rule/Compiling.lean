import Mathlib.Data.List.Forall2
import RuleLint.Rule.Compilation

namespace RuleLint.Rule

section

variable {α β γ δ ε : Type} {f : α → Except ε β} {xs : List α}

theorem mapM_eq_ok_iff {ys : List β} :
    xs.mapM f = .ok ys ↔ List.Forall₂ (fun x y => f x = .ok y) xs ys := by
  induction xs generalizing ys with
  | nil => cases ys <;> simp [pure, Except.pure]
  | cons x xs ih =>
      rw [List.mapM_cons, List.forall₂_cons_left_iff]
      simp only [← ih]
      cases f x with
      | error cause => simp [bind, Except.bind]
      | ok y =>
          cases xs.mapM f with
          | error cause => simp [bind, Except.bind]
          | ok rest => simp [bind, Except.bind, pure, Except.pure, eq_comm]

theorem exists_mapM_eq_ok_iff :
    (∃ ys, xs.mapM f = .ok ys) ↔ ∀ x ∈ xs, ∃ y, f x = .ok y := by
  simp only [mapM_eq_ok_iff]
  induction xs with
  | nil => simp
  | cons x xs ih => simp [List.forall₂_cons_left_iff, ← ih]

theorem exists_of_mapM_eq_error {cause : ε} (failed : xs.mapM f = .error cause) :
    ∃ x ∈ xs, f x = .error cause := by
  induction xs with
  | nil => cases failed
  | cons x xs ih =>
      rw [List.mapM_cons] at failed
      cases here : f x with
      | error first =>
          rw [here] at failed
          cases failed
          exact ⟨x, by simp, here⟩
      | ok y =>
          cases rest : xs.mapM f with
          | error later =>
              rw [here, rest] at failed
              cases failed
              obtain ⟨x', member, there⟩ := ih rest
              exact ⟨x', List.mem_cons_of_mem _ member, there⟩
          | ok ys =>
              rw [here, rest] at failed
              cases failed

theorem mapM_eq_error {before after : List α} {x : α} {cause : ε}
    (sound : ∀ y ∈ before, ∃ z, f y = .ok z) (failed : f x = .error cause) :
    (before ++ x :: after).mapM f = .error cause := by
  obtain ⟨ys, ok⟩ := exists_mapM_eq_ok_iff.mpr sound
  rw [List.mapM_append, ok, List.mapM_cons, failed]
  rfl

theorem mapM_eq_map {g : γ → Except ε δ} {k : β → δ} {zs : List γ}
    (each : List.Forall₂ (fun x z => g z = (f x).map k) xs zs) :
    zs.mapM g = (xs.mapM f).map (List.map k) := by
  induction each with
  | nil => rfl
  | @cons x z xs zs here rest ih =>
      rw [List.mapM_cons, List.mapM_cons, here, ih]
      cases f x with
      | error cause => rfl
      | ok y => cases xs.mapM f <;> rfl

end

def Candidate.Broken (c : Candidate) : Prop :=
  RuleKind.ofName? c.annotation.name = none ∨ c.annotation.args = []

def refusal (tools : Toolchain) (m : Module) (c : Candidate) : Option CompilationError :=
  match c.annotation.args with
  | [] => none
  | expression :: _ =>
    match compile ⟨m, c.type⟩ tools expression with
    | .ok () => none
    | .error diagnostic =>
      some ⟨c.type.name, c.field.name, c.annotation.name, expression, diagnostic.toRuleError⟩

variable (tools : Toolchain) (m : Module) {c : Candidate}

theorem compileCandidate_of_broken (broken : c.Broken) :
    ∃ u : Unclassified, compileCandidate (expressive tools) m c = .error u ∧
      u.typeName = c.type.name ∧ u.field = c.field.name ∧ u.annotation = c.annotation.name := by
  simp only [compileCandidate, expressive, Expressive.bind]
  cases kind : RuleKind.ofName? c.annotation.name with
  | none => exact ⟨_, rfl, rfl, rfl, rfl⟩
  | some kind =>
      have bare : c.annotation.args = [] := by simpa [Candidate.Broken, kind] using broken
      simp only [Option.map_some, Expressive.compileAnnotation, bare, List.head?_nil]
      exact ⟨_, rfl, rfl, rfl, rfl⟩

theorem compileCandidate_of_not_broken (sound : ¬ c.Broken) :
    compileCandidate (expressive tools) m c = .ok (refusal tools m c) := by
  obtain ⟨named, given⟩ := not_or.mp sound
  obtain ⟨kind, known⟩ := Option.ne_none_iff_exists'.mp named
  obtain ⟨expression, rest, args⟩ := List.exists_cons_of_ne_nil given
  simp only [compileCandidate, expressive, Expressive.bind, known, Option.map_some,
    Expressive.compileAnnotation, refusal, args, List.head?_cons, Option.getD_some]
  cases compile ⟨m, c.type⟩ tools expression <;> rfl

theorem compileModule_of_relevant {s : Subsystem} {m : Module}
    (relevant : isRelevant s m.image = true) :
    compileModule s m = ((candidates m.image s.marker).mapM (compileCandidate s m)).map
      fun rs => rs.filterMap id := by
  rw [compileModule, if_pos relevant]
  cases (candidates m.image s.marker).mapM (compileCandidate s m) <;> rfl

theorem mapM_compileCandidate_of_sound (cs : List Candidate) (sound : ∀ c ∈ cs, ¬ c.Broken) :
    cs.mapM (compileCandidate (expressive tools) m) = .ok (cs.map (refusal tools m)) := by
  rw [mapM_eq_ok_iff, List.forall₂_map_right_iff]
  exact List.forall₂_same.mpr fun c member => compileCandidate_of_not_broken tools m (sound c member)

theorem mapM_compileCandidate_of_broken (cs : List Candidate) (broken : ∃ c ∈ cs, c.Broken) :
    ∃ u : Unclassified, cs.mapM (compileCandidate (expressive tools) m) = .error u ∧
      ∃ c ∈ cs, c.Broken ∧ u.typeName = c.type.name ∧ u.field = c.field.name ∧
        u.annotation = c.annotation.name := by
  cases compiled : cs.mapM (compileCandidate (expressive tools) m) with
  | ok rs =>
      obtain ⟨c, member, broken⟩ := broken
      obtain ⟨u, failed, -⟩ := compileCandidate_of_broken tools m broken
      obtain ⟨r, ok⟩ := exists_mapM_eq_ok_iff.mp ⟨rs, compiled⟩ c member
      rw [failed] at ok
      cases ok
  | error u =>
      obtain ⟨c, member, failed⟩ := exists_of_mapM_eq_error compiled
      have here : c.Broken := by
        by_contra sound
        rw [compileCandidate_of_not_broken tools m sound] at failed
        cases failed
      obtain ⟨u', failed', place⟩ := compileCandidate_of_broken tools m here
      rw [failed] at failed'
      cases failed'
      exact ⟨u, rfl, c, member, here, place⟩

theorem compileModule_of_sound (relevant : isRelevant (expressive tools) m.image = true)
    (sound : ∀ c ∈ candidates m.image Expressive.marker, ¬ c.Broken) :
    compileModule (expressive tools) m =
      .ok ((candidates m.image Expressive.marker).filterMap (refusal tools m)) := by
  have each : (candidates m.image (expressive tools).marker).mapM
      (compileCandidate (expressive tools) m) = _ := mapM_compileCandidate_of_sound tools m _ sound
  rw [compileModule_of_relevant relevant, each]
  simp only [Except.map, List.filterMap_map]
  rfl

theorem compileModule_of_broken (relevant : isRelevant (expressive tools) m.image = true)
    (broken : ∃ c ∈ candidates m.image Expressive.marker, c.Broken) :
    ∃ u : Unclassified, compileModule (expressive tools) m = .error u ∧
      ∃ c ∈ candidates m.image Expressive.marker, c.Broken ∧ u.typeName = c.type.name ∧
        u.field = c.field.name ∧ u.annotation = c.annotation.name := by
  obtain ⟨u, failed, place⟩ := mapM_compileCandidate_of_broken tools m _ broken
  have failed' : (candidates m.image (expressive tools).marker).mapM
      (compileCandidate (expressive tools) m) = .error u := failed
  exact ⟨u, by rw [compileModule_of_relevant relevant, failed']; rfl, place⟩

end RuleLint.Rule
