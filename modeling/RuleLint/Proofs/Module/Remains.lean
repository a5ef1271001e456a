import RuleLint.Proofs.Module.Coverage
import RuleLint.Proofs.Module.Directories

/-!
# What a failed walk leaves in the cache

A walk caches every module below which nothing is missing, and goes on when others fail. A module with
a reference back to one that is being linked is cached before it is known whether that one fails. So
below a cached module something can be missing, but only past two modules that lead to each other
(`keeps_clear`). And every module that leads back to a root that fails is left behind if nothing is
missing on its own way (`Follows.caches_of_spans`).
-/

namespace RuleLint

open File (Location FileSystem)
open Image (Reference)
open Relation (ReflTransGen)

namespace Scope

def LeadsOn (s : Scope) (fs : FileSystem) : Image → Image → Prop := ReflTransGen (s.Leads fs)

/-- References lead from the first image to the second by way of two images that lead to each
other. -/
def Entangles (s : Scope) (fs : FileSystem) (x y : Image) : Prop :=
  ∃ a b, a ≠ b ∧ s.LeadsOn fs x b ∧ s.LeadsOn fs b a ∧ s.LeadsOn fs a b ∧ s.LeadsOn fs a y

def LeadsPast (s : Scope) (fs : FileSystem) (stack : List String) : Image → Image → Prop :=
  ReflTransGen fun a b => s.Leads fs a b ∧ b.name ∉ stack

/-- Nothing is missing below the image, unless references lead there by way of the root. -/
def Sound (s : Scope) (fs : FileSystem) (root image : Image) : Prop :=
  ∀ x, ReflTransGen (fun a b => s.Leads fs a b ∧ b.name ≠ root.name) image x → ¬ s.Dangles fs root x

/-- Below the image a reference leads nowhere only past two images that lead to each other, or
because the name of the root itself is no name to refer to. -/
def Clear (s : Scope) (fs : FileSystem) (root image : Image) : Prop :=
  ∀ x, s.LeadsOn fs image x → ∀ r ∈ x.references, ∀ probes, s.find fs r.name = .refused probes →
    s.Entangles fs image x ∨ r.name = root.name

variable {s : Scope} {fs : FileSystem} {root x y next : Image} {name : String} {stack : List String}

theorem Entangles.head (first : s.Leads fs x y) (entangles : s.Entangles fs y next) :
    s.Entangles fs x next := by
  obtain ⟨a, b, other, onward, around⟩ := entangles
  exact ⟨a, b, other, .head first onward, around⟩

theorem LeadsPast.mono {stack' : List String} (part : stack ⊆ stack')
    (past : s.LeadsPast fs stack' x y) : s.LeadsPast fs stack x y :=
  past.lift id fun _ _ leads => ⟨leads.1, fun onStack => leads.2 (part onStack)⟩

theorem LeadsPast.cons {place : Location} {bytes : Text.Bytes}
    (found : s.find fs name = .image place bytes next) (past : s.LeadsPast fs stack x y) :
    s.LeadsPast fs (name :: stack) x y ∨ s.LeadsPast fs (name :: stack) next y := by
  induction past with
  | refl => exact .inl .refl
  | @tail a b _ leads ih =>
      obtain ⟨leads, fresh⟩ := leads
      by_cases same : b.name = name
      · obtain ⟨r, member, place', bytes', found'⟩ := leads
        have named := (Scope.find_eq_image.mp found').2.2
        rw [← named, same, found] at found'
        cases found'
        exact .inr .refl
      · have step : s.Leads fs a b ∧ b.name ∉ name :: stack := ⟨leads, by simp [same, fresh]⟩
        exact ih.imp (fun past => past.tail step) fun past => past.tail step

end Scope

variable {fs : FileSystem} {scope : Scope} {root image next x y : Image} {stack : List String}

def Loader.Caches (l : Loader) (image : Image) : Prop :=
  ∃ place e, l.cache.entry? place = some e ∧ e.module.image = image

def Loader.CachesBelow (l : Loader) (fs : FileSystem) (scope : Scope) (root : Image)
    (stack : List String) (image : Image) : Prop :=
  ∀ x, scope.LeadsPast fs stack image x → scope.Sound fs root x → l.Caches x

namespace Loader

variable {l l₁ l' : Loader} {r : Reference} {place : Location} {bytes : Text.Bytes}

theorem cachesBelow_of_left (found : scope.find fs r.name = .image place bytes next)
    (grows : ∀ x, l₁.Caches x → l'.Caches x) (self : scope.Sound fs root next → l'.Caches next)
    (each : ∀ r' ∈ next.references, r'.name ∉ r.name :: stack → ∀ place bytes onward,
      scope.find fs r'.name = .image place bytes onward →
        l₁.CachesBelow fs scope root (r.name :: stack) onward) :
    l'.CachesBelow fs scope root stack next := by
  intro x past sound
  have around : scope.LeadsPast fs (r.name :: stack) next x := (past.cons found).elim id id
  rcases around.cases_head with rfl | ⟨onward, ⟨⟨r', member, place', bytes', leads⟩, fresh⟩, rest⟩
  · exact self sound
  · rw [(Scope.find_eq_image.mp leads).2.2] at fresh
    exact grows x (each r' member fresh place' bytes' onward leads x rest sound)

theorem cachesBelow_of_held (found : scope.find fs r.name = .image place bytes next)
    (grows : ∀ x, l₁.Caches x → l'.Caches x)
    (below : l₁.CachesBelow fs scope root (r.name :: stack) image)
    (left : l'.CachesBelow fs scope root stack next) :
    l'.CachesBelow fs scope root stack image := by
  intro x past sound
  rcases past.cons found with around | through
  · exact grows x (below x around sound)
  · exact left x (through.mono (List.subset_cons_self _ _)) sound

end Loader

/-- What a walk over these references leaves in the cache: what was there, and what is sound below
each reference and each cached module. -/
structure Reached (fs : FileSystem) (scope : Scope) (root : Image) (stack : List String)
    (references : List Reference) (before after : Loader) : Prop where
  grows : ∀ x, before.Caches x → after.Caches x
  held : after.Holds fun _ e => after.CachesBelow fs scope root stack e.module.image
  each : ∀ r ∈ references, r.name ∉ stack → ∀ place bytes next,
    scope.find fs r.name = .image place bytes next → after.CachesBelow fs scope root stack next

namespace Reached

variable {references : List Reference} {l l₁ l' : Loader} {r : Reference}

theorem cons (first : Reached fs scope root stack [r] l l₁)
    (rest : Reached fs scope root stack references l₁ l') :
    Reached fs scope root stack (r :: references) l l' where
  grows x cached := rest.grows x (first.grows x cached)
  held := rest.held
  each := by
    intro r' member fresh place bytes next found
    rcases List.mem_cons.mp member with rfl | later
    · intro x past sound
      exact rest.grows x (first.each r' (by simp) fresh place bytes next found x past sound)
    · exact rest.each r' later fresh place bytes next found

theorem skip (held : l.Holds fun _ e => l.CachesBelow fs scope root stack e.module.image)
    (none : r.name ∉ stack → ∀ place bytes next, scope.find fs r.name ≠ .image place bytes next) :
    Reached fs scope root stack [r] l l where
  grows _ := id
  held := held
  each r' member fresh place bytes next found := by
    obtain rfl := List.mem_singleton.mp member
    exact absurd found (none fresh place bytes next)

theorem leave {place : Location} {bytes : Text.Bytes}
    (found : scope.find fs r.name = .image place bytes next)
    (inner : Reached fs scope root (r.name :: stack) next.references l l₁)
    (grows : ∀ x, l₁.Caches x → l'.Caches x) (self : scope.Sound fs root next → l'.Caches next)
    (stored : ∀ {place e}, l'.cache.entry? place = some e →
      l₁.cache.entry? place = some e ∨ e.module.image = next) :
    Reached fs scope root stack [r] l l' := by
  have left := Loader.cachesBelow_of_left found grows self inner.each
  refine ⟨fun x cached => grows x (inner.grows x cached), fun here e entry => ?_, ?_⟩
  · rcases stored entry with before | same
    · exact Loader.cachesBelow_of_held found grows (inner.held here e before) left
    · exact same ▸ left
  · intro r' member fresh place' bytes' next' found'
    obtain rfl := List.mem_singleton.mp member
    rw [found] at found'
    cases found'
    exact left

end Reached

namespace Follows

variable {requester : String} {references : List Reference} {s s' : LinkState} {links : List Link}

theorem reached (separates : scope.Separates fs)
    (walk : Follows fs scope stack requester references s links s')
    (spans : scope.Spans fs root image) (below : root.name ∈ stack)
    (part : references ⊆ image.references) (holds : s.loader.Holds (Drawn fs scope root))
    (held : s.loader.Holds fun _ e => s.loader.CachesBelow fs scope root stack e.module.image) :
    Reached fs scope root stack references s.loader s'.loader := by
  induction walk generalizing image with
  | nil => exact ⟨fun _ => id, held, nofun⟩
  | cyclic onStack rest ih =>
      have others := ih spans below (List.subset_of_cons_subset part) holds held
      exact (Reached.skip held fun fresh => absurd onStack fresh).cons others
  | hosted fresh found rest ih =>
      have others := ih spans below (List.subset_of_cons_subset part) holds held
      exact (Reached.skip held fun _ _ _ _ image => by simp [found] at image).cons others
  | @cached stack requester r _ s _ _ _ fresh recalled rest ih =>
      have others := ih spans below (List.subset_of_cons_subset part) holds held
      obtain ⟨-, place, bytes, resolved, hit⟩ := Loader.recollect_eq_some recalled
      obtain ⟨e, entry, rfl, -⟩ := Loader.entry_of_current (Scope.readAt_of_resolve resolved) hit
      obtain ⟨bytes', found, -⟩ := (holds place e entry).found
      -- The entry was found by the name of its image, the reference may go by another one.
      have same := separates.name_eq found resolved
      refine Reached.cons ⟨fun _ => id, held, ?_⟩ others
      intro r' member _ place' bytes' next found'
      obtain rfl := List.mem_singleton.mp member
      rw [same] at found
      rw [found] at found'
      cases found'
      exact held place e entry
  | @refused stack requester r _ s _ _ _ probes fresh missed found rest ih =>
      obtain ⟨rfl, -⟩ := holds.settled.recollect_eq_none missed
      have others := ih spans below (List.subset_of_cons_subset part) holds held
      exact (Reached.skip held fun _ _ _ _ image => by simp [found] at image).cons others
  | @broken stack requester r _ s s₁ s' _ _ _ place bytes next fresh missed found entered failed rest
      inner ih =>
      obtain ⟨rfl, -⟩ := holds.settled.recollect_eq_none missed
      have keeps := keeps_drawn fs scope root s.loader.cache.policy
      have entering := keeps.enter ⟨below, spans⟩ (part (by simp)) fresh found
      have drawn := (entered.keeps keeps entering (List.Subset.refl _) rfl holds).1
      have under := inner entering.2 entering.1 (List.Subset.refl _) holds
        fun here e entry x past => held here e entry x (past.mono (List.subset_cons_self _ _))
      have first : Reached fs scope root stack [r] s.loader s₁.loader :=
        -- below a sound module nothing fails
        under.leave found (fun _ => id) (fun sound => by
          have none := entered.failures_eq_of_not_dangles sound entering.1 (List.Subset.refl _)
          rw [none, LinkState.withLoader_failures] at failed
          omega) .inl
      exact first.cons (ih spans below (List.subset_of_cons_subset part) drawn first.held)
  | @linked stack requester r _ s s₁ s' inside links l l' place bytes next m fresh missed found
      entered whole adopted rest inner ih =>
      obtain ⟨rfl, -⟩ := holds.settled.recollect_eq_none missed
      have entering := (keeps_drawn fs scope root s.loader.cache.policy).enter ⟨below, spans⟩
        (part (by simp)) fresh found
      have step := adopted_of_linked spans below (part (by simp)) holds fresh missed found entered
        whole adopted
      have under := inner entering.2 entering.1 (List.Subset.refl _) holds
        fun here e entry x past => held here e entry x (past.mono (List.subset_cons_self _ _))
      have self : l'.Caches next := ⟨place, _, (step.stored place).trans (if_pos rfl), rfl⟩
      have first : Reached fs scope root stack [r] s.loader l' :=
        under.leave found (fun _ ⟨here, e, entry, same⟩ => ⟨here, e, step.grows entry, same⟩)
          (fun _ => self) step.entry_eq_or
      exact first.cons (ih spans below (List.subset_of_cons_subset part) step.after first.held)

theorem caches_of_spans (separates : scope.Separates fs)
    {l : Loader} (walk : Follows fs scope [root.name] root.name root.references ⟨l, []⟩ links s)
    (empty : ∀ place, l.cache.entry? place = none) (spans : scope.Spans fs root x) (other : root ≠ x)
    (sound : scope.Sound fs root x) : s.loader.Caches x := by
  have reached := walk.reached separates .refl (by simp) (List.Subset.refl _)
    (fun place e entry => by simp [empty] at entry) fun place e entry => by simp [empty] at entry
  rcases spans.cases_head with same | ⟨next, ⟨⟨r, member, place, bytes, found⟩, fresh⟩, rest⟩
  · exact absurd same other
  · have past : scope.LeadsPast fs [root.name] next x :=
      rest.lift id fun a b leads => ⟨leads.1, by simpa using leads.2⟩
    refine reached.each r member ?_ place bytes next found x past sound
    rw [← (Scope.find_eq_image.mp found).2.2]
    simpa using fresh

end Follows

def Scope.Stacked (scope : Scope) (fs : FileSystem) (root : Image) (stack : List String)
    (image : Image) : Prop :=
  ∀ name ∈ stack, (∀ place bytes a, scope.find fs name = .image place bytes a →
      scope.LeadsOn fs a image) ∧
    (name = root.name ∨ ∀ probes, scope.find fs name ≠ .refused probes)

def ClearAt (fs : FileSystem) (scope : Scope) (root : Image) (place : Location) (m : Module) : Prop :=
  (∃ bytes, scope.find fs m.image.name = .image place bytes m.image) ∧ scope.Clear fs root m.image

theorem ClearAt.leads {r : Reference} {place : Location} {bytes : Text.Bytes} {m : Module}
    (separates : scope.Separates fs) (clear : ClearAt fs scope root place m)
    (resolved : scope.resolve fs r.name = .image place bytes) :
    ∃ bytes, scope.find fs r.name = .image place bytes m.image := by
  obtain ⟨bytes', found⟩ := clear.1
  exact ⟨bytes', separates.name_eq found resolved ▸ found⟩

theorem clear_of_answers (separates : scope.Separates fs) {links : List Link}
    (stacked : scope.Stacked fs root stack image)
    (answers : List.Forall₂ (Answer fs scope stack (ClearAt fs scope root)) image.references links) :
    scope.Clear fs root image := by
  intro x onward r member probes refused
  -- a reference of the image to itself is on the stack and starts the way to `x` anew
  have within (z : Image) (onward : scope.LeadsOn fs z x) (same : z = image) :
      scope.Entangles fs image x ∨ r.name = root.name := by
    induction onward using ReflTransGen.head_induction_on with
    | refl =>
        obtain ⟨link, -, answer⟩ := exists_of_forall₂ answers (same ▸ member)
        cases answer with
        | cyclic onStack =>
            exact .inr ((stacked _ onStack).2.resolve_right fun known => known _ refused)
        | hosted fresh hosted => simp [Scope.find_eq_host.mpr hosted] at refused
        | module fresh resolved clear =>
            obtain ⟨bytes, found⟩ := clear.leads separates resolved
            simp [found] at refused
    | @head z d leads rest ih =>
        subst same
        have leads' := leads
        obtain ⟨r', member', place', bytes', found'⟩ := leads'
        obtain ⟨link, -, answer⟩ := exists_of_forall₂ answers member'
        cases answer with
        | cyclic onStack =>
            by_cases self : d = z
            · exact ih self
            · have back := (stacked _ onStack).1 _ _ _ found'
              exact .inl ⟨d, z, self, .refl, .single leads, back, rest⟩
        | hosted fresh hosted => simp [Scope.find_eq_host.mpr hosted] at found'
        | module fresh resolved clear =>
            obtain ⟨bytes, found⟩ := clear.leads separates resolved
            rw [found] at found'
            cases found'
            exact (clear.2 x rest r member probes refused).imp_left (·.head leads)
  exact within image onward rfl

theorem keeps_clear (separates : scope.Separates fs) (root : Image) (policy : CachePolicy) :
    Keeps fs scope policy (fun place e => ClearAt fs scope root place e.module)
      (ClearAt fs scope root) (scope.Stacked fs root) where
  hit _ clear _ := clear
  enter := by
    intro stack image r place bytes next stacked member fresh found name onStack
    rcases List.mem_cons.mp onStack with rfl | below
    · refine ⟨fun _ _ a found' => ?_, .inr fun probes refused => by simp [found] at refused⟩
      rw [found] at found'
      cases found'
      exact .refl
    · obtain ⟨leads, named⟩ := stacked name below
      exact ⟨fun place' bytes' a found' =>
        (leads place' bytes' a found').tail ⟨r, member, _, _, found⟩, named⟩
  new := by
    rintro stack image place bytes links stacked - found answers l
    have clear := clear_of_answers separates stacked answers
    exact ⟨⟨⟨bytes, found⟩, clear⟩, ⟨bytes, found⟩, clear⟩

theorem Follows.clear (separates : scope.Separates fs) {l : Loader} {s : LinkState}
    {links : List Link}
    (walk : Follows fs scope [root.name] root.name root.references ⟨l, []⟩ links s)
    (empty : ∀ place, l.cache.entry? place = none)
    (self : ∀ {place bytes a}, scope.find fs root.name = .image place bytes a → a = root) :
    s.loader.Holds fun place e => ClearAt fs scope root place e.module := by
  refine (walk.keeps (keeps_clear separates root _) ?_ (List.Subset.refl _) rfl
    fun place e entry => by simp [empty] at entry).1
  intro name onStack
  rw [List.mem_singleton.mp onStack]
  refine ⟨fun place bytes a found => ?_, .inl rfl⟩
  rw [self found]
  exact .refl

end RuleLint
