import Mathlib.Logic.Relation
import RuleLint.Proofs.Module.Settled

/-!
# What linking covers

A loader that remembers nothing links every image that the references of a root lead to, and fails
for a reference of one of these that leads nowhere (`Follows.failures_eq_nil_iff`). References to the
root's own name are left alone, whatever they lead to: linking takes them for a way back to the root.
-/

namespace RuleLint

open File (Location FileSystem)
open Hash (Fingerprint)
open Image (Reference)
open Relation (ReflTransGen)

namespace Scope

def Leads (s : Scope) (fs : FileSystem) (a b : Image) : Prop :=
  ∃ r ∈ a.references, ∃ place bytes, s.find fs r.name = .image place bytes b

/-- References lead from the root to the image, over any number of steps and never to a module of
the root's name. -/
def Spans (s : Scope) (fs : FileSystem) (root : Image) : Image → Prop :=
  ReflTransGen (fun a b => s.Leads fs a b ∧ b.name ≠ root.name) root

/-- A reference of the image, and not to the root's name, leads nowhere. -/
def Dangles (s : Scope) (fs : FileSystem) (root image : Image) : Prop :=
  ∃ r ∈ image.references, r.name ≠ root.name ∧ ∃ probes, s.find fs r.name = .refused probes

end Scope

/-- The entry holds what the files hold now, and nothing but what the root spans. -/
structure Drawn (fs : FileSystem) (scope : Scope) (root : Image) (place : Location)
    (e : CacheEntry) : Prop where
  found : ∃ bytes, scope.find fs e.module.image.name = .image place bytes e.module.image ∧
    e.fingerprint = .ofBytes bytes
  nodes : ∀ x ∈ e.module.tree, x.UnchangedIn fs ∧ scope.Spans fs root x.image

def Loader.Settles (scope : Scope) (stack : List String) (l : Loader) (name : String) : Prop :=
  name ∈ scope.hosts ∨ name ∈ stack ∨
    ∃ place e, l.cache.entry? place = some e ∧ e.module.image.name = name

def Loader.Closed (scope : Scope) (stack : List String) (l : Loader) : Prop :=
  l.Holds fun _ e => ∀ r ∈ e.module.image.references, l.Settles scope stack r.name

variable {fs : FileSystem} {scope : Scope} {root : Image} {stack : List String}

/-! ## Entries -/

theorem keeps_drawn (fs : FileSystem) (scope : Scope) (root : Image) (policy : CachePolicy) :
    Keeps fs scope policy (Drawn fs scope root)
      (fun _ m => ∀ x ∈ m.tree, x.UnchangedIn fs ∧ scope.Spans fs root x.image)
      fun stack image => root.name ∈ stack ∧ scope.Spans fs root image where
  hit _ drawn _ := drawn.nodes
  enter := by
    rintro stack image r place bytes next ⟨below, spans⟩ member fresh found
    have named := (Scope.find_eq_image.mp found).2.2
    refine ⟨List.mem_cons_of_mem _ below, spans.tail ⟨⟨r, member, place, bytes, found⟩, ?_⟩⟩
    rw [named]
    rintro same
    exact fresh (same ▸ below)
  new := by
    rintro stack image place bytes links ⟨-, spans⟩ - found answers l
    have read := Scope.readAt_of_resolve (Scope.find_eq_image.mp found).1
    have nodes : ∀ x ∈ (l.built place (.ofBytes bytes) image links).tree,
        x.UnchangedIn fs ∧ scope.Spans fs root x.image := by
      refine Module.forall_mem_tree.mpr ⟨⟨⟨bytes, read, rfl⟩, spans⟩, fun d dependency => ?_⟩
      obtain ⟨r, -, -, place, bytes, -, below⟩ := Answer.of_dependency answers dependency
      exact below
    exact ⟨⟨⟨bytes, found, rfl⟩, nodes⟩, nodes⟩

theorem Drawn.unchanged {place : Location} {e : CacheEntry} (drawn : Drawn fs scope root place e) :
    e.Unchanged fs place := by
  obtain ⟨⟨bytes, found, fingerprint⟩, nodes⟩ := drawn
  have read := Scope.readAt_of_resolve (Scope.find_eq_image.mp found).1
  exact ⟨⟨bytes, read, fingerprint⟩, fun x node => (nodes x node).1⟩

namespace Loader

variable {l l' : Loader} {name : String} {place : Location} {e : CacheEntry}

theorem Settles.mono {stack' : List String} (settles : l.Settles scope stack name)
    (onStack : name ∈ stack → l'.Settles scope stack' name)
    (grows : ∀ {place e}, l.cache.entry? place = some e → l'.cache.entry? place = some e) :
    l'.Settles scope stack' name := by
  rcases settles with hosted | below | ⟨place, e, entry, named⟩
  · exact .inl hosted
  · exact onStack below
  · exact .inr (.inr ⟨place, e, grows entry, named⟩)

theorem Holds.settled (holds : l.Holds (Drawn fs scope root)) : l.Settled fs :=
  fun _ place e entry => (holds place e entry).unchanged

theorem Holds.image_eq (holds : l.Holds (Drawn fs scope root))
    (entry : l.cache.entry? place = some e) {location : Location} {bytes : Text.Bytes}
    {image : Image} (found : scope.find fs e.module.image.name = .image location bytes image) :
    e.module.image = image := by
  obtain ⟨bytes', found', -⟩ := (holds place e entry).found
  rw [found'] at found
  cases found
  rfl

end Loader

/-! ## The walk -/

namespace Follows

variable {requester : String} {references : List Reference} {s s' : LinkState} {links : List Link}

theorem failures_eq_of_not_dangles
    (walk : Follows fs scope stack requester references s links s') {image : Image}
    (resolves : ∀ x, ReflTransGen (fun a b => scope.Leads fs a b ∧ b.name ≠ root.name) image x →
      ¬ scope.Dangles fs root x)
    (below : root.name ∈ stack) (part : references ⊆ image.references) :
    s'.failures = s.failures := by
  induction walk generalizing image with
  | nil => rfl
  | cyclic onStack rest ih => exact ih resolves below (List.subset_of_cons_subset part)
  | hosted fresh found rest ih => exact ih resolves below (List.subset_of_cons_subset part)
  | cached fresh recalled rest ih => exact ih resolves below (List.subset_of_cons_subset part)
  | @refused _ _ r _ _ _ _ _ probes fresh missed found rest ih =>
      have other : r.name ≠ root.name := fun same => fresh (same ▸ below)
      exact absurd ⟨r, part (by simp), other, probes, found⟩ (resolves image .refl)
  | @broken _ _ r _ _ _ _ _ _ _ place bytes next fresh missed found entered failed rest inner ih =>
      have other : next.name ≠ root.name := by
        rw [(Scope.find_eq_image.mp found).2.2]
        exact fun same => fresh (same ▸ below)
      have leads : scope.Leads fs image next := ⟨r, part (by simp), place, bytes, found⟩
      have same := inner (fun x onward => resolves x (.head ⟨leads, other⟩ onward))
        (List.mem_cons_of_mem _ below) (List.Subset.refl _)
      rw [same, LinkState.withLoader_failures] at failed
      omega
  | linked fresh missed found entered whole adopted rest inner ih =>
      exact (ih resolves below (List.subset_of_cons_subset part)).trans (entered.failures_eq whole)

structure Adopted (fs : FileSystem) (scope : Scope) (root next : Image) (place : Location)
    (bytes : Text.Bytes) (inside : List Link) (l l' : Loader) : Prop where
  before : l.Holds (Drawn fs scope root)
  after : l'.Holds (Drawn fs scope root)
  absent : l.cache.entry? place = none
  built : (l.adopt place (.ofBytes bytes) next inside).1 = l.built place (.ofBytes bytes) next inside
  stored : ∀ here, l'.cache.entry? here =
    if here = place then some ⟨.ofBytes bytes, l.built place (.ofBytes bytes) next inside⟩
    else l.cache.entry? here

theorem adopted_of_linked {r : Reference} {s₁ : LinkState} {inside : List Link} {l' : Loader}
    {place : Location} {bytes : Text.Bytes} {image next : Image} {m : Module}
    (spans : scope.Spans fs root image) (below : root.name ∈ stack) (member : r ∈ image.references)
    (holds : s.loader.Holds (Drawn fs scope root)) (fresh : r.name ∉ stack)
    (missed : s.loader.recollect fs scope r.name = (none, s.loader))
    (found : scope.find fs r.name = .image place bytes next)
    (entered : Follows fs scope (r.name :: stack) next.name next.references s inside s₁)
    (whole : ¬ s.failures.length < s₁.failures.length)
    (adopted : s₁.loader.adopt place (.ofBytes bytes) next inside = (m, l')) :
    Adopted fs scope root next place bytes inside s₁.loader l' := by
  obtain ⟨resolved, decoded, named⟩ := Scope.find_eq_image.mp found
  have keeps := keeps_drawn fs scope root s.loader.cache.policy
  have linking : Follows fs scope stack image.name [r] s [.module m] (s₁.withLoader l') :=
    .linked fresh missed found entered whole adopted .nil
  have one : [r] ⊆ image.references := fun r' same => List.mem_singleton.mp same ▸ member
  have before := (entered.keeps keeps (keeps.enter ⟨below, spans⟩ member fresh found)
    (List.Subset.refl _) rfl holds).1
  have stale := entered.lookup_eq_none (f := some (.ofBytes bytes))
    (Scope.readAt_of_resolve resolved) decoded (by simp [named])
    ((Loader.recollect_eq_none missed).2 resolved)
  refine ⟨before, (linking.keeps keeps ⟨below, spans⟩ one rfl holds).1,
    before.settled.entry_eq_none (Scope.readAt_of_resolve resolved) stale,
    (Loader.adopt_of_stale next inside stale).1, fun here => ?_⟩
  have stored := (Loader.adopt_of_stale next inside stale).2 here
  rwa [adopted] at stored

namespace Adopted

variable {next : Image} {place : Location} {bytes : Text.Bytes} {inside : List Link}
  {l l' : Loader} (adopted : Adopted fs scope root next place bytes inside l l')

include adopted

theorem entry_eq_or {here : Location} {e : CacheEntry} (entry : l'.cache.entry? here = some e) :
    l.cache.entry? here = some e ∨ e.module.image = next := by
  rw [adopted.stored] at entry
  split at entry
  · cases entry
    exact .inr rfl
  · exact .inl entry

theorem grows {here : Location} {e : CacheEntry} (entry : l.cache.entry? here = some e) :
    l'.cache.entry? here = some e := by
  rw [adopted.stored, if_neg, entry]
  rintro rfl
  rw [adopted.absent] at entry
  cases entry

end Adopted

structure Covers (scope : Scope) (stack : List String) (references : List Reference)
    (before : Loader) (links : List Link) (after : Loader) : Prop where
  grows : ∀ {place e}, before.cache.entry? place = some e → after.cache.entry? place = some e
  settles : ∀ r ∈ references, after.Settles scope stack r.name
  closed : after.Closed scope stack
  linked : ∀ {place e}, after.cache.entry? place = some e → before.cache.entry? place = some e ∨
    ∃ m ∈ links.filterMap Link.module?, e.module ∈ m.tree

namespace Covers

variable {l l₁ l' : Loader} {r : Reference}

theorem skip (closed : l.Closed scope stack) {link : Link} (settled : l.Settles scope stack r.name) :
    Covers scope stack [r] l [link] l where
  grows := id
  settles _ member := List.mem_singleton.mp member ▸ settled
  closed := closed
  linked := .inl

theorem trans {references' : List Reference} {links' : List Link}
    (first : Covers scope stack references l links l₁)
    (second : Covers scope stack references' l₁ links' l') :
    Covers scope stack (references ++ references') l (links ++ links') l' where
  grows entry := second.grows (first.grows entry)
  settles := by
    intro r member
    rcases List.mem_append.mp member with before | after
    · exact (first.settles r before).mono (fun onStack => .inr (.inl onStack)) second.grows
    · exact second.settles r after
  closed := second.closed
  linked entry := by
    simp only [List.filterMap_append, List.mem_append]
    rcases second.linked entry with middle | ⟨m, linked, node⟩
    · refine (first.linked middle).imp_right ?_
      rintro ⟨m, linked, node⟩
      exact ⟨m, .inl linked, node⟩
    · exact .inr ⟨m, .inr linked, node⟩

theorem adopt {next : Image} {place : Location} {f : Fingerprint} (named : next.name = r.name)
    (covers : Covers scope (r.name :: stack) next.references l links l₁)
    (absent : l₁.cache.entry? place = none) :
    Covers scope stack [r] l [.module (l₁.built place f next links)]
      (l₁.adopt place f next links).2 := by
  have stale : l₁.cache.lookup place (some f) = none := by simp [ModuleCache.lookup, absent]
  have stored := (Loader.adopt_of_stale next links stale).2
  have grows {here : Location} {e : CacheEntry} (entry : l₁.cache.entry? here = some e) :
      ModuleCache.entry? (l₁.adopt place f next links).2.cache here = some e := by
    rw [stored]
    split
    · rename_i same
      rw [same, absent] at entry
      cases entry
    · exact entry
  have settled : (l₁.adopt place f next links).2.Settles scope stack r.name :=
    .inr (.inr ⟨place, _, (stored place).trans (if_pos rfl), named⟩)
  -- The name that is taken off the stack is settled by the module that is cached for it.
  have settles {name : String} (before : l₁.Settles scope (r.name :: stack) name) :
      (l₁.adopt place f next links).2.Settles scope stack name := by
    refine before.mono (fun onStack => ?_) grows
    rcases List.mem_cons.mp onStack with rfl | below
    · exact settled
    · exact .inr (.inl below)
  refine ⟨fun entry => grows (covers.grows entry), ?_, ?_, ?_⟩
  · intro r' member
    exact List.mem_singleton.mp member ▸ settled
  · intro here e entry r' member
    rw [stored] at entry
    split at entry
    · cases entry
      exact settles (covers.settles r' member)
    · exact settles (covers.closed here e entry r' member)
  · intro here e entry
    rw [stored] at entry
    split at entry
    · cases entry
      exact .inr ⟨_, by simp [Link.module?], Module.self_mem_tree _⟩
    · refine (covers.linked entry).imp_right ?_
      rintro ⟨m, linked, node⟩
      exact ⟨l₁.built place f next links, by simp [Link.module?],
        Module.mem_tree_of_dependency linked node⟩

end Covers

/-- A walk without failures leaves nothing to be linked below the stack. -/
theorem covers (separates : scope.Separates fs)
    (walk : Follows fs scope stack requester references s links s') {image : Image}
    (spans : scope.Spans fs root image) (below : root.name ∈ stack)
    (part : references ⊆ image.references) (holds : s.loader.Holds (Drawn fs scope root))
    (closed : s.loader.Closed scope stack) (unfailed : s'.failures = s.failures) :
    Covers scope stack references s.loader links s'.loader := by
  induction walk generalizing image with
  | nil => exact ⟨id, nofun, closed, .inl⟩
  | cyclic onStack rest ih =>
      have others := ih spans below (List.subset_of_cons_subset part) holds closed unfailed
      exact (Covers.skip closed (.inr (.inl onStack))).trans others
  | hosted fresh found rest ih =>
      have others := ih spans below (List.subset_of_cons_subset part) holds closed unfailed
      exact (Covers.skip closed (.inl (Scope.find_eq_host.mp found))).trans others
  | cached fresh recalled rest ih =>
      have others := ih spans below (List.subset_of_cons_subset part) holds closed unfailed
      obtain ⟨-, place, bytes, resolved, hit⟩ := Loader.recollect_eq_some recalled
      obtain ⟨e, entry, rfl, -⟩ := Loader.entry_of_current (Scope.readAt_of_resolve resolved) hit
      -- The fast path does not compare the names; that no other name leads here does it.
      obtain ⟨bytes', found, -⟩ := (holds place e entry).found
      have named := separates.name_eq found resolved
      exact (Covers.skip closed (.inr (.inr ⟨place, e, entry, named⟩))).trans others
  | refused fresh missed found rest ih =>
      have longer := rest.failures_length_le
      rw [LinkState.fail_failures, LinkState.withLoader_failures, unfailed, List.length_append,
        List.length_singleton] at longer
      omega
  | broken fresh missed found entered failed rest inner ih =>
      have longer := rest.failures_length_le
      rw [unfailed] at longer
      omega
  | @linked stack requester r _ s s₁ s' inside links l l' place bytes next m fresh missed found
      entered whole adopted rest inner ih =>
      obtain ⟨rfl, -⟩ := holds.settled.recollect_eq_none missed
      have entering := (keeps_drawn fs scope root s.loader.cache.policy).enter ⟨below, spans⟩
        (part (by simp)) fresh found
      have narrower : s.loader.Closed scope (r.name :: stack) := fun here e entry r' member =>
        (closed here e entry r' member).mono
          (fun onStack => .inr (.inl (List.mem_cons_of_mem _ onStack))) id
      have under := inner entering.2 entering.1 (List.Subset.refl _) holds narrower
        (entered.failures_eq whole)
      have step := adopted_of_linked spans below (part (by simp)) holds fresh missed found entered
        whole adopted
      have covers := under.adopt (Scope.find_eq_image.mp found).2.2 (f := .ofBytes bytes) step.absent
      rw [← step.built, adopted] at covers
      exact covers.trans (ih spans below (List.subset_of_cons_subset part) step.after covers.closed
        (unfailed.trans (entered.failures_eq whole).symm))

/-! ## From the root -/

namespace Covers

variable {l l' : Loader} {x : Image}

theorem settles_of_listed (covers : Covers scope stack root.references l links l')
    (listed : x = root ∨ ∃ place e, l'.cache.entry? place = some e ∧ e.module.image = x)
    {r : Reference} (member : r ∈ x.references) : l'.Settles scope stack r.name := by
  rcases listed with rfl | ⟨place, e, entry, rfl⟩
  · exact covers.settles r member
  · exact covers.closed place e entry r member

theorem listed_of_spans (covers : Covers scope [root.name] root.references l links l')
    (holds : l'.Holds (Drawn fs scope root)) (spans : scope.Spans fs root x) :
    x = root ∨ ∃ place e, l'.cache.entry? place = some e ∧ e.module.image = x := by
  induction spans with
  | refl => exact .inl rfl
  | @tail a b _ leads listed =>
      obtain ⟨⟨r, member, place, bytes, found⟩, other⟩ := leads
      have named := (Scope.find_eq_image.mp found).2.2
      rcases covers.settles_of_listed listed member with hosted | onStack | ⟨here, e, entry, same⟩
      · rw [Scope.find_eq_host.mpr hosted] at found
        cases found
      · exact absurd (named.trans (List.mem_singleton.mp onStack)) other
      · exact .inr ⟨here, e, entry, holds.image_eq entry (same ▸ found)⟩

theorem not_dangles (covers : Covers scope [root.name] root.references l links l')
    (holds : l'.Holds (Drawn fs scope root)) (spans : scope.Spans fs root x) :
    ¬ scope.Dangles fs root x := by
  rintro ⟨r, member, other, probes, found⟩
  rcases covers.settles_of_listed (covers.listed_of_spans holds spans) member with
    hosted | onStack | ⟨place, e, entry, same⟩
  · rw [Scope.find_eq_host.mpr hosted] at found
    cases found
  · exact other (List.mem_singleton.mp onStack)
  · obtain ⟨bytes, found', -⟩ := (holds place e entry).found
    rw [same, found] at found'
    cases found'

end Covers

variable {l : Loader}

theorem drawn (walk : Follows fs scope [root.name] root.name root.references ⟨l, []⟩ links s)
    (empty : ∀ place, l.cache.entry? place = none) :
    s.loader.Holds (Drawn fs scope root) ∧ (s.failures = [] →
      List.Forall₂ (Answer fs scope [root.name] fun _ m =>
        ∀ x ∈ m.tree, x.UnchangedIn fs ∧ scope.Spans fs root x.image) root.references links) :=
  walk.keeps (keeps_drawn fs scope root _) ⟨by simp, .refl⟩ (List.Subset.refl _) rfl
    fun place e entry => by simp [empty] at entry

theorem covers_root (separates : scope.Separates fs)
    (walk : Follows fs scope [root.name] root.name root.references ⟨l, []⟩ links s)
    (empty : ∀ place, l.cache.entry? place = none) (whole : s.failures = []) :
    Covers scope [root.name] root.references l links s.loader :=
  walk.covers separates .refl (by simp) (List.Subset.refl _)
    (fun place e entry => by simp [empty] at entry) (fun place e entry => by simp [empty] at entry)
    whole

theorem failures_eq_nil_iff (separates : scope.Separates fs)
    (walk : Follows fs scope [root.name] root.name root.references ⟨l, []⟩ links s)
    (empty : ∀ place, l.cache.entry? place = none) :
    s.failures = [] ↔ ∀ x, scope.Spans fs root x → ¬ scope.Dangles fs root x := by
  constructor
  · intro whole x spans
    exact (walk.covers_root separates empty whole).not_dangles (walk.drawn empty).1 spans
  · intro resolves
    exact walk.failures_eq_of_not_dangles resolves (by simp) (List.Subset.refl _)

theorem mem_images_iff (separates : scope.Separates fs)
    (walk : Follows fs scope [root.name] root.name root.references ⟨l, []⟩ links s)
    (empty : ∀ place, l.cache.entry? place = none) (whole : s.failures = []) {place : Location}
    {f : Fingerprint} {x : Image} :
    x ∈ (s.loader.built place f root links).tree.map (·.image) ↔ scope.Spans fs root x := by
  obtain ⟨holds, answers⟩ := walk.drawn empty
  rw [List.mem_map]
  constructor
  · rintro ⟨node, inside, rfl⟩
    rcases Module.mem_tree.mp inside with rfl | ⟨d, dependency, below⟩
    · exact .refl
    · obtain ⟨r, -, -, place, bytes, -, nodes⟩ := Answer.of_dependency (answers whole) dependency
      exact (nodes node below).2
  · intro spans
    have covers := walk.covers_root separates empty whole
    rcases covers.listed_of_spans holds spans with rfl | ⟨here, e, entry, rfl⟩
    · exact ⟨_, Module.self_mem_tree _, rfl⟩
    · rcases covers.linked entry with before | ⟨m, linked, node⟩
      · simp [empty] at before
      · exact ⟨e.module, Module.mem_tree_of_dependency linked node, rfl⟩

end Follows

section

variable {location : Location} {wanted : Image → Bool} {l l' : Loader}
  {result : Except LoadError (Option Module)} {bytes : Text.Bytes}

theorem Loads.linked_of_resolves (load : Loads fs scope location wanted l result l')
    (separates : scope.Separates fs) (empty : ∀ place, l.cache.entry? place = none)
    (read : fs.readAt location = .ok bytes) (decoded : Image.decode bytes = .ok root)
    (accepted : wanted root = true)
    (resolves : ∀ x, scope.Spans fs root x → ¬ scope.Dangles fs root x) :
    ∃ l₁ links s, (∀ place, l₁.cache.entry? place = none) ∧
      Follows fs scope [root.name] root.name root.references ⟨l₁, []⟩ links s ∧ s.failures = [] ∧
      s.loader.cache.lookup location (some (.ofBytes bytes)) = none ∧
      result = .ok (some (s.loader.built location (.ofBytes bytes) root links)) ∧
      l' = (s.loader.adopt location (.ofBytes bytes) root links).2 := by
  cases load with
  | cached entry current => simp [empty] at entry
  | unreadable failed => simp [read] at failed
  | malformed forgets read' failed =>
      rw [read] at read'
      cases read'
      simp [decoded] at failed
  | unwanted forgets read' decoded' refused =>
      obtain ⟨rfl, rfl⟩ := image_unique read decoded read' decoded'
      simp [accepted] at refused
  | linked forgets read' decoded' accepted' walk whole stale =>
      obtain ⟨rfl, rfl⟩ := image_unique read decoded read' decoded'
      exact ⟨_, _, _, forgets.entry?_eq_none empty, walk, whole, stale, rfl, rfl⟩
  | unresolved forgets read' decoded' accepted' walk broken =>
      obtain ⟨rfl, rfl⟩ := image_unique read decoded read' decoded'
      exact absurd ((walk.failures_eq_nil_iff separates (forgets.entry?_eq_none empty)).mpr resolves)
        broken

theorem Loads.images_of_resolves (load : Loads fs scope location wanted l result l')
    (separates : scope.Separates fs) (empty : ∀ place, l.cache.entry? place = none)
    (read : fs.readAt location = .ok bytes) (decoded : Image.decode bytes = .ok root)
    (accepted : wanted root = true)
    (resolves : ∀ x, scope.Spans fs root x → ¬ scope.Dangles fs root x) :
    ∃ m, result = .ok (some m) ∧ m.image = root ∧
      ∀ x, x ∈ m.tree.map (·.image) ↔ scope.Spans fs root x := by
  obtain ⟨l₁, links, s, fresh, walk, whole, -, rfl, -⟩ :=
    load.linked_of_resolves separates empty read decoded accepted resolves
  exact ⟨_, rfl, rfl, fun x => walk.mem_images_iff separates fresh whole⟩

end

end RuleLint
