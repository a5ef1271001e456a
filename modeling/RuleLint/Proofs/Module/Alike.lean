import RuleLint.Proofs.Module.Loads
import RuleLint.Proofs.Module.Remains
import RuleLint.Proofs.Rule.Retyping

/-!
# Loads that see the same files

Two loaders that hold the same for the files of one directory load the same from it, up to load ids,
if the files that the references reach are the same for both (`Loader.Alike.loadAt`). What the
loaders hold for other directories does not count, and neither do the other files.
-/

namespace RuleLint

open File (Location FileSystem)
open Hash (Fingerprint)
open Image (Reference)
open Text (Bytes)

variable {fs fs' : FileSystem}

/-! ## Modules -/

namespace Module

variable {m m' : Module}

theorem tree_unnumbered (m : Module) : m.unnumbered.tree = m.tree.map unnumbered := by
  induction m using induction with
  | node m ih =>
      have below : (m.dependencies.map unnumbered).flatMap tree =
          (m.dependencies.flatMap tree).map unnumbered := by
        rw [List.flatMap_map, List.map_flatMap]
        exact List.flatMap_congr fun d dependency => ih d dependency
      rw [tree_eq, tree_eq m, List.map_cons, ← below, unnumbered_eq m]

theorem dependenciesCurrent_unnumbered (fs : FileSystem) (m : Module) :
    m.unnumbered.dependenciesCurrent fs = m.dependenciesCurrent fs := by
  have each : m.unnumbered.dependenciesCurrent fs = true ↔ m.dependenciesCurrent fs = true := by
    rw [dependenciesCurrent_iff, dependenciesCurrent_iff, unnumbered_eq]
    simp only [List.forall_mem_map, tree_unnumbered]
    refine forall₂_congr fun d _ => forall₂_congr fun x _ => ?_
    rw [UnchangedIn, UnchangedIn, unnumbered_eq]
  exact Bool.eq_iff_iff.mpr each

theorem dependenciesCurrent_congr
    (files : ∀ x ∈ m.tree, fs'.readAt x.location = fs.readAt x.location) :
    m.dependenciesCurrent fs' = m.dependenciesCurrent fs := by
  have each : m.dependenciesCurrent fs' = true ↔ m.dependenciesCurrent fs = true := by
    rw [dependenciesCurrent_iff, dependenciesCurrent_iff]
    refine forall₂_congr fun d dependency => forall₂_congr fun x node => ?_
    rw [UnchangedIn, UnchangedIn, files x (mem_tree_of_dependency dependency node)]
  exact Bool.eq_iff_iff.mpr each

structure Alike (fs fs' : FileSystem) (m m' : Module) : Prop where
  same : m'.unnumbered = m.unnumbered
  files : ∀ x ∈ m.tree, fs'.readAt x.location = fs.readAt x.location

theorem Alike.dependenciesCurrent_eq (alike : m.Alike fs fs' m') :
    m'.dependenciesCurrent fs' = m.dependenciesCurrent fs := by
  rw [← dependenciesCurrent_unnumbered, alike.same, dependenciesCurrent_unnumbered,
    dependenciesCurrent_congr alike.files]

end Module

/-! ## Links -/

inductive Link.Alike (fs fs' : FileSystem) : Link → Link → Prop
  | skipped : Alike fs fs' .skipped .skipped
  | host (name : String) : Alike fs fs' (.host name) (.host name)
  | module {m m' : Module} (alike : m.Alike fs fs' m') : Alike fs fs' (.module m) (.module m')

theorem modules_alike {links links' : List Link}
    (alike : List.Forall₂ (Link.Alike fs fs') links links') :
    List.Forall₂ (Module.Alike fs fs') (links.filterMap Link.module?)
        (links'.filterMap Link.module?) ∧
      links'.filterMap Link.hostName? = links.filterMap Link.hostName? := by
  induction alike with
  | nil => exact ⟨.nil, rfl⟩
  | cons first rest ih =>
      obtain ⟨modules, hosts⟩ := ih
      cases first with
      | skipped => exact ⟨modules, hosts⟩
      | host name => exact ⟨modules, congrArg (name :: ·) hosts⟩
      | module alike => exact ⟨.cons alike modules, hosts⟩

/-! ## Loaders -/

structure CacheEntry.Alike (fs fs' : FileSystem) (e e' : CacheEntry) : Prop where
  fingerprint : e'.fingerprint = e.fingerprint
  module : e.module.Alike fs fs' e'.module

/-- The loaders go by the same settings and hold the same for the files of the directory. -/
structure Loader.Alike (fs fs' : FileSystem) (directory : Location) (l l' : Loader) : Prop where
  settings : l'.settings = l.settings
  entries : ∀ place, (∃ file, place = directory ++ [file]) →
    Option.Rel (CacheEntry.Alike fs fs') (l.cache.entry? place) (l'.cache.entry? place)

namespace Loader

variable {directory place : Location} {l l' : Loader} {links links' : List Link}

theorem built_alike (l l' : Loader) (f : Fingerprint) (image : Image)
    (links_alike : List.Forall₂ (Link.Alike fs fs') links links')
    (read : fs'.readAt place = fs.readAt place) :
    (l.built place f image links).Alike fs fs' (l'.built place f image links') := by
  obtain ⟨modules, hosts⟩ := modules_alike links_alike
  constructor
  · have dependencies : (links'.filterMap Link.module?).map Module.unnumbered =
        (links.filterMap Link.module?).map Module.unnumbered := by
      rw [← List.forall₂_eq_eq_eq, List.forall₂_map_left_iff, List.forall₂_map_right_iff]
      exact modules.flip.imp fun m' m same => same.same
    rw [Module.unnumbered_eq, Module.unnumbered_eq]
    simp only [built, dependencies, hosts]
  · refine Module.forall_mem_tree.mpr ⟨read, fun d dependency => ?_⟩
    obtain ⟨d', -, same⟩ := exists_of_forall₂ modules dependency
    exact same.files

namespace Alike

variable (alike : l.Alike fs fs' directory l')

include alike

theorem policy : l'.cache.policy = l.cache.policy := congrArg Settings.cachePolicy alike.settings

theorem lookup (inside : ∃ file, place = directory ++ [file]) (f : Option Fingerprint) :
    Option.Rel (Module.Alike fs fs') (l.cache.lookup place f) (l'.cache.lookup place f) := by
  unfold ModuleCache.lookup
  rcases rel_cases (alike.entries place inside) with
    ⟨absent, absent'⟩ | ⟨e, e', entry, entry', same⟩
  · rw [absent, absent']
    exact .none
  · have current : l'.cache.isCurrent e' f = l.cache.isCurrent e f := by
      simp only [ModuleCache.isCurrent, alike.policy, same.fingerprint]
    rw [entry, entry']
    simp only [current]
    split
    · exact .some same.module
    · exact .none

theorem erase (place : Location) :
    Alike fs fs' directory { l with cache := l.cache.erase place }
      { l' with cache := l'.cache.erase place } where
  settings := alike.settings
  entries here inside := by
    rw [ModuleCache.entry?_erase, ModuleCache.entry?_erase]
    split
    · exact .none
    · exact alike.entries here inside

theorem current (inside : ∃ file, place = directory ++ [file]) (f : Fingerprint) :
    Option.Rel (Module.Alike fs fs') (l.current fs place f).1 (l'.current fs' place f).1 ∧
      Alike fs fs' directory (l.current fs place f).2 (l'.current fs' place f).2 := by
  unfold Loader.current
  rcases rel_cases (alike.lookup inside (some f)) with
    ⟨absent, absent'⟩ | ⟨m, m', found, found', same⟩
  · rw [absent, absent']
    exact ⟨.none, alike⟩
  · rw [found, found']
    simp only [alike.policy, same.dependenciesCurrent_eq]
    split
    · exact ⟨.none, alike.erase place⟩
    · exact ⟨.some same, alike⟩

theorem adopt (f : Fingerprint) (image : Image) (inside : ∃ file, place = directory ++ [file])
    (links_alike : List.Forall₂ (Link.Alike fs fs') links links')
    (read : fs'.readAt place = fs.readAt place) :
    (l.adopt place f image links).1.Alike fs fs' (l'.adopt place f image links').1 ∧
      Alike fs fs' directory (l.adopt place f image links).2 (l'.adopt place f image links').2 := by
  rcases rel_cases (alike.lookup inside (some f)) with
    ⟨stale, stale'⟩ | ⟨m, m', found, found', same⟩
  · have built := built_alike l l' f image links_alike read
    obtain ⟨first, stored⟩ := adopt_of_stale image links stale
    obtain ⟨first', stored'⟩ := adopt_of_stale image links' stale'
    rw [first, first']
    refine ⟨built, adopt_settings.trans (alike.settings.trans adopt_settings.symm), ?_⟩
    intro here within
    rw [stored, stored']
    split
    · exact .some ⟨rfl, built⟩
    · exact alike.entries here within
  · rw [adopt_of_current found, adopt_of_current found']
    exact ⟨same, alike.settings, alike.entries⟩

end Alike

end Loader

/-! ## The walk -/

/-- From the root on, every reference leads to the same for both file systems, and to no file
outside the directory. -/
structure Scope.Agrees (scope : Scope) (fs fs' : FileSystem) (directory : Location) (root : Image) :
    Prop where
  resolve : ∀ {x r}, scope.LeadsOn fs root x → r ∈ x.references →
    scope.resolve fs' r.name = scope.resolve fs r.name
  inside : ∀ {name place bytes}, scope.resolve fs name = .image place bytes →
    ∃ file, place = directory ++ [file]

structure LinkState.Alike (fs fs' : FileSystem) (directory : Location) (s t : LinkState) :
    Prop where
  loader : s.loader.Alike fs fs' directory t.loader
  failures : t.failures = s.failures

theorem LinkState.Alike.withLoader {directory : Location} {s t : LinkState} {l k : Loader}
    (alike : s.Alike fs fs' directory t) (left : l.Alike fs fs' directory k) :
    (s.withLoader l).Alike fs fs' directory (t.withLoader k) :=
  ⟨left, alike.failures⟩

theorem Scope.find_congr {scope : Scope} {name : String}
    (same : scope.resolve fs' name = scope.resolve fs name) :
    scope.find fs' name = scope.find fs name := by
  rw [Scope.find, same, Scope.find]

variable {scope : Scope} {directory location : Location} {root image : Image}

namespace Loader.Alike

variable {l l' k : Loader} {name : String} {m : Module}

theorem recollect (alike : l.Alike fs fs' directory l')
    (agrees : scope.Agrees fs fs' directory root)
    (same : scope.resolve fs' name = scope.resolve fs name) :
    Option.Rel (Module.Alike fs fs') (l.recollect fs scope name).1 (l'.recollect fs' scope name).1 ∧
      Alike fs fs' directory (l.recollect fs scope name).2 (l'.recollect fs' scope name).2 := by
  unfold Loader.recollect
  rw [same]
  split
  · rename_i place bytes resolved
    exact alike.current (agrees.inside resolved) _
  · exact ⟨.none, alike⟩

theorem recalled (alike : l.Alike fs fs' directory l') (agrees : scope.Agrees fs fs' directory root)
    (same : scope.resolve fs' name = scope.resolve fs name)
    (recalled : l.recollect fs scope name = (some m, l)) :
    ∃ m', l'.recollect fs' scope name = (some m', l') ∧ m.Alike fs fs' m' := by
  obtain ⟨answers, -⟩ := alike.recollect agrees same
  rw [recalled] at answers
  cases answer : l'.recollect fs' scope name with
  | mk found k' =>
      rw [answer] at answers
      cases answers with
      | some known =>
          obtain ⟨rfl, -⟩ := Loader.recollect_eq_some answer
          exact ⟨_, rfl, known⟩

theorem missed (alike : l.Alike fs fs' directory l') (agrees : scope.Agrees fs fs' directory root)
    (same : scope.resolve fs' name = scope.resolve fs name)
    (missed : l.recollect fs scope name = (none, k)) :
    ∃ k', l'.recollect fs' scope name = (none, k') ∧ k.Alike fs fs' directory k' := by
  obtain ⟨answers, after⟩ := alike.recollect agrees same
  rw [missed] at answers after
  cases answer : l'.recollect fs' scope name with
  | mk found k' =>
      rw [answer] at answers after
      cases answers
      exact ⟨k', rfl, after⟩

end Loader.Alike

theorem Follows.alike {stack : List String} {requester : String} {references : List Reference}
    {s s' t : LinkState} {links : List Link} (agrees : scope.Agrees fs fs' directory root)
    (walk : Follows fs scope stack requester references s links s')
    (onward : scope.LeadsOn fs root image) (part : references ⊆ image.references)
    (alike : s.Alike fs fs' directory t) :
    ∃ links' t', Follows fs' scope stack requester references t links' t' ∧
      List.Forall₂ (Link.Alike fs fs') links links' ∧ s'.Alike fs fs' directory t' := by
  -- The second walk goes the way of the first one: each reference leads to the same in both trees.
  induction walk generalizing image t with
  | nil => exact ⟨[], t, .nil, .nil, alike⟩
  | cyclic onStack rest ih =>
      obtain ⟨links', t', walk, same, after⟩ := ih onward (List.subset_of_cons_subset part) alike
      exact ⟨_, t', .cyclic onStack walk, .cons .skipped same, after⟩
  | @hosted _ _ r _ _ _ _ fresh found rest ih =>
      have found' := (Scope.find_congr (agrees.resolve onward (part (by simp)))).trans found
      obtain ⟨links', t', walk, same, after⟩ := ih onward (List.subset_of_cons_subset part) alike
      exact ⟨_, t', .hosted fresh found' walk, .cons (.host r.name) same, after⟩
  | cached fresh recalled rest ih =>
      obtain ⟨m', recalled', known⟩ :=
        alike.loader.recalled agrees (agrees.resolve onward (part (by simp))) recalled
      obtain ⟨links', t', walk, same, after⟩ := ih onward (List.subset_of_cons_subset part) alike
      exact ⟨_, t', .cached fresh recalled' walk, .cons (.module known) same, after⟩
  | @refused _ requester r _ s _ _ l probes fresh missed found rest ih =>
      have resolve := agrees.resolve (r := r) onward (part (by simp))
      obtain ⟨k, missed', left⟩ := alike.loader.missed agrees resolve missed
      have failed : ((s.withLoader l).fail r.name requester probes).Alike fs fs' directory
          ((t.withLoader k).fail r.name requester probes) :=
        ⟨left, by simp [alike.failures]⟩
      obtain ⟨links', t', walk, same, after⟩ := ih onward (List.subset_of_cons_subset part) failed
      exact ⟨_, t', .refused fresh missed' ((Scope.find_congr resolve).trans found) walk,
        .cons .skipped same, after⟩
  | @broken _ _ r _ _ _ _ _ _ _ place bytes _ fresh missed found entered failed rest inner ih =>
      have resolve := agrees.resolve (r := r) onward (part (by simp))
      obtain ⟨k, missed', left⟩ := alike.loader.missed agrees resolve missed
      obtain ⟨_, t₁, entered', -, within⟩ :=
        inner (onward.tail ⟨r, part (by simp), place, bytes, found⟩) (List.Subset.refl _)
          (alike.withLoader left)
      obtain ⟨links', t', walk, same, after⟩ := ih onward (List.subset_of_cons_subset part) within
      refine ⟨_, t', .broken fresh missed' ((Scope.find_congr resolve).trans found) entered' ?_
        walk, .cons .skipped same, after⟩
      rwa [alike.failures, within.failures]
  | @linked _ _ r _ _ s₁ _ _ _ _ _ place bytes next _ fresh missed found entered whole adopted rest
      inner ih =>
      have resolve := agrees.resolve (r := r) onward (part (by simp))
      obtain ⟨k, missed', left⟩ := alike.loader.missed agrees resolve missed
      obtain ⟨_, t₁, entered', links_alike, within⟩ :=
        inner (onward.tail ⟨r, part (by simp), place, bytes, found⟩) (List.Subset.refl _)
          (alike.withLoader left)
      have leads := (Scope.find_eq_image.mp found).1
      have read : fs'.readAt place = fs.readAt place := by
        rw [Scope.readAt_of_resolve leads, Scope.readAt_of_resolve (resolve.trans leads)]
      obtain ⟨joined, stored⟩ := within.loader.adopt (.ofBytes bytes) next (agrees.inside leads)
        links_alike read
      rw [adopted] at joined stored
      obtain ⟨links', t', walk, same, after⟩ := ih onward (List.subset_of_cons_subset part)
        (within.withLoader stored)
      refine ⟨_, t', .linked fresh missed' ((Scope.find_congr resolve).trans found) entered' ?_ rfl
        walk, .cons (.module joined) same, after⟩
      rwa [alike.failures, within.failures]

/-! ## Loads -/

namespace Loader.Alike

variable {l l' : Loader} (alike : l.Alike fs fs' directory l')
  (inside : ∃ file, location = directory ++ [file]) (read : fs'.readAt location = fs.readAt location)

include alike inside read

theorem link (agrees : scope.Agrees fs fs' directory root) (f : Fingerprint) :
    (l'.link fs' scope location f root).1.map Module.unnumbered =
      (l.link fs scope location f root).1.map Module.unnumbered := by
  have walk := linkReferences_follows fs scope [root.name] root.name root.references ⟨l, []⟩
  obtain ⟨links', t, walk', links_alike, after⟩ :=
    walk.alike (t := ⟨l', []⟩) agrees .refl (List.Subset.refl _) ⟨alike, rfl⟩
  rw [link_of_follows walk, link_of_follows walk', after.failures]
  split
  · obtain ⟨adopted, -⟩ := after.loader.adopt f root inside links_alike read
    exact congrArg Except.ok adopted.same
  · rfl

theorem loadAt (agrees : ∀ {bytes root}, fs.readAt location = .ok bytes →
      Image.decode bytes = .ok root → scope.Agrees fs fs' directory root) :
    (l'.loadAt fs' scope location).1.map Module.unnumbered =
      (l.loadAt fs scope location).1.map Module.unnumbered := by
  unfold Loader.loadAt fetch
  rcases rel_cases (alike.lookup inside none) with
    ⟨absent, absent'⟩ | ⟨m, m', found, found', same⟩
  · rw [absent, absent', read]
    cases contents : fs.readAt location with
    | error cause => rfl
    | ok bytes =>
        obtain ⟨answers, left⟩ := alike.current inside (.ofBytes bytes)
        cases answer : l.current fs location (.ofBytes bytes) with
        | mk known k =>
            cases answer' : l'.current fs' location (.ofBytes bytes) with
            | mk known' k' =>
                rw [answer, answer'] at answers left
                simp only [answer, answer']
                cases answers with
                | some same => exact congrArg Except.ok same.same
                | none =>
                    cases decoded : Image.decode bytes with
                    | error cause => rfl
                    | ok image =>
                        exact link left inside read (agrees contents decoded) (.ofBytes bytes)
  · rw [found, found']
    exact congrArg Except.ok same.same

end Loader.Alike

end RuleLint
