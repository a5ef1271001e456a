import RuleLint.Module.Loader

/-!
Linking: following the references of an image, and those of the images they lead to. A reference
to a module that is just being linked is not followed. Every reference that leads nowhere is
recorded, and the walk goes on.

Each module that is entered declares a name that was not being linked before, and some file in the
tree declares it. So there are ever fewer such files, and the walk ends.
-/

namespace RuleLint

open File (Location FileSystem Entry)
open Hash (Fingerprint)
open Image (Reference)
open Text (Bytes)

def moduleNames (fs : FileSystem) : List String :=
  fs.entries.filterMap fun (_, entry) =>
    match entry with
    | .file bytes => (Image.decode bytes).toOption.map (·.name)
    | .directory => none

def unlinkedCount (fs : FileSystem) (stack : List String) : Nat :=
  ((moduleNames fs).filter (· ∉ stack)).length

theorem mem_of_lookup_eq_some {α β : Type} [BEq α] [LawfulBEq α] {k : α} {v : β} :
    ∀ {entries : List (α × β)}, entries.lookup k = some v → (k, v) ∈ entries
  | (k', v') :: entries, h => by
    rw [List.lookup_cons] at h
    cases same : k == k' with
    | true =>
      simp only [same, Option.some.injEq] at h
      simp [eq_of_beq same, h]
    | false =>
      simp only [same] at h
      exact List.mem_cons_of_mem _ (mem_of_lookup_eq_some h)

theorem mem_moduleNames {fs : FileSystem} {l : Location} {bytes : Bytes} {image : Image}
    (read : fs.readAt l = .ok bytes) (decoded : Image.decode bytes = .ok image) :
    image.name ∈ moduleNames fs := by
  have present : (l, Entry.file bytes) ∈ fs.entries := by
    unfold FileSystem.readAt at read
    split at read
    · rename_i b found
      cases read
      unfold FileSystem.entry? at found
      split at found
      · cases found
      · exact mem_of_lookup_eq_some found
    · cases read
    · cases read
  exact List.mem_filterMap.mpr ⟨_, present, by simp [decoded, Except.toOption]⟩

theorem unlinkedCount_cons_lt {fs : FileSystem} {stack : List String} {name : String}
    (fresh : name ∉ stack) (known : name ∈ moduleNames fs) :
    unlinkedCount fs (name :: stack) < unlinkedCount fs stack := by
  unfold unlinkedCount
  generalize moduleNames fs = names at known
  induction names with
  | nil => cases known
  | cons n names ih =>
    have narrower : (names.filter (· ∉ name :: stack)).length ≤
        (names.filter (· ∉ stack)).length := by
      simp only [← List.countP_eq_length_filter]
      apply List.countP_mono_left
      intro m _
      simp +contextual
    by_cases same : n = name
    · subst same
      simp only [List.filter_cons, List.mem_cons, true_or, not_true_eq_false, decide_false,
        Bool.false_eq_true, if_false, fresh, not_false_eq_true, decide_true, if_true,
        List.length_cons]
      exact Nat.lt_succ_of_le (by simpa using narrower)
    · have later : name ∈ names := by
        rcases List.mem_cons.mp known with h | h
        · exact absurd h.symm same
        · exact h
      have shorter := ih later
      simp only [List.filter_cons, List.mem_cons, same, false_or]
      split
      · simpa using shorter
      · simpa using shorter

theorem Scope.readAt_of_resolve {s : Scope} {fs : FileSystem} {name : String} {l : Location}
    {bytes : Bytes} (h : s.resolve fs name = .image l bytes) : fs.readAt l = .ok bytes := by
  unfold Scope.resolve at h
  split at h
  · cases h
  · split at h
    · rename_i found
      cases h
      unfold Scope.resolveFile at found
      split at found
      · cases found
      · rename_i path _
        simp only [bind, Except.bind, pure, Except.pure] at found
        split at found
        · rename_i image opened
          cases found
          split at opened
          · cases opened
          · split at opened
            · cases opened
            · rename_i read
              cases opened
              exact read
        · cases found
        · cases found
    · cases h

inductive Link
  /-- It led nowhere, or back to a module that is being linked. -/
  | skipped
  | host (name : String)
  | module (module : Module)
deriving Repr

namespace Link

def module? : Link → Option Module
  | module m => some m
  | _ => none

def hostName? : Link → Option String
  | host name => some name
  | _ => none

end Link

structure LinkState where
  loader : Loader
  failures : List ResolutionFailure
deriving Repr

def LinkState.fail (s : LinkState) (name requestedBy : String) (probes : List Probe) : LinkState :=
  { s with failures := s.failures ++ [⟨name, requestedBy, probes⟩] }

mutual

/-- Follows one reference that the module `requester` makes to `name`, while the modules on the
stack are being linked. -/
def linkReference (fs : FileSystem) (scope : Scope) (stack : List String) (requester name : String)
    (state : LinkState) : Link × LinkState :=
  if fresh : name ∈ stack then (.skipped, state)
  else
    match resolved : scope.resolve fs name with
    | .host => (.host name, state)
    | .declined probes => (.skipped, state.fail name requester probes)
    | .image location bytes =>
      let fingerprint := Fingerprint.ofBytes bytes
      let refuse (outcome : ProbeOutcome) (state : LinkState) : Link × LinkState :=
        (.skipped, state.fail name requester [⟨.directory, location.path.text, outcome⟩])
      match state.loader.current fs location fingerprint with
      | (some m, loader) => (.module m, { state with loader := loader })
      | (none, loader) =>
        let state := { state with loader := loader }
        match decoded : Image.decode bytes with
        | .error cause => refuse (.malformed cause.message) state
        | .ok image =>
          if named : image.name = name then
            have : unlinkedCount fs (name :: stack) < unlinkedCount fs stack :=
              unlinkedCount_cons_lt fresh
                (named ▸ mem_moduleNames (Scope.readAt_of_resolve resolved) decoded)
            let (links, state') :=
              linkReferences fs scope (name :: stack) image.name image.references state
            -- Where a reference of the image led nowhere, no module is built.
            if state.failures.length < state'.failures.length then (.skipped, state')
            else
              let (m, loader) := state'.loader.build location fingerprint image
                (links.filterMap Link.module?) (links.filterMap Link.hostName?)
              let (m, loader) := loader.store m
              (.module m, { state' with loader := loader })
          else refuse (.nameMismatch image.name) state
-- Each image that is entered puts one more name of a file on the stack.
termination_by (unlinkedCount fs stack, 0)

def linkReferences (fs : FileSystem) (scope : Scope) (stack : List String) (requester : String)
    (references : List Reference) (state : LinkState) : List Link × LinkState :=
  match references with
  | [] => ([], state)
  | r :: references =>
    let (link, state) := linkReference fs scope stack requester r.name state
    let (links, state) := linkReferences fs scope stack requester references state
    (link :: links, state)
termination_by (unlinkedCount fs stack, references.length + 1)

end

end RuleLint
