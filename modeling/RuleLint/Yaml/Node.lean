import RuleLint.Yaml.Token

/-!
YAML documents as trees of nodes, and how tokens make one up. An alias is a node of its own that
refers to the node with its anchor, which may be one around it. Each reader returns the tokens it
leaves with the proof that they are fewer, or not more, than it was given.
-/

namespace RuleLint.Yaml

open Text (Bytes encodeUtf8)

inductive Node
  | alias (slot : Nat)
  | scalar (tag : Option Bytes) (scalar : Scalar)
  | sequence (tag : Option Bytes) (items : List Node)
  | mapping (tag : Option Bytes) (entries : List (Node × Node))
deriving Repr, Inhabited

def Node.empty : Node := .scalar none .empty

mutual

def Node.size : Node → Nat
  | .alias _ => 1
  | .scalar _ _ => 1
  | .sequence _ items => Node.itemsSize items + 2
  | .mapping _ entries => Node.entriesSize entries + 2

def Node.itemsSize : List Node → Nat
  | [] => 0
  | node :: nodes => node.size + Node.itemsSize nodes

def Node.entriesSize : List (Node × Node) → Nat
  | [] => 0
  | (key, value) :: entries => key.size + value.size + Node.entriesSize entries

end

structure Document where
  root : Node
  anchored : List (Nat × Node)
deriving Repr

/-! ## Slots of anchors -/

/-- The anchors that were read. A name takes the slot with the number of the names before it. The
slot of a name that comes again is new and not counted for the next name, so two names may share
one. A slot holds the last node to begin with it, and an alias refers to the slot that its name
took last. -/
structure Anchors where
  nameCount : Nat
  slots : List (String × Nat)
  nodes : List (Nat × Nat × Node)
deriving Repr

structure Reserved where
  slot : Nat
  earlier : Nat
deriving Repr

namespace Anchors

def none : Anchors := ⟨0, [], []⟩

def reserve (anchors : Anchors) (name : Option String) : Option Reserved × Anchors :=
  match name with
  | some name =>
    let isNew := (anchors.slots.lookup name).isNone
    (some ⟨anchors.nameCount, anchors.slots.length⟩,
      { anchors with
        nameCount := anchors.nameCount + (if isNew then 1 else 0)
        slots := (name, anchors.nameCount) :: anchors.slots })
  | .none => (.none, anchors)

/-- The anchors with the node of a reserved place, unless a node that began later has its slot. -/
def define (anchors : Anchors) (place : Option Reserved) (node : Node) : Anchors :=
  match place with
  | some ⟨slot, earlier⟩ =>
    if (anchors.nodes.lookup slot).any (earlier < ·.1) then anchors
    else { anchors with nodes := (slot, earlier, node) :: anchors.nodes }
  | .none => anchors

end Anchors

abbrev Reading (ts : List Token) (α : Type) : Type :=
  { read : α × List Token // read.2.length < ts.length }

abbrev Continuation (ts : List Token) (α : Type) : Type :=
  { read : α × List Token // read.2.length ≤ ts.length }

/-! ## Tags and anchors -/

structure Properties where
  anchor : Option String
  tag : Option Bytes
deriving DecidableEq, Repr

abbrev Handles : Type := List (String × Bytes)

def standardHandles : Handles :=
  [("!", encodeUtf8 "!"), ("!!", encodeUtf8 "tag:yaml.org,2002:")]

def wholeTag? (handles : Handles) (handle : String) (suffix : Bytes) : Option Bytes :=
  if handle = "" then some suffix else (handles.lookup handle).map (· ++ suffix)

def readProperties (handles : Handles) (ts : List Token) : Option (Reading ts Properties) :=
  match ts with
  | .anchor name :: .tag handle suffix :: rest | .tag handle suffix :: .anchor name :: rest => do
    return ⟨(⟨some name, some (← wholeTag? handles handle suffix)⟩, rest), by
      simp only [List.length_cons]
      omega⟩
  | .anchor name :: rest => some ⟨(⟨some name, none⟩, rest), Nat.lt_succ_self _⟩
  | .tag handle suffix :: rest => do
    return ⟨(⟨none, some (← wholeTag? handles handle suffix)⟩, rest), Nat.lt_succ_self _⟩
  | _ => none

def hasProperties : List Token → Bool
  | .anchor _ :: _ | .tag _ _ :: _ => true
  | _ => false

/-! ## Nodes -/

/-- Where a node stands: whether it may be a block collection, and whether a sequence may begin
with the dash of its first item alone. -/
structure Place where
  block : Bool
  bareSequence : Bool
deriving DecidableEq, Repr

def beginsContent (place : Place) : List Token → Bool
  | .scalar _ :: _ | .flowSequence :: _ | .flowMapping :: _ => true
  | .blockSequence :: _ | .blockMapping :: _ => place.block
  | .item :: _ => place.bareSequence
  | _ => false

mutual

def readNode (handles : Handles) (place : Place) (anchors : Anchors) (ts : List Token) :
    Option (Reading ts (Node × Anchors)) :=
  match ts with
  | .alias name :: rest => do
    return ⟨((.alias (← anchors.slots.lookup name), anchors), rest), Nat.lt_succ_self _⟩
  | ts =>
    if hasProperties ts then do
      let ⟨(properties, rest), shorter⟩ ← readProperties handles ts
      let (reserved, anchors) := anchors.reserve properties.anchor
      if beginsContent place rest then
        let ⟨((node, anchors), rest'), shorter'⟩ ←
          readContent handles place properties.tag anchors rest
        return ⟨((node, anchors.define reserved node), rest'), Nat.lt_trans shorter' shorter⟩
      else
        let node := Node.scalar properties.tag .empty
        return ⟨((node, anchors.define reserved node), rest), shorter⟩
    else readContent handles place none anchors ts
termination_by (ts.length, 2)

def readContent (handles : Handles) (place : Place) (tag : Option Bytes) (anchors : Anchors)
    (ts : List Token) : Option (Reading ts (Node × Anchors)) :=
  match ts with
  | .scalar scalar :: rest => some ⟨((.scalar tag scalar, anchors), rest), Nat.lt_succ_self _⟩
  | .flowSequence :: rest => do
    let ⟨((items, anchors), rest'), shorter⟩ ← readFlowItems handles true anchors rest
    return ⟨((.sequence tag items, anchors), rest'), Nat.lt_succ_of_lt shorter⟩
  | .flowMapping :: rest => do
    let ⟨((entries, anchors), rest'), shorter⟩ ← readFlowEntries handles true anchors rest
    return ⟨((.mapping tag entries, anchors), rest'), Nat.lt_succ_of_lt shorter⟩
  | .blockSequence :: rest =>
    if place.block then do
      let ⟨((items, anchors), rest'), shorter⟩ ← readBlockItems handles anchors rest
      return ⟨((.sequence tag items, anchors), rest'), Nat.lt_succ_of_lt shorter⟩
    else none
  | .blockMapping :: rest =>
    if place.block then do
      let ⟨((entries, anchors), rest'), shorter⟩ ← readBlockEntries handles anchors rest
      return ⟨((.mapping tag entries, anchors), rest'), Nat.lt_succ_of_lt shorter⟩
    else none
  | .item :: rest =>
    if place.bareSequence then do
      let ⟨((items, anchors), rest'), shorter⟩ ← readBareItems handles anchors rest
      return ⟨((.sequence tag items, anchors), rest'), Nat.lt_succ_of_le shorter⟩
    else none
  | _ => none
termination_by (ts.length, 1)

def readOptional (handles : Handles) (place : Place) (stops : List Token) (anchors : Anchors)
    (ts : List Token) : Option (Continuation ts (Node × Anchors)) :=
  if ts.head?.any (· ∈ stops) then some ⟨((.empty, anchors), ts), Nat.le_refl _⟩
  else do
    let ⟨read, shorter⟩ ← readNode handles place anchors ts
    return ⟨read, Nat.le_of_lt shorter⟩
termination_by (ts.length, 3)

def readBlockItems (handles : Handles) (anchors : Anchors) (ts : List Token) :
    Option (Reading ts (List Node × Anchors)) :=
  match ts with
  | .item :: rest => do
    let ⟨((node, anchors), rest₁), le₁⟩ ←
      readOptional handles ⟨true, false⟩ [.item, .blockEnd] anchors rest
    have : rest₁.length < (Token.item :: rest).length := Nat.lt_succ_of_le le₁
    let ⟨((nodes, anchors), rest₂), shorter₂⟩ ← readBlockItems handles anchors rest₁
    return ⟨((node :: nodes, anchors), rest₂), Nat.lt_trans shorter₂ this⟩
  | .blockEnd :: rest => some ⟨(([], anchors), rest), Nat.lt_succ_self _⟩
  | _ => none
termination_by (ts.length, 0)

/-- The items of a block sequence at the column of the key before it, from the one whose dash was
read. They end with the items. -/
def readBareItems (handles : Handles) (anchors : Anchors) (ts : List Token) :
    Option (Continuation ts (List Node × Anchors)) := do
  let ⟨((node, anchors), rest₁), le₁⟩ ←
    readOptional handles ⟨true, false⟩ [.item, .key, .value, .blockEnd] anchors ts
  match rest₁, le₁ with
  | .item :: rest₂, le₂ =>
    have : rest₂.length < ts.length := le₂
    let ⟨((nodes, anchors), rest₃), le₃⟩ ← readBareItems handles anchors rest₂
    return ⟨((node :: nodes, anchors), rest₃), Nat.le_trans le₃ (Nat.le_of_lt this)⟩
  | rest₁, le₁ => return ⟨(([node], anchors), rest₁), le₁⟩
termination_by (ts.length, 4)

def readBlockEntries (handles : Handles) (anchors : Anchors) (ts : List Token) :
    Option (Reading ts (List (Node × Node) × Anchors)) :=
  match ts with
  | .key :: rest => do
    let stops := [.key, .value, .blockEnd]
    let ⟨((key, anchors), rest₁), le₁⟩ ←
      readOptional handles ⟨true, true⟩ stops anchors rest
    have : rest₁.length ≤ rest.length := le₁
    let ⟨((value, anchors), rest₂), le₂⟩ ← readValue handles ⟨true, true⟩ stops anchors rest₁
    have : rest₂.length < (Token.key :: rest).length :=
      Nat.lt_succ_of_le (Nat.le_trans le₂ le₁)
    let ⟨((entries, anchors), rest₃), shorter₃⟩ ← readBlockEntries handles anchors rest₂
    return ⟨(((key, value) :: entries, anchors), rest₃), Nat.lt_trans shorter₃ this⟩
  | .blockEnd :: rest => some ⟨(([], anchors), rest), Nat.lt_succ_self _⟩
  | _ => none
termination_by (ts.length, 0)

def readValue (handles : Handles) (place : Place) (stops : List Token) (anchors : Anchors)
    (ts : List Token) : Option (Continuation ts (Node × Anchors)) :=
  match ts with
  | .value :: rest => do
    let ⟨read, le⟩ ← readOptional handles place stops anchors rest
    return ⟨read, Nat.le_succ_of_le le⟩
  | ts => some ⟨((.empty, anchors), ts), Nat.le_refl _⟩
termination_by (ts.length, 0)

/-- The items of a flow sequence to its end, with a comma before each but the first. A key with its
value makes an item by itself. -/
def readFlowItems (handles : Handles) (isFirst : Bool) (anchors : Anchors) (ts : List Token) :
    Option (Reading ts (List Node × Anchors)) :=
  match ts with
  | .flowSequenceEnd :: rest => some ⟨(([], anchors), rest), Nat.lt_succ_self _⟩
  | .comma :: rest =>
    if isFirst then none
    else do
      let ⟨read, shorter⟩ ← readFlowItem handles anchors rest
      return ⟨read, Nat.lt_succ_of_lt shorter⟩
  | ts => if isFirst then readFlowItem handles anchors ts else none
termination_by (ts.length, 5)

def readFlowItem (handles : Handles) (anchors : Anchors) (ts : List Token) :
    Option (Reading ts (List Node × Anchors)) :=
  match ts with
  | .flowSequenceEnd :: rest => some ⟨(([], anchors), rest), Nat.lt_succ_self _⟩
  | .key :: rest => do
    let ⟨((key, anchors), rest₁), le₁⟩ ← readPairKey handles anchors rest
    have : rest₁.length ≤ rest.length := le₁
    let ⟨((value, anchors), rest₂), le₂⟩ ←
      readValue handles ⟨false, false⟩ [.comma, .flowSequenceEnd] anchors rest₁
    have : rest₂.length < (Token.key :: rest).length :=
      Nat.lt_succ_of_le (Nat.le_trans le₂ le₁)
    let ⟨((nodes, anchors), rest₃), shorter₃⟩ ← readFlowItems handles false anchors rest₂
    return ⟨((.mapping none [(key, value)] :: nodes, anchors), rest₃),
      Nat.lt_trans shorter₃ this⟩
  | ts => do
    let ⟨((node, anchors), rest₁), shorter₁⟩ ← readNode handles ⟨false, false⟩ anchors ts
    have : rest₁.length < ts.length := shorter₁
    let ⟨((nodes, anchors), rest₂), shorter₂⟩ ← readFlowItems handles false anchors rest₁
    return ⟨((node :: nodes, anchors), rest₂), Nat.lt_trans shorter₂ this⟩
termination_by (ts.length, 4)

/-- The key of a pair in a flow sequence. A token that cannot begin one stands for an empty key. -/
def readPairKey (handles : Handles) (anchors : Anchors) (ts : List Token) :
    Option (Continuation ts (Node × Anchors)) :=
  match ts with
  | .value :: rest | .comma :: rest | .flowSequenceEnd :: rest =>
    some ⟨((.empty, anchors), rest), Nat.le_succ _⟩
  | ts => do
    let ⟨read, shorter⟩ ← readNode handles ⟨false, false⟩ anchors ts
    return ⟨read, Nat.le_of_lt shorter⟩
termination_by (ts.length, 3)

def readFlowEntries (handles : Handles) (isFirst : Bool) (anchors : Anchors) (ts : List Token) :
    Option (Reading ts (List (Node × Node) × Anchors)) :=
  match ts with
  | .flowMappingEnd :: rest => some ⟨(([], anchors), rest), Nat.lt_succ_self _⟩
  | .comma :: rest =>
    if isFirst then none
    else do
      let ⟨read, shorter⟩ ← readFlowEntry handles anchors rest
      return ⟨read, Nat.lt_succ_of_lt shorter⟩
  | ts => if isFirst then readFlowEntry handles anchors ts else none
termination_by (ts.length, 5)

def readFlowEntry (handles : Handles) (anchors : Anchors) (ts : List Token) :
    Option (Reading ts (List (Node × Node) × Anchors)) :=
  match ts with
  | .flowMappingEnd :: rest => some ⟨(([], anchors), rest), Nat.lt_succ_self _⟩
  | .key :: rest => do
    let ⟨((key, anchors), rest₁), le₁⟩ ←
      readOptional handles ⟨false, false⟩ [.value, .comma, .flowMappingEnd] anchors rest
    have : rest₁.length ≤ rest.length := le₁
    let ⟨((value, anchors), rest₂), le₂⟩ ←
      readValue handles ⟨false, false⟩ [.comma, .flowMappingEnd] anchors rest₁
    have : rest₂.length < (Token.key :: rest).length :=
      Nat.lt_succ_of_le (Nat.le_trans le₂ le₁)
    let ⟨((entries, anchors), rest₃), shorter₃⟩ ← readFlowEntries handles false anchors rest₂
    return ⟨(((key, value) :: entries, anchors), rest₃), Nat.lt_trans shorter₃ this⟩
  | ts => do
    let ⟨((key, anchors), rest₁), shorter₁⟩ ← readNode handles ⟨false, false⟩ anchors ts
    have : rest₁.length < ts.length := shorter₁
    let ⟨((entries, anchors), rest₂), shorter₂⟩ ← readFlowEntries handles false anchors rest₁
    return ⟨(((key, .empty) :: entries, anchors), rest₂), Nat.lt_trans shorter₂ this⟩
termination_by (ts.length, 4)

end

end RuleLint.Yaml
