namespace RuleLint.Toml

inductive Origin
  | header
  | innerHeader
  | dottedKey
  | braces
deriving DecidableEq, Repr

inductive Value
  | text (content : String)
  | array (items : List Value)
  | table (origin : Origin) (entries : List (String × Value))
deriving Repr, Inhabited

abbrev Entries : Type := List (String × Value)

def Value.isVoid : Value → Bool
  | .text _ => false
  | .array items => items.isEmpty
  | .table _ entries => entries.isEmpty

def Value.text? : Value → Option String
  | .text content => some content
  | _ => none

def Value.texts? : Value → Option (List String)
  | .array items => items.mapM text?
  | _ => none

namespace Entries

def replace (key : String) (value : Value) (entries : Entries) : Entries :=
  entries.map fun entry => if entry.1 = key then (key, value) else entry

/-- The entries with a value under keys that points separate. The last key is a new one, and those
before it lead through tables that such keys made or make now. -/
def put? (value : Value) : List String → Entries → Option Entries
  | [], _ => none
  | [key], entries =>
    if (entries.lookup key).isSome then none else some (entries ++ [(key, value)])
  | key :: keys, entries =>
    match entries.lookup key with
    | none => do return entries ++ [(key, .table .dottedKey (← put? value keys []))]
    | some (.table .dottedKey inner) => do
      return entries.replace key (.table .dottedKey (← put? value keys inner))
    | some _ => none

/-- The entries after `change` to those of the table that the keys of a header lead to. Tables that
are not there yet come about on the way. -/
def within? (change : Entries → Option Entries) : List String → Entries → Option Entries
  | [], entries => change entries
  | key :: keys, entries =>
    match entries.lookup key with
    | none => do return entries ++ [(key, .table .innerHeader (← within? change keys []))]
    | some (.table origin inner) =>
      if origin = .braces then none
      else do return entries.replace key (.table origin (← within? change keys inner))
    | some _ => none

def begin? (key : String) (entries : Entries) : Option Entries :=
  match entries.lookup key with
  | none => some (entries ++ [(key, .table .header [])])
  | some (.table .innerHeader inner) => some (entries.replace key (.table .header inner))
  | some _ => none

end Entries

end RuleLint.Toml
