import RuleLint.Text.Basic

namespace RuleLint.Text

inductive Json
  | null
  | number (value : Nat)
  | string (value : String)
  | array (items : List Json)
  | object (members : List (String × Json))
deriving Repr, Inhabited

namespace Json

def escapeChar (c : Char) : String :=
  match c with
  | '"' => "\\\""
  | '\\' => "\\\\"
  | '\x08' => "\\b"
  | '\x0c' => "\\f"
  | '\n' => "\\n"
  | '\r' => "\\r"
  | '\t' => "\\t"
  | c => if c.toNat < 0x20 then "\\u" ++ hexDigits 4 c.toNat else c.toString

def quote (s : String) : String := "\"" ++ String.join (s.toList.map escapeChar) ++ "\""

/-- The lines between two brackets, each part indented by `depth` levels and separated by commas.
Without parts the brackets stand side by side. -/
def bracketed (opening closing : String) (depth : Nat) (parts : List String) : String :=
  let indent (depth : Nat) : String := "\n" ++ String.ofList (List.replicate (2 * depth) ' ')
  match parts with
  | [] => opening ++ closing
  | parts =>
    opening ++ ",".intercalate (parts.map (indent (depth + 1) ++ ·)) ++ indent depth ++ closing

mutual

def render (depth : Nat) : Json → String
  | null => "null"
  | number value => toString value
  | string value => quote value
  | array items => bracketed "[" "]" depth (renderItems (depth + 1) items)
  | object members => bracketed "\x7b" "\x7d" depth (renderMembers (depth + 1) members)

def renderItems (depth : Nat) : List Json → List String
  | [] => []
  | item :: items => render depth item :: renderItems depth items

def renderMembers (depth : Nat) : List (String × Json) → List String
  | [] => []
  | (key, value) :: members =>
    (quote key ++ ": " ++ render depth value) :: renderMembers depth members

end

def pretty (json : Json) : String := render 0 json

end Json

end RuleLint.Text
