import RuleLint.Yaml.Lexer
import RuleLint.Yaml.Node

namespace RuleLint.Yaml

structure Directives where
  hasVersion : Bool
  handles : Handles
deriving Repr

def readDirectives (given : Directives) : List Token → Option (Directives × List Token)
  | .version major minor :: rest =>
    if given.hasVersion || major ≠ 1 || (minor ≠ 1 && minor ≠ 2) then none
    else readDirectives { given with hasVersion := true } rest
  | .handle name expansion :: rest =>
    if (given.handles.lookup name).isSome then none
    else readDirectives { given with handles := (name, expansion) :: given.handles } rest
  | rest => some (given, rest)

def readRoot (handles : Handles) (marked : Bool) (ts : List Token) :
    Option (Document × List Token) :=
  let isMissing :=
    match ts with
    | [] => true
    | t :: _ => t = .documentStart || t = .documentEnd
  if marked && isMissing then some (⟨.empty, []⟩, ts)
  else do
    let ⟨((root, anchors), rest), _⟩ ← readNode handles ⟨true, false⟩ .none ts
    return (⟨root, anchors.nodes.map fun (slot, _, node) => (slot, node)⟩, rest)

/-- The only document among the tokens. After directives its beginning has to be marked. -/
def Document.ofTokens? (ts : List Token) : Option Document := do
  let (directives, rest) ← readDirectives ⟨false, []⟩ ts
  let handles := directives.handles ++ standardHandles
  let hasDirectives := decide (rest.length < ts.length)
  let (document, rest) ←
    match rest with
    | .documentStart :: rest => readRoot handles true rest
    | rest => if hasDirectives then none else readRoot handles false rest
  if rest.all (· = .documentEnd) then return document else none

def Document.parse (text : String) : Option Document := tokenize text >>= Document.ofTokens?

def aliasesPerPart : Nat := 100

/-- How many aliases may be followed in a document, so that few nodes cannot stand for a great
many. -/
def Document.aliasLimit (document : Document) : Nat := aliasesPerPart * document.root.size

abbrev Following : Type → Type := StateT Nat Option

def Document.follow (document : Document) : Node → Following Node
  | .alias slot => fun
    | 0 => none
    | left + 1 => (document.anchored.lookup slot).map fun node => (node, left)
  | node => pure node

end RuleLint.Yaml
