import RuleLint.Command.Basic

namespace RuleLint.Command

open File (Path)

structure OptionKind where
  name : String
  takesValue : Bool
deriving DecidableEq, Repr

def configOption : OptionKind := ⟨"--config", true⟩

def jsonOption : OptionKind := ⟨"--json", false⟩

def outOption : OptionKind := ⟨"--out", true⟩

def pauseOption : OptionKind := ⟨"--debounce-ms", true⟩

structure Arguments where
  options : List (OptionKind × String)
  operands : List String
deriving Repr

namespace Arguments

def none : Arguments := ⟨[], []⟩

def value? (a : Arguments) (option : OptionKind) : Option String := a.options.lookup option

def has (a : Arguments) (option : OptionKind) : Bool := (a.value? option).isSome

end Arguments

def readPause? (text : String) : Option Nat :=
  let digits : List Char :=
    match text.toList with
    | '+' :: digits => digits
    | digits => digits
  let value := digits.foldl (fun n d => 10 * n + (d.toNat - '0'.toNat)) 0
  if digits ≠ [] ∧ digits.all Char.isDigit ∧ value < Nat.pow 2 64 then some value else none

def OptionKind.accepts (option : OptionKind) (text : String) : Bool :=
  if option = pauseOption then (readPause? text).isSome else text ≠ ""

def isOption (argument : String) : Bool :=
  argument.toList.head? = some '-' && argument ≠ "-"

def splitOption (argument : String) : String × Option String :=
  let name := argument.toList.takeWhile (· ≠ '=')
  match argument.toList.dropWhile (· ≠ '=') with
  | [] => (argument, none)
  | _ :: value => (String.ofList name, some (String.ofList value))

def shortRequest (atTop : Bool) (argument : String) : Refusal :=
  match argument.toList[1]? with
  | some 'h' => .help
  | some 'V' => if atTop then .version else .unexpected argument
  | _ => .unexpected argument

def readOption (atTop : Bool) (known : List OptionKind) (read : Arguments) (argument : String)
    (next : Option String) : Except Refusal (Arguments × Bool) :=
  let (name, written) := splitOption argument
  if argument.toList.take 2 ≠ ['-', '-'] then
    .error (shortRequest atTop argument)
  else if argument = "--help" then .error .help
  else if argument = "--version" && atTop then .error .version
  else
    match known.find? (·.name = name) with
    | none => .error (.unexpected argument)
    | some option =>
      if read.has option then .error (.repeated name)
      else
        let add (value : String) : Arguments :=
          { read with options := (option, value) :: read.options }
        match option.takesValue, written, next with
        | false, none, _ => .ok (add "", false)
        | false, some value, _ => .error (.invalidValue name value)
        | true, some value, _ =>
          if option.accepts value then .ok (add value, false)
          else .error (.invalidValue name value)
        | true, none, some value =>
          if isOption value then .error (.missingValue name)
          else if option.accepts value then .ok (add value, true)
          else .error (.invalidValue name value)
        | true, none, none => .error (.missingValue name)

def addOperand (read : Arguments) (operand : String) : Except Refusal Arguments :=
  if read.operands ≠ [] then .error (.unexpected operand)
  else if operand = "" then .error .missingOperand
  else .ok { read with operands := [operand] }

def readArguments (known : List OptionKind) (read : Arguments) :
    List String → Except Refusal Arguments
  | [] => .ok read
  | argument :: rest =>
    if argument = "--" then rest.foldlM addOperand read
    else if isOption argument then
      match readOption false known read argument rest.head? with
      | .error refusal => .error refusal
      | .ok (read, tookNext) => readArguments known read (if tookNext then rest.tail else rest)
    else
      match addOperand read argument with
      | .error refusal => .error refusal
      | .ok read => readArguments known read rest
termination_by arguments => arguments.length
decreasing_by
  · split <;> simp only [List.length_tail, List.length_cons] <;> omega
  · simp

def readBeforeCommand (read : Arguments) :
    List String → Except Refusal (Arguments × String × List String)
  | [] => .error .missingCommand
  | argument :: rest =>
    if argument = "--" then .error .missingCommand
    else if isOption argument then
      match readOption true [configOption] read argument rest.head? with
      | .error refusal => .error refusal
      | .ok (read, tookNext) => readBeforeCommand read (if tookNext then rest.tail else rest)
    else .ok (read, argument, rest)
termination_by arguments => arguments.length
decreasing_by
  split <;> simp only [List.length_tail, List.length_cons] <;> omega

def ofName? : String → Option (List OptionKind × (Path → Arguments → Command))
  | "validate" =>
    some ([jsonOption], fun path read => .validate path (read.has jsonOption))
  | "watch" =>
    some ([jsonOption, pauseOption], fun path read =>
      .watch path (((read.value? pauseOption) >>= readPause?).getD defaultPause)
        (read.has jsonOption))
  | "pack" =>
    some ([outOption], fun path read => .pack path ((read.value? outOption).map File.Path.mk))
  | "inspect" =>
    some ([jsonOption], fun path read => .inspect path (read.has jsonOption))
  | _ => none

/-- The settings file. Where the command line names none the variable does, whose value `fallback`
is. An empty one is refused wherever it would be looked at. -/
def settingsFile (fallback : Option String) (before after : Arguments) :
    Except Refusal (Option Path) :=
  if fallback = some "" && !(before.has configOption && after.has configOption) then
    .error (.missingValue configOption.name)
  else
    let file := (after.value? configOption).or ((before.value? configOption).or fallback)
    .ok (file.map File.Path.mk)

def parse (fallback : Option String) (arguments : List String) : Except Refusal Invocation := do
  let (before, name, rest) ← readBeforeCommand .none arguments
  match ofName? name with
  | none =>
    match name, rest with
    | "help", [] => .error .help
    | "help", command :: rest =>
      if (ofName? command).isSome || command = "help" then
        .error ((rest.head?.map Refusal.unknownCommand).getD .help)
      else .error (.unknownCommand command)
    | name, _ => .error (.unknownCommand name)
  | some (options, command) =>
    let after ← readArguments (configOption :: options) .none rest
    match after.operands with
    | [] => .error .missingOperand
    | operand :: _ =>
      return ⟨← settingsFile fallback before after, command ⟨operand⟩ after⟩

end RuleLint.Command
