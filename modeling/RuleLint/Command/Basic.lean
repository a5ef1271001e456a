import RuleLint.File.Path

namespace RuleLint

open File (Path)

inductive Command
  | validate (binary : Path) (asJson : Bool)
  | watch (binary : Path) (pause : Nat) (asJson : Bool)
  | pack (manifest : Path) (output : Option Path)
  | inspect (binary : Path) (asJson : Bool)
deriving DecidableEq, Repr

structure Invocation where
  settingsFile : Option Path
  command : Command
deriving DecidableEq, Repr

inductive Refusal
  | help
  | version
  | missingCommand
  | unknownCommand (name : String)
  | unexpected (argument : String)
  | missingValue (option : String)
  | invalidValue (option value : String)
  | repeated (option : String)
  | missingOperand
deriving DecidableEq, Repr

namespace Command

def programName : String := "rulecheck"

def versionText : String := programName ++ " 0.1.0\n"

def defaultPause : Nat := 500

def settingsVariable : String := "RULECHECK_CONFIG"

def helpText : String :=
  "Build-time validation of rule annotations in compiled module images.\n\n" ++
  "Usage: " ++ programName ++ " [--config <FILE>] <COMMAND>\n\n" ++
  "Commands:\n" ++
  "  validate <IMAGE> [--json]                         Compile every rule annotation\n" ++
  "  watch <IMAGE> [--json] [--debounce-ms <COUNT>]    Validate after every rebuild\n" ++
  "  pack <MANIFEST> [--out <FILE>]                    Build a module image\n" ++
  "  inspect <IMAGE> [--json]                          List the rule annotations\n\n" ++
  "The exit code is 0 when every rule compiles, 1 when a rule does not, and 2 otherwise.\n"

end Command

namespace Refusal

def message : Refusal → String
  | help => "help is asked for"
  | version => "the version is asked for"
  | missingCommand => "a command is missing"
  | unknownCommand name => "unknown command '" ++ name ++ "'"
  | unexpected argument => "unexpected argument '" ++ argument ++ "'"
  | missingValue option => "the option '" ++ option ++ "' has no value"
  | invalidValue option value => "invalid value '" ++ value ++ "' for '" ++ option ++ "'"
  | repeated option => "the option '" ++ option ++ "' is given twice"
  | missingOperand => "the path to work on is missing"

end Refusal

end RuleLint
