import RuleLint.Command.Arguments
import RuleLint.Dotenv
import RuleLint.Pack
import RuleLint.Report
import RuleLint.Settings.File

namespace RuleLint.Command

open File (Path FileSystem)

structure Watched where
  validator : Validator
  binary : Path
  pause : Nat
  asJson : Bool

structure Outcome where
  code : Nat
  output : String
  errors : String
  files : FileSystem
  watched : Option Watched

namespace Outcome

def printed (files : FileSystem) (code : Nat) (output : String) : Outcome :=
  ⟨code, output, "", files, none⟩

def failureCode : Nat := 2

def failed (files : FileSystem) (chain : List String) : Outcome :=
  ⟨failureCode, "", "error: " ++ ": ".intercalate chain ++ "\n", files, none⟩

def stoppedCode : Nat := 101

def stopped (files : FileSystem) (cause : Dotenv.Unsettable) : Outcome :=
  ⟨stoppedCode, "", "error: " ++ cause.message ++ "\n", files, none⟩

def refused (files : FileSystem) : Refusal → Outcome
  | .help => printed files 0 helpText
  | .version => printed files 0 versionText
  | refusal =>
    ⟨failureCode, "", "error: " ++ refusal.message ++ "\n\n" ++ helpText, files, none⟩

end Outcome

def validator (settings : Settings) : Validator := .new settings (Rule.expressive .builtin)

def run (settings : Settings) (files : FileSystem) (checkedAt : String) : Command → Outcome
  | .validate binary asJson =>
    let (report, _) := Report.run files checkedAt binary (validator settings)
    .printed files report.status.exitCode (report.print asJson)
  | .watch binary pause asJson =>
    match files.canonicalize binary with
    | .error cause => .failed files ["cannot watch " ++ binary.text, cause.text]
    | .ok location =>
      let (report, v) := Report.run files checkedAt location.path (validator settings)
      ⟨0, report.print asJson, "", files, some ⟨v, location.path, pause, asJson⟩⟩
  | .pack manifest output =>
    match Pack.run settings files manifest output with
    | (.error cause, files) => .failed files cause.chain
    | (.ok path, files) => .printed files 0 (path.text ++ "\n")
  | .inspect binary asJson =>
    match (validator settings).ruleSites files binary with
    | (.error cause, _) => .failed files (("failed to load " ++ binary.text) :: cause.chain)
    | (.ok sites, _) =>
      .printed files 0 (if asJson then (sitesJson sites).pretty ++ "\n" else sitesText sites)

def Watched.again (w : Watched) (files : FileSystem) (checkedAt : String) : String × Watched :=
  let (_, v) := w.validator.invalidate files w.binary
  let (report, v) := Report.run files checkedAt w.binary v
  (report.print w.asJson, { w with validator := v })

/-- Runs the program. The variables of the environment win over those of the file for variables,
and the settings file wins over both. -/
def runProgram (files : FileSystem) (environment : Variables) (checkedAt : String)
    (arguments : List String) : Outcome :=
  match Dotenv.load files environment with
  | .error cause => .stopped files cause
  | .ok environment =>
    match parse (environment.lookup settingsVariable) arguments with
    | .error refusal => .refused files refusal
    | .ok invocation =>
      match Settings.load files (fun name => environment.lookup name) invocation.settingsFile with
      | .error cause => .failed files ("failed to load configuration" :: cause.chain)
      | .ok settings => run settings files checkedAt invocation.command

end RuleLint.Command
