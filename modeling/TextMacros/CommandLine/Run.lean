import TextMacros.CommandLine.Arguments
import TextMacros.CommandLine.Incident
import TextMacros.CommandLine.Path
import TextMacros.Engine
import TextMacros.Registry.Raw
import TextMacros.Text.Lines

/-!
# Runs of the program

A run reads its arguments and either shows the version or expands the source
under the definitions of the command line. Text goes to the output only once
all of it is expanded.
-/

set_option autoImplicit false

namespace TextMacros

/-- What differs from one machine to another. -/
structure Host where
  platform : Text
  interpreter : Text
  interpreterVersion : Text
  elapsed : Text

structure Request where
  program : Text
  words : List Text
  /-- The content of the file to which a path leads. -/
  file : Path → Option Bytes
  standardInput : Bytes

def distributionVersion : Text := "0.1.0"

def installedProgram : Text := "macrox"

namespace Request

def launchedAs (r : Request) : Text := (Path.ofText r.program).name

def fromSource (r : Request) : Bool := (".py" : Text).isSuffixOf r.launchedAs

/-- The name of the program in its own messages. -/
def shownAs (r : Request) : Text := if r.fromSource then installedProgram else r.launchedAs

def launchWarning (r : Request) : Text :=
  if r.fromSource then
    notice .warning (Text.join ["macrox is launched from '", r.launchedAs, "' instead of `",
      installedProgram, "` script, install it with `pip install .`"])
  else []

/-- The program's name is part of a template, and may fill fields of it. -/
def usage (r : Request) : Except Template.Fault Text :=
  (Template.fill [("prog", r.shownAs)] (r.shownAs ++ Text.ofString " file [options] [-h]")).map
    fun t => Text.join ["usage: ", t.closeGaps, "\n"]

/-- A refusal tells of the usage before anything else. -/
def refuse (r : Request) (refusal : Refusal) : Ending :=
  match r.usage with
  | .error f => .broken (.usage f)
  | .ok usage =>
    match refusal with
    | .helpWanted => ⟨some 0, usage, [], none⟩
    | refusal => .exit 2 (Text.join [usage, r.shownAs, ": error: ", refusal.message, "\n"])

end Request

/-- Where the text to expand comes from. -/
inductive Origin where
  | standardInput
  | file (p : Path) (content : Bytes)
  deriving DecidableEq, Repr

namespace Origin

/-- The name of a source that stands for the standard input. -/
def inputMark : Text := [CodePoint.hyphen]

def describe : Origin → Text
  | standardInput => "stdin"
  | file p _ => p.toText

def ofSource (r : Request) : Option Text → Except Text Origin
  | none => .error "Expected source file to expand (or `-` for standard input)!"
  | some source =>
    if source = inputMark then .ok standardInput
    else
      let p := Path.ofText source
      match r.file p with
      | some content => .ok (file p content)
      | none =>
        .error (Text.join ["Input source file '", p.toText,
          "' does not exists or is not an file!"])

def read (r : Request) : Origin → Except Error Text
  | standardInput => (Input.bytes r.standardInput).decode
  | file _ content => decodeFile content

end Origin

/-- What is needed for any goal: all definitions as they are written, and a
configuration without fault. -/
structure Plan where
  definitions : List Text
  config : Config
  deriving DecidableEq, Repr

namespace Arguments

/-- A definition without a body has the body `1`. -/
def rawDefinition (written : Text) : Text × Text :=
  written.splitEquals.getD (written, "1")

def rawDefinitions (written : List Text) : RawDefinitions :=
  RawDefinitions.ofList (written.map rawDefinition)

def writtenDefinitions (a : Arguments) : Except Breakdown (List Text) :=
  a.definitions.mapM fun
    | some t => .ok t
    | none => .error .noDefinition

def writtenDepth (a : Arguments) : Except Breakdown Int :=
  match a.depth with
  | .usual => .ok ({} : Config).depth
  | .missing => .error .noDepth
  | .given depth => .ok depth

/-- Definitions are looked at before the configuration. -/
def plan (a : Arguments) : Except Ending Plan :=
  match a.writtenDefinitions, a.writtenDepth with
  | .error b, _ => .error (.broken b)
  | .ok _, .error b => .error (.broken b)
  | .ok definitions, .ok depth =>
    let config : Config := ⟨depth, a.directives⟩
    match config.fault? with
    | some fault => .error (.fatal fault.message)
    | none => .ok ⟨definitions, config⟩

/-- A missing name is no matter while nothing is defined. -/
def undefine (r : Registry) : Option Text → Except Incident Registry
  | some name => .ok (r.erase name)
  | none => if r.size = 0 then .ok r else .error (.broken .noUndefinition)

/-- Names are erased after all definitions are made. -/
def registry (a : Arguments) (definitions : List Text) : Except Incident Registry :=
  match Registry.ofRaw .commandLine (rawDefinitions definitions) with
  | .error e => .error (.failed e)
  | .ok r => a.undefinitions.foldlM undefine r

def inform (a : Arguments) (t : Text) : Text := if a.verbose then notice .info t else []

/-- Tells, after a goal has exited, how it did. -/
def exited (a : Arguments) (host : Host) (goal output messages : Text) : Ending :=
  ⟨some 0, output, messages ++ a.inform (Text.join ["Goal '", goal,
    "' finished with exit code 0 in ", host.elapsed, "s"]), none⟩

def flagText (b : Bool) : Text := if b then "True" else "False"

def versionText (host : Host) (c : Config) : Text :=
  Text.join ["[macrox]\n\tVersion: ", distributionVersion, "\nExpander:\n\tMax expansion depth: ",
    Text.ofInt c.depth, "\n\tProcess directives: ", flagText c.directives,
    "\nHost machine:\n\tPlatform: ", host.platform, "\n\tPython: ", host.interpreter, " ",
    host.interpreterVersion, "\n"]

def warn (a : Arguments) (redefinitions : List Redefinition) : Text :=
  if a.warnings then redefinitions.flatMap fun r => notice .warning r.message else []

def settle (a : Arguments) (i : Incident) : Ending := i.settle a.friendlyErrors

/-- Expands a text under a registry, with the messages on the way. -/
def expandText (a : Arguments) (host : Host) (c : Config) (r : Registry) (t : Text) : Ending :=
  let report := expandInput r c (.text t)
  let warnings := a.warn report.redefinitions
  match report.result with
  | .error (.config fault) => Ending.after warnings (.fatal fault.message)
  | .error (.text e) => Ending.after warnings (a.settle (.failed e))
  | .ok output => a.exited host "expand" output warnings

def expandGoal (a : Arguments) (host : Host) (request : Request) (origin : Origin) (p : Plan) :
    Ending :=
  match a.registry p.definitions with
  | .error i => a.settle i
  | .ok r =>
    Ending.after
      (a.inform (Text.join ["Expanding '", origin.describe, "' with ", Text.ofInt r.size,
        " predefined macro(s)"]))
      (match origin.read request with
        | .error e => a.settle (.failed e)
        | .ok t => a.expandText host p.config r t)

def versionGoal (a : Arguments) (host : Host) (p : Plan) : Ending :=
  a.exited host "version" (versionText host p.config) []

/-- The source is looked at before the plan, and not for the version. -/
def perform (a : Arguments) (host : Host) (request : Request) : Ending :=
  if a.version then
    match a.plan with
    | .error e => e
    | .ok p => a.versionGoal host p
  else
    match Origin.ofSource request a.source with
    | .error t => .fatal t
    | .ok origin =>
      match a.plan with
      | .error e => e
      | .ok p => a.expandGoal host request origin p

end Arguments

def run (host : Host) (request : Request) : Ending :=
  Ending.after request.launchWarning
    (match Arguments.read request.words with
      | .error refusal => request.refuse refusal
      | .ok a => a.perform host request)

end TextMacros
