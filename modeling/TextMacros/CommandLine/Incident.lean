import TextMacros.CommandLine.Breakdown
import TextMacros.Text.Quoted

/-!
# How a run ends

What is written and the exit status, or what is passed on to the caller as it
is. Whatever can end a run early is an incident.
-/

set_option autoImplicit false

namespace TextMacros

structure Ending where
  status : Option Int
  output : Text
  messages : Text
  escaped : Option Escape
  deriving DecidableEq, Repr

inductive Level where
  | info
  | warning
  | error
  deriving DecidableEq, Repr

def Level.label : Level → Text
  | info => "INFO"
  | warning => "WARNING"
  | error => "ERROR"

/-- One message to the user, on a line of its own. -/
def notice (level : Level) (t : Text) : Text := Text.join ["[", level.label, "] ", t, "\n"]

namespace Ending

def exit (status : Int) (messages : Text) : Ending := ⟨some status, [], messages, none⟩

def fatal (t : Text) : Ending := exit 1 (notice .error t)

def escape (e : Escape) : Ending := ⟨none, [], [], some e⟩

def broken (b : Breakdown) : Ending := escape (.breakdown b)

def after (messages : Text) (e : Ending) : Ending := { e with messages := messages ++ e.messages }

end Ending

/-- A failure of the operating system: a mere text, or a number with a text
and the files concerned. -/
inductive SystemFailure where
  | plain (t : Text)
  | numbered (number : Int) (t : Text) (files : List Text)
  deriving DecidableEq, Repr

namespace SystemFailure

def message : SystemFailure → Text
  | plain t => t
  | numbered number t files =>
    let start := Text.join ["[Errno ", Text.ofInt number, "] ", t]
    match files with
    | [] => start
    | files => Text.join [start, ": ", List.intercalate " -> " (files.map Text.quoted)]

/-- The reader of a pipe, or the other end of a connection, is gone. -/
def isBrokenPipe : SystemFailure → Bool
  | plain _ => false
  | numbered number _ _ => number = 32 || number = 108

end SystemFailure

inductive Incident where
  | failed (e : Error)
  | broken (b : Breakdown)
  | system (f : SystemFailure)
  | brokenPipe
  | interrupted
  | exited (status : Int)
  | finished
  deriving DecidableEq, Repr

/-- Nobody is left to tell of a broken pipe. Errors of the text are told to
the user, unless they are to be passed on. -/
def Incident.settle (friendly : Bool) : Incident → Ending
  | failed e => if friendly then .fatal e.message else .escape (.error e)
  | broken b => .broken b
  | system f =>
    if f.isBrokenPipe then .exit 1 []
    else .fatal (Text.join ["Unable to read input text: ", f.message])
  | brokenPipe => .exit 1 []
  | interrupted => .exit 130 (notice .info "Expansion interrupted by user (Ctrl+C)!")
  | exited status => .exit status []
  | finished => .fatal "Bug in a CLI: goal finished without an exit"

end TextMacros
