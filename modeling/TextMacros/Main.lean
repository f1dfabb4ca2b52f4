import TextMacros.CommandLine.Run

/-!
# The program

Reads what a run asks for, writes what it answers, and decides nothing.
-/

set_option autoImplicit false

namespace TextMacros

def thisHost : Host := ⟨"unknown", "Lean", "4", "0.000"⟩

/-- The file that the words name as the source, if it can be read. -/
def readSource (words : List Text) : IO (Path → Option Bytes) := do
  match Arguments.read words with
  | .ok { source := some source, .. } =>
    let p := Path.ofText source
    try
      let content ← IO.FS.readBinFile p.toText.toString
      return fun q => if q = p then some content.toList else none
    catch _ => return fun _ => none
  | _ => return fun _ => none

/-- Standard input is read only where it is the source. -/
def readInput (words : List Text) : IO Bytes := do
  match Arguments.read words with
  | .ok { source := some source, .. } =>
    if source = Origin.inputMark then
      let bytes ← (← IO.getStdin).readBinToEnd
      return bytes.toList
    else return []
  | _ => return []

end TextMacros

open TextMacros

def main (args : List String) : IO UInt32 := do
  let words := args.map Text.ofString
  let ending := run thisHost ⟨installedProgram, words, ← readSource words, ← readInput words⟩
  (← IO.getStderr).putStr ending.messages.toString
  (← IO.getStdout).putStr ending.output.toString
  match ending.status, ending.escaped with
  | some status, _ => return status.toNat.toUInt32
  | none, some e => throw (IO.userError e.message.toString)
  | none, none => return 1
