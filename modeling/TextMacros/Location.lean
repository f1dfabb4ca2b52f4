import TextMacros.Text.Basic

/-!
# Locations

Where a token stands: row and column count from zero, in code points. What
comes from the command line has no position of its own.
-/

set_option autoImplicit false

namespace TextMacros

inductive Source where
  | text
  | definition
  | commandLine
  deriving DecidableEq, Repr

structure Location where
  line : Int
  col : Int
  source : Source
  deriving DecidableEq, Repr

namespace Location

def commandLine : Location := ⟨0, 0, .commandLine⟩

/-- Where a definition begins of which nothing else is known. -/
def definition : Location := ⟨0, 0, .definition⟩

/-- Messages count rows and columns from one. -/
def describe (l : Location) : Text :=
  match l.source with
  | .commandLine => "'(command-line-interface)'"
  | .definition => position "'<definition>:"
  | .text => position "'<text>:"
where
  position (start : Text) : Text :=
    Text.join [start, Text.ofInt (l.line + 1), ":", Text.ofInt (l.col + 1), "'"]

end Location

def Source.locate (source : Source) (row col : Int) : Location :=
  match source with
  | .commandLine => Location.commandLine
  | source => ⟨row, col, source⟩

end TextMacros
