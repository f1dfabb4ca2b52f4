import TextMacros.Misuse
import TextMacros.Token.Lexeme

/-!
# Cursors

A place in a line, where a single token can be read. Reading moves on to the
next word; a quote that the line does not close leaves the cursor alone, and
stands for itself then.
-/

set_option autoImplicit false

namespace TextMacros

namespace LiteralKind

def tokenKind : LiteralKind → TokenKind
  | string => .string
  | character => .character
  | numeric => .number

def opens : LiteralKind → CodePoint → Bool
  | string, c => c = CodePoint.doubleQuote
  | character, c => c = CodePoint.singleQuote
  | numeric, c => c.isDigit

/-- How many code points after the first one belong to the literal. -/
def reach : LiteralKind → Text → Option Nat
  | string, rest => rest.closingQuote CodePoint.doubleQuote
  | character, rest => rest.closingQuote CodePoint.singleQuote
  | numeric, rest => some rest.numberLength

/-- At most one kind of literal opens with a given code point. -/
def openedBy? (c : CodePoint) : Option LiteralKind := [string, character, numeric].find? (·.opens c)

end LiteralKind

structure Cursor where
  source : Source
  row : Int
  line : Text
  col : Nat
  deriving DecidableEq, Repr

namespace Cursor

def location (c : Cursor) : Location := c.source.locate c.row c.col

/-- At the start of a line the break before it counts as white space. -/
def spaced (c : Cursor) : Except Misuse Bool :=
  match c.col with
  | 0 => .ok (decide (0 < c.row))
  | col + 1 =>
    match c.line[col]? with
    | some before => .ok before.isBlank
    | none => .error .columnOutsideLine

def nextWord (c : Cursor) (col : Nat) : Cursor :=
  { c with col := c.line.runEnd CodePoint.isBlank col }

def readLiteral (kind : LiteralKind) (c : Cursor) : Except Misuse (Option Token × Cursor) :=
  if c.line.isEmpty then .error (.literalNotOpened kind)
  else match c.line.drop c.col with
    | [] => .error .columnOutsideLine
    | first :: rest =>
      if !kind.opens first then .error (.literalNotOpened kind)
      else match kind.reach rest with
        | none => .ok (none, c)
        | some n => do
          let spaced ← c.spaced
          let token := ⟨kind.tokenKind, first :: rest.take n, c.location, some spaced⟩
          return (some token, c.nextWord (c.col + 1 + n))

/-- A comment takes the rest of the line with it. -/
def readComment (c : Cursor) : Except Misuse (Token × Cursor) := do
  let spaced ← c.spaced
  return (⟨.comment, Text.trimEnd (c.line.drop c.col), c.location, some spaced⟩,
    { c with col := c.line.length })

def readIdentifier (c : Cursor) : Except Misuse (Token × Cursor) := do
  let spaced ← c.spaced
  let stop := c.line.runEnd CodePoint.continuesIdentifier c.col
  return (⟨.identifier, (c.line.take stop).drop c.col, c.location, some spaced⟩, c.nextWord stop)

def readSymbol (symbol : CodePoint) (c : Cursor) : Except Misuse (Token × Cursor) := do
  let spaced ← c.spaced
  return (⟨.ofSymbol symbol, [symbol], c.location, some spaced⟩, c.nextWord (c.col + 1))

def readToken (c : Cursor) : Except Misuse (Token × Cursor) :=
  match c.line.drop c.col with
  | [] => .error .columnOutsideLine
  | first :: rest =>
    if first = CodePoint.slash ∧ rest.head? = some CodePoint.slash then c.readComment
    else match LiteralKind.openedBy? first with
      | some kind => do
        match ← c.readLiteral kind with
        | (some token, next) => return (token, next)
        | (none, _) => c.readSymbol first
      | none => if first.startsIdentifier then c.readIdentifier else c.readSymbol first

end Cursor

end TextMacros
