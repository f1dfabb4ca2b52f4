import TextMacros.Text.Blank
import TextMacros.Token.Basic

/-!
# Lexemes

The longest lexeme at the start of a text, within one line. A quote opens a
literal only if the line closes it; otherwise it is punctuation.
-/

set_option autoImplicit false

namespace TextMacros

namespace Text

/-- How far the text goes up to and with the closing quote. A backslash takes
the code point after it, whatever it is, as part of the literal. -/
def closingQuote (quote : CodePoint) : Text → Option Nat
  | [] => none
  | [c] => if c ≠ CodePoint.backslash ∧ c = quote then some 1 else none
  | c :: d :: rest =>
    if c = CodePoint.backslash then (closingQuote quote rest).map (· + 2)
    else if c = quote then some 1
    else (closingQuote quote (d :: rest)).map (· + 1)

/-- The same as a position in the whole text, read from a given start. -/
def closingQuoteFrom (quote : CodePoint) (start : Nat) (t : Text) : Option Nat :=
  (closingQuote quote (t.drop start)).map (· + start)

/-- Where the run of code points with a property ends that begins at a start. -/
def runEnd (p : CodePoint → Bool) (start : Nat) (t : Text) : Nat :=
  start + ((t.drop start).takeWhile p).length

/-- Digits, at most one dot, and digits again. -/
def numberLength (t : Text) : Nat :=
  let whole := (t.takeWhile CodePoint.isDigit).length
  match t.drop whole with
  | CodePoint.dot :: rest => whole + 1 + (rest.takeWhile CodePoint.isDigit).length
  | _ => whole

end Text

def TokenKind.ofSymbol : CodePoint → TokenKind
  | CodePoint.openParen => .lparen
  | CodePoint.closeParen => .rparen
  | CodePoint.comma => .comma
  | _ => .punctuation

/-- The kind of the lexeme that begins with `c` and how many of the code points
after `c` belong to it. Blanks at the end of a comment do not. -/
def munch (c : CodePoint) (rest : Text) : TokenKind × Nat :=
  if c = CodePoint.slash ∧ rest.head? = some CodePoint.slash then
    (.comment, rest.trimEnd.length)
  else if c = CodePoint.doubleQuote then
    match rest.closingQuote c with
    | some n => (.string, n)
    | none => (.punctuation, 0)
  else if c = CodePoint.singleQuote then
    match rest.closingQuote c with
    | some n => (.character, n)
    | none => (.punctuation, 0)
  else if c.isDigit then (.number, rest.numberLength)
  else if c.startsIdentifier then
    (.identifier, (rest.takeWhile CodePoint.continuesIdentifier).length)
  else (TokenKind.ofSymbol c, 0)

end TextMacros
