/-!
# Texts as code points

A text is a list of code points, lone surrogates included, so that malformed
input is a value like any other. Literal strings enter through `ofString`.
-/

set_option autoImplicit false

namespace TextMacros

abbrev CodePoint := Nat

abbrev Text := List CodePoint

namespace CodePoint

@[match_pattern] abbrev lineFeed : CodePoint := 0x0A
@[match_pattern] abbrev carriageReturn : CodePoint := 0x0D
@[match_pattern] abbrev space : CodePoint := 0x20
@[match_pattern] abbrev doubleQuote : CodePoint := 0x22
@[match_pattern] abbrev hash : CodePoint := 0x23
@[match_pattern] abbrev percent : CodePoint := 0x25
@[match_pattern] abbrev singleQuote : CodePoint := 0x27
@[match_pattern] abbrev openParen : CodePoint := 0x28
@[match_pattern] abbrev closeParen : CodePoint := 0x29
@[match_pattern] abbrev asterisk : CodePoint := 0x2A
@[match_pattern] abbrev plus : CodePoint := 0x2B
@[match_pattern] abbrev comma : CodePoint := 0x2C
@[match_pattern] abbrev hyphen : CodePoint := 0x2D
@[match_pattern] abbrev dot : CodePoint := 0x2E
@[match_pattern] abbrev slash : CodePoint := 0x2F
@[match_pattern] abbrev equals : CodePoint := 0x3D
@[match_pattern] abbrev backslash : CodePoint := 0x5C
@[match_pattern] abbrev underscore : CodePoint := 0x5F

/-- Surrogates stand for no character, so a text with one has no UTF-8 form. -/
def isSurrogate (c : CodePoint) : Bool := 0xD800 ≤ c && c ≤ 0xDFFF

/-- Only the ten ASCII digits build numbers and identifiers. -/
def isDigit (c : CodePoint) : Bool := 0x30 ≤ c && c ≤ 0x39

def isCapital (c : CodePoint) : Bool := 0x41 ≤ c && c ≤ 0x5A

def isLetter (c : CodePoint) : Bool := isCapital c || (0x61 ≤ c && c ≤ 0x7A)

def startsIdentifier (c : CodePoint) : Bool := c = underscore || isLetter c

def continuesIdentifier (c : CodePoint) : Bool := startsIdentifier c || isDigit c

/-- Ranges include both their ends. -/
def isWithin (c : CodePoint) (ranges : List (CodePoint × CodePoint)) : Bool :=
  ranges.any fun r => r.1 ≤ c && c ≤ r.2

end CodePoint

namespace Text

def ofString (s : String) : Text := s.toList.map Char.toNat

instance : Coe String Text := ⟨ofString⟩

-- By name, so that a test for membership among texts carries no proof of its own.
instance : LawfulBEq Text := inferInstance

def ofInt (n : Int) : Text := ofString (toString n)

/-- Pieces written one after the other; literal strings may stand among them. -/
def join (pieces : List Text) : Text := pieces.flatten

/-- Writes a text whose code points are all characters. -/
def toString (t : Text) : String := String.ofList (t.map Char.ofNat)

/-- The text without the longest run at its end that satisfies `p`. -/
def dropEndWhile (p : CodePoint → Bool) (t : Text) : Text := (t.reverse.dropWhile p).reverse

/-- A name that a macro or a parameter may bear. -/
def isIdentifier : Text → Bool
  | [] => false
  | c :: cs => c.startsIdentifier && cs.all CodePoint.continuesIdentifier

/-- Texts are ordered by their first differing code point. -/
def le : Text → Text → Bool
  | [], _ => true
  | _ :: _, [] => false
  | a :: as, b :: bs => a < b || (a = b && le as bs)

end Text

end TextMacros
