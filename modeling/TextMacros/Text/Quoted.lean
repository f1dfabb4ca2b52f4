import TextMacros.Text.Printable

/-!
# Quoted texts

A text between quotes, as error messages show it: single quotes, unless only
single ones stand inside. What is not printable is shown by its number.
-/

set_option autoImplicit false

namespace TextMacros.Text

def hexDigit (n : Nat) : CodePoint := if n < 10 then 0x30 + n else 0x57 + n

/-- The last `width` hexadecimal digits of a number. -/
def hex : (width : Nat) → Nat → Text
  | 0, _ => []
  | width + 1, n => hex width (n / 16) ++ [hexDigit (n % 16)]

def numbered (c : CodePoint) : Text :=
  if c < 0x100 then CodePoint.backslash :: 0x78 :: hex 2 c
  else if c < 0x10000 then CodePoint.backslash :: 0x75 :: hex 4 c
  else CodePoint.backslash :: 0x55 :: hex 8 c

def escape (quote c : CodePoint) : Text :=
  if c = quote ∨ c = CodePoint.backslash then [CodePoint.backslash, c]
  else if c = 0x09 then "\\t"
  else if c = CodePoint.lineFeed then "\\n"
  else if c = CodePoint.carriageReturn then "\\r"
  else if c.isPrintable then [c]
  else numbered c

def quoted (t : Text) : Text :=
  let quote := if CodePoint.singleQuote ∈ t ∧ CodePoint.doubleQuote ∉ t
    then CodePoint.doubleQuote else CodePoint.singleQuote
  quote :: t.flatMap (escape quote) ++ [quote]

/-- What is beyond ASCII is shown by its number too. -/
def inAscii (t : Text) : Text := t.flatMap fun c => if c < 0x80 then [c] else numbered c

end TextMacros.Text
