import TextMacros.Text.Blank
import TextMacros.Text.DecimalDigit

/-!
# Integers as they are written

An integer has a sign or none, and digits of any script, with single
underscores between them. Blanks around it do not matter.
-/

set_option autoImplicit false

namespace TextMacros.Text

/-- The information separators are white space in a text, but not around a number. -/
def isNumberBlank (c : CodePoint) : Bool := c.isBlank && !(0x1C ≤ c && c ≤ 0x1F)

/-- Longer numbers are refused, whatever their value. -/
def mostDigits : Nat := 4300

/-- Goes through the digits with the value and the number of those it has
passed; `needDigit` holds at the start and after an underscore. -/
def readDigits (needDigit : Bool) (value count : Nat) : Text → Option Nat
  | [] => if needDigit || mostDigits < count then none else some value
  | c :: rest =>
    if c = CodePoint.underscore then
      if needDigit then none else readDigits true value count rest
    else match c.decimalValue? with
      | some digit => readDigits false (value * 10 + digit) (count + 1) rest
      | none => none

def toInt? (t : Text) : Option Int :=
  match dropEndWhile isNumberBlank (t.dropWhile isNumberBlank) with
  | CodePoint.hyphen :: rest => (readDigits true 0 0 rest).map fun n => -(n : Int)
  | CodePoint.plus :: rest => (readDigits true 0 0 rest).map fun n => (n : Int)
  | digits => (readDigits true 0 0 digits).map fun n => (n : Int)

end TextMacros.Text
