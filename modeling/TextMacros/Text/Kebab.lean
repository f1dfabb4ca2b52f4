import TextMacros.Text.LowerCase

/-!
# Kebab case

Names in camel case, written in small letters with a hyphen before each
ASCII capital but the first code point.
-/

set_option autoImplicit false

namespace TextMacros.Text

def hyphenate (c : CodePoint) : Text := if c.isCapital then [CodePoint.hyphen, c] else [c]

def camelToKebab : Text → Text
  | [] => []
  | c :: cs => toLower (c :: cs.flatMap hyphenate)

end TextMacros.Text
