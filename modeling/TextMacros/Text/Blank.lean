import TextMacros.Text.Basic

/-!
# White space

The code points that separate tokens: the controls that move on or separate
information, and every space and separator of any script.
-/

set_option autoImplicit false

namespace TextMacros

def CodePoint.isBlank (c : CodePoint) : Bool :=
  (0x09 ≤ c && c ≤ 0x0D) || (0x1C ≤ c && c ≤ 0x20) || c = 0x85 || c = 0xA0 || c = 0x1680 ||
    (0x2000 ≤ c && c ≤ 0x200A) || c = 0x2028 || c = 0x2029 || c = 0x202F || c = 0x205F ||
    c = 0x3000

def Text.trimEnd (t : Text) : Text := dropEndWhile CodePoint.isBlank t

end TextMacros
