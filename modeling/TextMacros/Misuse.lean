import TextMacros.Text.Basic

/-!
# Calls that ask for nothing that is there

These faults lie with the caller and not with the text that is expanded.
-/

set_option autoImplicit false

namespace TextMacros

inductive LiteralKind where
  | string
  | character
  | numeric
  deriving DecidableEq, Repr

inductive Misuse where
  | literalNotOpened (kind : LiteralKind)
  | columnOutsideLine
  | indexOutsideTokens
  | textLocation
  deriving DecidableEq, Repr

def Misuse.message : Misuse → Text
  | literalNotOpened .string =>
    "tokenize_string_literal must be called when cursor is at open string quote"
  | literalNotOpened .character =>
    "tokenize_character_literal must be called when cursor is at open character quote"
  | literalNotOpened .numeric =>
    "tokenize_numeric_literal must be called when cursor is at digit"
  | columnOutsideLine => "string index out of range"
  | indexOutsideTokens => "tuple index out of range"
  | textLocation =>
    "`registry_from_raw_definitions` implies raw definitions, but tried to pass parent location with `text` source, which is consider as an fatal error.\nConsider using `#define` directives within expanded text instead."

end TextMacros
