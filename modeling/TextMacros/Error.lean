import TextMacros.Location
import TextMacros.Text.Kebab

/-!
# Errors

Each cause of a failure carries what its message tells. The kind groups the
causes for callers that do not read messages.
-/

set_option autoImplicit false

namespace TextMacros

inductive ErrorKind where
  | unterminatedInvocation
  | argumentCountMismatch
  | recursionLimitExceeded
  | encoding
  | invalidDefinition
  | reentry
  deriving DecidableEq, Repr

inductive Error where
  | malformedText (location : Location) (reason : Text)
  | nonIdentifierName (location : Location) (name : Text)
  | missingName (location : Location)
  | invalidParameter (location : Location) (name parameter : Text)
  | duplicateParameter (location : Location) (name parameter : Text)
  | argumentCount (location : Location) (name : Text) (expected actual : Int)
  | recursionLimit (location : Location) (name : Text) (limit : Int)
  | unterminatedInvocation (location : Location) (name : Text)
  | reentered (location : Location) (name : Text)
  deriving DecidableEq, Repr

namespace Error

def location : Error → Location
  | malformedText location _ => location
  | nonIdentifierName location _ => location
  | missingName location => location
  | invalidParameter location _ _ => location
  | duplicateParameter location _ _ => location
  | argumentCount location _ _ _ => location
  | recursionLimit location _ _ => location
  | unterminatedInvocation location _ => location
  | reentered location _ => location

/-- Malformed text and a definition without a name concern no macro. -/
def macroName : Error → Option Text
  | malformedText _ _ => none
  | nonIdentifierName _ name => some name
  | missingName _ => none
  | invalidParameter _ name _ => some name
  | duplicateParameter _ name _ => some name
  | argumentCount _ name _ _ => some name
  | recursionLimit _ name _ => some name
  | unterminatedInvocation _ name => some name
  | reentered _ name => some name

def kind : Error → ErrorKind
  | malformedText _ _ => .encoding
  | nonIdentifierName _ _ => .invalidDefinition
  | missingName _ => .invalidDefinition
  | invalidParameter _ _ _ => .invalidDefinition
  | duplicateParameter _ _ _ => .invalidDefinition
  | argumentCount _ _ _ _ => .argumentCountMismatch
  | recursionLimit _ _ _ => .recursionLimitExceeded
  | unterminatedInvocation _ _ => .unterminatedInvocation
  | reentered _ _ => .reentry

/-- The name of the cause in camel case. -/
def label : Error → Text
  | malformedText _ _ => "LexerEncodingError"
  | nonIdentifierName _ _ => "PreprocessorMacroNonIdentifierNameError"
  | missingName _ => "PreprocessorNoMacroNameError"
  | invalidParameter _ _ _ => "PreprocessorMacroInvalidParameterError"
  | duplicateParameter _ _ _ => "PreprocessorMacroDuplicateParameterError"
  | argumentCount _ _ _ _ => "ArgumentCountMismatchError"
  | recursionLimit _ _ _ => "RecursionLimitExceededError"
  | unterminatedInvocation _ _ => "UnterminatedInvocationError"
  | reentered _ _ => "MacroReentryError"

/-- The last line of each message. -/
def tag (e : Error) : Text := Text.join ["[", e.label.camelToKebab, "]"]

/-- What went wrong and where, then advice, separated by blank lines. -/
def summary : Error → Text × Text
  | malformedText location reason =>
    (Text.join ["Malformed input text at ", location.describe, "!"],
      Text.join ["Text cannot be represented as UTF-8: ", reason,
        "\nIs input file an text file with proper encoding?"])
  | nonIdentifierName location name =>
    (Text.join ["Non-identifier name for macro at ", location.describe, "!"],
      Text.join ["Macros should have name as 'identifier' but got '", name, "'!"])
  | missingName location =>
    (Text.join ["No macro name specified at ", location.describe, "!"],
      "Do you have unfinished macro definition?")
  | invalidParameter location name parameter =>
    (Text.join ["Macro '", name, "' at ", location.describe, " has invalid parameter '", parameter,
        "'!"],
      "Parameters of an function-like macro must be comma-separated identifiers, e.g `SQR(a)` or `ADD(a, b)`.")
  | duplicateParameter location name parameter =>
    (Text.join ["Macro '", name, "' at ", location.describe, " has duplicate parameter '",
        parameter, "'!"],
      "Parameter names must be unique within single definition.")
  | argumentCount location name expected actual =>
    (Text.join ["Invocation of an macro '", name, "' at ", location.describe,
        " has wrong number of arguments!"],
      Text.join ["Expected ", Text.ofInt expected, " argument(s) but got ", Text.ofInt actual,
        ".\nCommas inside nested parentheses does not separate arguments, consider wrapping argument into parentheses."])
  | recursionLimit location name limit =>
    (Text.join ["Macro recursion limit exceeded while expanding '", name, "' at ",
        location.describe, "!"],
      Text.join ["Expansion went deeper than ", Text.ofInt limit,
        " nested macro(s).\nIs there an chain of macros that expands into each other?\n(limit may be configured via `--max-expansion-depth`)"])
  | unterminatedInvocation location name =>
    (Text.join ["Unterminated invocation of an macro '", name, "' at ", location.describe, "!"],
      "Expected closing parenthesis `)` for an argument list but reached end of input.\nDid you forgot to close an argument list or one of nested parentheses?")
  | reentered location name =>
    (Text.join ["Macro '", name, "' at ", location.describe, " is already being expanded!"],
      "A macro never expands inside of its own expansion.")

def message (e : Error) : Text :=
  Text.join [e.summary.1, "\n\n", e.summary.2, "\n\n", e.tag]

end Error

end TextMacros
