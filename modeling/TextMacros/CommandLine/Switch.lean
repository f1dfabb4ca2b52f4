import TextMacros.Text.Basic

/-!
# Switches

The options of the command line, each with its spellings.
-/

set_option autoImplicit false

namespace TextMacros

inductive Switch where
  | help
  | version
  | define
  | undefine
  | noDirectives
  | maxDepth
  | verbose
  | noWarnings
  | rawErrors
  deriving DecidableEq, Repr

namespace Switch

def all : List Switch :=
  [help, version, define, undefine, noDirectives, maxDepth, verbose, noWarnings, rawErrors]

def spellings : Switch → List Text
  | help => ["-h", "--help"]
  | version => ["--version"]
  | define => ["-D"]
  | undefine => ["-U"]
  | noDirectives => ["--no-directives"]
  | maxDepth => ["--max-expansion-depth"]
  | verbose => ["--verbose", "-v"]
  | noWarnings => ["--no-redefinition-warnings"]
  | rawErrors => ["--debug-unwrap-errors"]

def takesValue : Switch → Bool
  | define => true
  | undefine => true
  | maxDepth => true
  | _ => false

def ofSpelling? (t : Text) : Option Switch := all.find? fun s => t ∈ s.spellings

/-- All spellings, as messages show them. -/
def label (s : Switch) : Text := List.intercalate [CodePoint.slash] s.spellings

end Switch

end TextMacros
