import TextMacros.Error
import TextMacros.Text.Lines
import TextMacros.Token.Lexeme

/-!
# Token streams

A text is read line by line. Each line is checked for lone surrogates before
its first token, so a failure leaves the tokens of all lines above it.
-/

set_option autoImplicit false

namespace TextMacros

/-- The tokens read before the failure, if there is one. -/
structure TokenStream where
  tokens : List Token
  failure : Option Error
  deriving DecidableEq, Repr

namespace TokenStream

def empty : TokenStream := ⟨[], none⟩

def toExcept (s : TokenStream) : Except Error (List Token) :=
  match s.failure with
  | some e => .error e
  | none => .ok s.tokens

/-- What follows a failure is never read. -/
def append (first rest : TokenStream) : TokenStream :=
  match first.failure with
  | some _ => first
  | none => ⟨first.tokens ++ rest.tokens, rest.failure⟩

end TokenStream

/-- Tokens of what is left of a line from column `col` on; `spaced` tells
whether white space or a line break stands before it. -/
def lexLine (source : Source) (row : Int) (col : Nat) (spaced : Bool) : Text → List Token
  | [] => []
  | c :: rest =>
    if c.isBlank then lexLine source row (col + 1) true rest
    else
      let lexeme := munch c rest
      ⟨lexeme.1, c :: rest.take lexeme.2, source.locate row col, some spaced⟩ ::
        lexLine source row (col + 1 + lexeme.2) false (rest.drop lexeme.2)
  termination_by t => t.length
  decreasing_by all_goals simp only [List.length_cons, List.length_drop]; omega

/-- The line break after a line of a given length. -/
def breakToken (source : Source) (row : Int) (length : Nat) : Token :=
  ⟨.eol, [CodePoint.lineFeed], source.locate row length, some false⟩

def surrogateFailure (source : Source) (row : Int) (col : Nat) : Error :=
  .malformedText (source.locate row col) "surrogates not allowed"

/-- One line with its line break. The start of every row but the first is spaced. -/
def lexRow (source : Source) (row : Int) (line : Text) : TokenStream :=
  let content := line.lineContent
  match content.findIdx? CodePoint.isSurrogate with
  | some col => ⟨[], some (surrogateFailure source row col)⟩
  | none =>
    let tokens := lexLine source row 0 (row > 0) content
    ⟨if content.length = line.length then tokens
      else tokens ++ [breakToken source row content.length], none⟩

def lexRows (source : Source) (row : Int) : List Text → TokenStream
  | [] => .empty
  | line :: rest => (lexRow source row line).append (lexRows source (row + 1) rest)

/-- The rows are taken as they are, even if they hold line feeds inside. -/
def lexLines (source : Source) (lines : List Text) : TokenStream := lexRows source 0 lines

def lexText (source : Source) (t : Text) : TokenStream := lexLines source t.lines

end TextMacros
