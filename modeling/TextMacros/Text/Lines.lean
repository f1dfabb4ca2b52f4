import TextMacros.Text.Basic
import TextMacros.Text.Cut

/-!
# Lines

A text is cut after each line feed, so its lines concatenate to the text.
The content of a line is what is left without the line breaks at its end.
-/

set_option autoImplicit false

namespace TextMacros.Text

/-- Every line but the last ends with its line feed; no line is empty. -/
def lines (t : Text) : List Text := cutAfter (fun c _ => c = CodePoint.lineFeed) t

def isBreak (c : CodePoint) : Bool := c = CodePoint.carriageReturn || c = CodePoint.lineFeed

/-- All carriage returns and line feeds at the end belong to the line break. -/
def lineContent (line : Text) : Text := dropEndWhile isBreak line

/-- Of blank lines in a row only one stays. -/
def closeGaps : Text → Text
  | [] => []
  | c :: rest =>
    if c = CodePoint.lineFeed ∧ rest.take 2 = [CodePoint.lineFeed, CodePoint.lineFeed]
    then closeGaps rest else c :: closeGaps rest

theorem flatten_lines (t : Text) : (lines t).flatten = t := flatten_cutAfter _ t

end TextMacros.Text
