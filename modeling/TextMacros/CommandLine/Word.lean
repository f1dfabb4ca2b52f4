import TextMacros.CommandLine.Switch
import TextMacros.Text.DecimalDigit

/-!
# Words of the command line

A word is an argument, or it names a switch, with a value attached or not.
One-letter switches may share a word; the last of them may take the rest of
the word, or the next word, as its value.
-/

set_option autoImplicit false

namespace TextMacros

namespace Text

def separator : Text := [CodePoint.hyphen, CodePoint.hyphen]

/-- What stands before and after the first equals sign, if there is one. -/
def splitEquals : Text → Option (Text × Text)
  | [] => none
  | c :: rest =>
    if c = CodePoint.equals then some ([], rest)
    else (splitEquals rest).map fun (before, after) => (c :: before, after)

theorem splitEquals_append {before : Text} (h : CodePoint.equals ∉ before) (after : Text) :
    splitEquals (before ++ CodePoint.equals :: after) = some (before, after) := by
  induction before with
  | nil => rfl
  | cons c before ih =>
    simp only [List.mem_cons, not_or] at h
    rw [List.cons_append, splitEquals, if_neg (Ne.symm h.1), ih h.2]
    rfl

theorem splitEquals_of_not_mem {t : Text} (h : CodePoint.equals ∉ t) : t.splitEquals = none := by
  induction t with
  | nil => rfl
  | cons c t ih =>
    simp only [List.mem_cons, not_or] at h
    rw [splitEquals, if_neg (Ne.symm h.1), ih h.2]
    rfl

def allDecimal (t : Text) : Bool := !t.isEmpty && t.all CodePoint.isDecimal

/-- A negative number, with a line feed after it or not. -/
def isNegativeNumber : Text → Bool
  | CodePoint.hyphen :: rest =>
    let body := if rest.getLast? = some CodePoint.lineFeed then rest.dropLast else rest
    allDecimal body ||
      match body.dropWhile CodePoint.isDecimal with
      | CodePoint.dot :: digits => allDecimal digits
      | _ => false
  | _ => false

end Text

inductive Word where
  | argument
  | switch (s : Switch) (short : Bool) (attached : Option Text)
  | unknown
  deriving DecidableEq, Repr

namespace Word

def isShort (spelling : Text) : Bool := spelling[1]? ≠ some CodePoint.hyphen

/-- A switch before an equals sign. -/
def assigned? (t : Text) : Option Word := do
  let (before, after) ← t.splitEquals
  let s ← Switch.ofSpelling? before
  return .switch s (isShort before) (some after)

/-- A one-letter switch with more letters behind it. -/
def clustered? (t : Text) : Option Word := do
  let s ← Switch.ofSpelling? (t.take 2)
  if isShort t then return .switch s true (some (t.drop 2)) else none

/-- A word with a hyphen that names no switch may still be an argument: the
hyphen alone, a negative number, or words with a space between them. -/
def ofText (t : Text) : Word :=
  if t.head? ≠ some CodePoint.hyphen then .argument
  else match Switch.ofSpelling? t with
    | some s => .switch s (isShort t) none
    | none =>
      if t.length = 1 then .argument
      else match assigned? t <|> clustered? t with
        | some w => w
        | none =>
          if t.isNegativeNumber || t.contains CodePoint.space then .argument else .unknown

/-- Whether the word can be the value of the switch before it. -/
def isValue (t : Text) : Bool := t ≠ Text.separator && ofText t = .argument

end Word

end TextMacros
