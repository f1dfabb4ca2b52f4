import TextMacros.Location

/-!
# Tokens

A token remembers whether white space stood before it. Where a token has got
a new neighbour, nothing is known about the space between the two.
-/

set_option autoImplicit false

namespace TextMacros

/-- All that is no word, number, literal or comment is punctuation; only
parentheses and commas have kinds of their own. -/
inductive TokenKind where
  | identifier
  | number
  | string
  | character
  | comment
  | lparen
  | rparen
  | comma
  | punctuation
  | eol
  deriving DecidableEq, Repr

structure Token where
  kind : TokenKind
  text : Text
  location : Location
  spaced : Option Bool
  deriving DecidableEq, Repr

namespace Token

/-- Same kind and same text, wherever the two stand. -/
def alike (a b : Token) : Bool := a.kind = b.kind && a.text = b.text

def withSpacing (t : Token) (spaced : Option Bool) : Token := { t with spaced := spaced }

/-- A token that touched its neighbour no longer does once that one is replaced. -/
def detached (t : Token) : Token :=
  if t.spaced = some false then t.withSpacing none else t

@[simp] theorem kind_detached (t : Token) : t.detached.kind = t.kind := by
  unfold detached; split <;> rfl

@[simp] theorem text_detached (t : Token) : t.detached.text = t.text := by
  unfold detached; split <;> rfl

@[simp] theorem location_detached (t : Token) : t.detached.location = t.location := by
  unfold detached; split <;> rfl

/-- Line breaks and comments are white space to definitions and arguments. -/
def isLayout (t : Token) : Bool := t.kind = .eol || t.kind = .comment

theorem isLayout_eq_true {t : Token} : t.isLayout = true ↔ t.kind = .eol ∨ t.kind = .comment := by
  simp [isLayout]

theorem isLayout_eq_false {t : Token} :
    t.isLayout = false ↔ t.kind ≠ .eol ∧ t.kind ≠ .comment := by
  simp [isLayout]

end Token

end TextMacros
