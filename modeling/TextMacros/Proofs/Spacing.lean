import TextMacros.Proofs.Runs

/-!
# Tokens but for their spacing

Expansion gives tokens other spaces before them, and changes nothing else of
a token. The lists that it works on are compared here without these spaces.
-/

set_option autoImplicit false

namespace TextMacros

/-- A token with its kind, its text and its place only. -/
def Token.bare (t : Token) : Token := t.withSpacing none

def bare (ts : List Token) : List Token := ts.map Token.bare

namespace Token

@[simp] theorem bare_withSpacing (t : Token) (spaced : Option Bool) :
    (t.withSpacing spaced).bare = t.bare := rfl

@[simp] theorem bare_placed (afterSplice : Bool) (t : Token) :
    (t.placed afterSplice).bare = t.bare := by
  cases afterSplice with
  | false => rfl
  | true =>
    simp only [placed, if_true, detached]
    split <;> rfl

@[simp] theorem isLayout_bare (t : Token) : t.bare.isLayout = t.isLayout := rfl

end Token

@[simp] theorem bare_nil : bare [] = [] := rfl

@[simp] theorem bare_cons (t : Token) (ts : List Token) : bare (t :: ts) = t.bare :: bare ts := rfl

@[simp] theorem bare_append (ts us : List Token) : bare (ts ++ us) = bare ts ++ bare us :=
  List.map_append

@[simp] theorem bare_respace (spaced : Option Bool) (ts : List Token) :
    bare (respace spaced ts) = bare ts := by
  cases ts <;> rfl

end TextMacros
