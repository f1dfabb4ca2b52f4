import TextMacros.Proofs.Likeness

/-!
# Relabelling

Of the texts of tokens only those of identifiers are read when macros are
expanded, and no places are. All other tokens may get other texts, and all
tokens other places, before or after an expansion: that makes no difference.
What a literal or a comment holds is never taken for a name, a parenthesis or
a comma.
-/

set_option autoImplicit false

namespace TextMacros

/-- New texts for all tokens that are no identifiers, and new places for all tokens. -/
structure Relabeling where
  text : TokenKind → Text → Location → Text
  place : TokenKind → Text → Location → Location

namespace Relabeling
variable (g : Relabeling)

def token (t : Token) : Token where
  kind := t.kind
  text := if t.kind = .identifier then t.text else g.text t.kind t.text t.location
  location := g.place t.kind t.text t.location
  spaced := t.spaced

def tokens (ts : List Token) : List Token := ts.map g.token

def definition (m : Macro) : Macro := { m with body := g.tokens m.body }

def registry (r : Registry) : Registry := ⟨r.macros.map g.definition⟩

/-- An expansion fails at a name, which is an identifier. -/
def failure : Error → Error
  | .unterminatedInvocation location name =>
    .unterminatedInvocation (g.place .identifier name location) name
  | .argumentCount location name expected actual =>
    .argumentCount (g.place .identifier name location) name expected actual
  | .recursionLimit location name limit =>
    .recursionLimit (g.place .identifier name location) name limit
  | e => e

def result : Except Error (List Token) → Except Error (List Token)
  | .ok ts => .ok (g.tokens ts)
  | .error e => .error (g.failure e)

/-- The second token is what becomes of the first one. -/
def Gives (t u : Token) : Prop := u = g.token t

theorem likeness_gives : Likeness g.Gives where
  kind h := h ▸ rfl
  name h hk := by
    rw [h, token, if_pos hk]
  spaced h := h ▸ rfl
  withSpacing spaced h := congrArg (Token.withSpacing · spaced) h

theorem gives_tokens (ts : List Token) : List.Forall₂ g.Gives ts (g.tokens ts) := by
  induction ts with
  | nil => exact .nil
  | cons t ts ih => exact .cons rfl ih

theorem eq_tokens {ts us : List Token} (h : List.Forall₂ g.Gives ts us) : us = g.tokens ts := by
  induction h with
  | nil => rfl
  | cons h hs ih => rw [h, ih, tokens, tokens, List.map_cons]

theorem lookup_registry (r : Registry) (name : Text) :
    (g.registry r).lookup name = (r.lookup name).map g.definition :=
  List.find?_map

theorem registry_like (r : Registry) : r.Like g.Gives (g.registry r) := by
  intro name
  rw [lookup_registry]
  cases r.lookup name with
  | none => exact .none
  | some m => exact .some ⟨rfl, rfl, g.gives_tokens m.body⟩

theorem location_of_gives {t u : Token} (h : g.Gives t u) (hk : t.kind = .identifier) :
    u.location = g.place .identifier t.text t.location := by
  rw [h, ← hk]
  rfl

/-- The place of a failure is that of the name it concerns. -/
theorem eq_failure {e f : Error} (h : FailsLike g.Gives e f) : f = g.failure e := by
  cases h with
  | unterminated h hk | argumentCount h hk | recursionLimit h hk =>
    rw [failure, g.location_of_gives h hk]

theorem eq_result {x y : Except Error (List Token)}
    (h : Agree (FailsLike g.Gives) (List.Forall₂ g.Gives) x y) : y = g.result x := by
  cases h with
  | ok h => exact congrArg Except.ok (g.eq_tokens h)
  | error h => exact congrArg Except.error (g.eq_failure h)

end Relabeling

/-- A relabelled list expands, under relabelled bodies, to the relabelled expansion, or fails for
the same reason, with the same name and the same numbers, at the new place of that name. -/
theorem expand_relabeled (g : Relabeling) (r : Registry) (limit depth : Int) (guard : Guard)
    (ts : List Token) :
    (expand (g.registry r) limit depth guard (g.tokens ts)).result =
      g.result (expand r limit depth guard ts).result := by
  have hrun := expands_expand r limit depth guard ts
  obtain ⟨y, hy, hxy⟩ := hrun.like g.likeness_gives (g.registry_like r) (g.gives_tokens ts)
  have hsame := (expands_expand (g.registry r) limit depth guard (g.tokens ts)).unique hy
  rw [hsame]
  exact g.eq_result hxy

end TextMacros
