import Mathlib
import TextMacros.Proofs.Layout
import TextMacros.Proofs.Spacing

/-!
# Outside of invocations

The outermost scan cuts a list into tokens that stay and invocations that are
replaced. What replaces an invocation holds no line breaks and no comments, so
those of the result are the ones that stand between the invocations, each of
them once and in their order.
-/

set_option autoImplicit false

namespace TextMacros

/-- A token that stays, or an invocation with all the tokens that belong to it. -/
inductive Piece where
  | kept (t : Token)
  | replaced (i : Invocation) (span : List Token)

namespace Piece

def tokens : Piece → List Token
  | kept t => [t]
  | replaced _ span => span

def outside : Piece → List Token
  | kept t => [t]
  | replaced _ _ => []

end Piece

/-- The outermost scan; what replaces an invocation is not scanned here. -/
def pieces (r : Registry) (g : Guard) : List Token → List Piece
  | [] => []
  | t :: rest =>
    match invocation? r g t rest with
    | .ok (some i) =>
      .replaced i (t :: rest.take i.following) :: pieces r g (rest.drop i.following)
    | _ => .kept t :: pieces r g rest
  termination_by ts => ts.length
  decreasing_by all_goals simp only [List.length_cons, List.length_drop]; omega

section
variable {r : Registry} {g : Guard} {t : Token} {rest : List Token}

theorem pieces_some {i : Invocation} (h : invocation? r g t rest = .ok (some i)) :
    pieces r g (t :: rest) =
      .replaced i (t :: rest.take i.following) :: pieces r g (rest.drop i.following) := by
  rw [pieces, h]

theorem pieces_none (h : ∀ i, invocation? r g t rest ≠ .ok (some i)) :
    pieces r g (t :: rest) = .kept t :: pieces r g rest := by
  rw [pieces]
  split
  next i hi => exact absurd hi (h i)
  next => rfl

/-- The pieces are the whole list. -/
theorem flatMap_tokens_pieces (r : Registry) (g : Guard) (ts : List Token) :
    (pieces r g ts).flatMap Piece.tokens = ts := by
  induction ts using pieces.induct r g with
  | case1 => rw [pieces]; rfl
  | case2 t rest i hi ih =>
    rw [pieces_some hi, List.flatMap_cons, ih]
    simp [Piece.tokens]
  | case3 t rest hi ih =>
    rw [pieces_none hi, List.flatMap_cons, ih]
    rfl

/-- The tokens of a list that belong to no invocation. -/
def outside (r : Registry) (g : Guard) (ts : List Token) : List Token :=
  (pieces r g ts).flatMap Piece.outside

theorem outside_some {i : Invocation} (h : invocation? r g t rest = .ok (some i)) :
    outside r g (t :: rest) = outside r g (rest.drop i.following) := by
  rw [outside, pieces_some h]
  rfl

theorem outside_none (h : invocation? r g t rest = .ok none) :
    outside r g (t :: rest) = t :: outside r g rest := by
  rw [outside, pieces_none (by simp [h])]
  rfl

end

def layout (ts : List Token) : List Token := ts.filter Token.isLayout

@[simp] theorem layout_append (ts us : List Token) : layout (ts ++ us) = layout ts ++ layout us :=
  List.filter_append ..

theorem layout_of_solid {ts : List Token} (h : Throughout Solid ts) : layout ts = [] := by
  apply List.filter_eq_nil_iff.mpr
  intro t ht
  simpa using Token.isLayout_eq_false.mpr (h t ht)

theorem bare_layout (ts : List Token) : bare (layout ts) = layout (bare ts) := by
  unfold bare layout
  rw [List.filter_map]
  rfl

/-- Replacements bring no layout with them, and take away what stands in the invocations only. -/
theorem Expands.layout_outside {r : Registry} (hr : r.Solid) {limit : Option Int} {depth : Int}
    {g : Guard} {afterSplice : Bool} {ts us : List Token}
    (h : Expands r limit depth g afterSplice ts (.ok us)) :
    bare (layout us) = bare (layout (outside r g ts)) := by
  generalize hx : Except.ok us = x at h
  induction h generalizing us with
  | done =>
    cases hx
    rw [outside, pieces]
    rfl
  | fault | tooDeep | abort => cases hx
  | @keep depth g afterSplice t rest x hi hrest ih =>
    obtain ⟨vs, rfl, rfl⟩ := map_eq_ok.mp hx.symm
    have hkept : bare (layout [t.placed afterSplice]) = bare (layout [t]) := by
      rw [bare_layout, bare_layout]
      simp
    rw [outside_none hi, ← List.singleton_append (x := t), layout_append, layout_append,
      bare_append, bare_append, hkept, ih rfl]
  | splice hi hd hn hrest ihn ihr =>
    obtain ⟨vs, rfl, rfl⟩ := map_eq_ok.mp hx.symm
    obtain ⟨-, -, hf⟩ := found_of_invocation? hi
    have hbody := (nested_solid hr hf hn).respace
    rw [outside_some hi, layout_append, layout_of_solid (hbody _)]
    exact ihr rfl

/-- The outermost scan cuts a list into the invocations that are replaced and the tokens that
stay. The line breaks and the comments of the result are those that stay, in their order, but for
the spaces before them; and nothing follows a comment on its line if nothing did before. -/
theorem expand_keeps_layout (r : Registry) (hr : r.Solid) (limit depth : Int) (g : Guard)
    (ts us : List Token) (h : (expand r limit depth g ts).result = .ok us) :
    (pieces r g ts).flatMap Piece.tokens = ts ∧
    bare (layout us) = bare (layout (outside r g ts)) ∧
    (ts.IsChain Token.EndsComment → us.IsChain Token.EndsComment) := by
  have hrun : Expands r (some limit) depth g false ts (.ok us) :=
    h ▸ expands_expand r limit depth g ts
  exact ⟨flatMap_tokens_pieces r g ts, hrun.layout_outside hr, hrun.endsComments hr⟩

/-- `F` writes its argument twice, and `N` is replaced by nothing. -/
def doublingSample : Registry :=
  let spaced (kind : TokenKind) (text : Text) : Token := ⟨kind, text, .definition, some true⟩
  ⟨[⟨"F", some ["x"], [spaced .identifier "x", spaced .identifier "x"], .definition⟩,
    ⟨"N", none, [], .definition⟩]⟩

theorem doublingSample_solid : doublingSample.Solid :=
  Registry.forall_lookup (by simp [doublingSample, Throughout, Solid])

def spreadCall : List Token := (lexText .text "N // a\nF\n(1 // b\n2) // c").tokens

/-- A comment and two line breaks belong to the call of `F`. -/
theorem expand_keeps_layout_sample :
    doublingSample.Solid ∧ spreadCall.IsChain Token.EndsComment ∧
      ∃ us, (expand doublingSample 1 0 [] spreadCall).result = .ok us ∧
        us.map Token.text = (["// a", "\n", "1", "2", "1", "2", "// c"] : List Text) ∧
        (pieces doublingSample [] spreadCall).flatMap Piece.tokens = spreadCall ∧
        bare (layout us) = bare (layout (outside doublingSample [] spreadCall)) ∧
        us.IsChain Token.EndsComment := by
  have hkinds : spreadCall.map Token.kind = [.identifier, .comment, .eol, .identifier, .eol,
      .lparen, .number, .comment, .eol, .number, .rparen, .comment] := by cbv
  have hchain : spreadCall.IsChain Token.EndsComment := by
    have hmap : (spreadCall.map Token.kind).IsChain fun a b => a = .comment → b = .eol := by
      rw [hkinds]
      simp
    exact (List.isChain_map Token.kind).mp hmap
  have hx : (expand doublingSample 1 0 [] spreadCall).result.map (List.map Token.text) =
      .ok (["// a", "\n", "1", "2", "1", "2", "// c"] : List Text) := by cbv
  obtain ⟨us, hus, htexts⟩ := map_eq_ok.mp hx
  obtain ⟨hpieces, hlayout, hends⟩ :=
    expand_keeps_layout doublingSample doublingSample_solid 1 0 [] spreadCall us hus
  exact ⟨doublingSample_solid, hchain, us, hus, htexts, hpieces, hlayout, hends hchain⟩

end TextMacros
