import TextMacros.Proofs.Edges
import TextMacros.Proofs.Likeness
import TextMacros.Token.Rendering

/-!
# Writing tokens

What is written depends neither on places nor on the space before the first
token, and a list can be written in two parts where a line break ends the first.
-/

set_option autoImplicit false

namespace TextMacros

theorem Token.needsSpace_moved {p q t u : Token} (hk : p.kind = q.kind) (hx : p.text = q.text)
    (h : t.Moved u) : p.needsSpace t = q.needsSpace u := by
  simp only [needsSpace, wouldMerge, alike, hk, hx, h.kind, h.text, h.spaced]

theorem renderAfter_moved {p q : Token} (hk : p.kind = q.kind) (hx : p.text = q.text)
    {ts us : List Token} (h : List.Forall₂ Token.Moved ts us) :
    renderAfter p ts = renderAfter q us := by
  induction h generalizing p q with
  | nil => rfl
  | cons h hs ih =>
    rw [renderAfter, renderAfter, Token.needsSpace_moved hk hx h, ih h.kind h.text, h.text]

theorem render_moved {ts us : List Token} (h : List.Forall₂ Token.Moved ts us) :
    render ts = render us := by
  cases h with
  | nil => rfl
  | cons h hs => rw [render, render, renderAfter_moved h.kind h.text hs, h.text]

theorem render_respace (s : Option Bool) (ts : List Token) :
    render (respace s ts) = render ts := by
  cases ts with
  | nil => rfl
  | cons t ts =>
    have hs : List.Forall₂ Token.Moved ts ts := List.forall₂_same.mpr fun u _ => .rfl
    have ht : renderAfter (t.withSpacing s) ts = renderAfter t ts :=
      renderAfter_moved (p := t.withSpacing s) (q := t) rfl rfl hs
    simp only [respace, render, ht]
    rfl

theorem renderAfter_break {p : Token} (hk : p.kind = .eol) (ts : List Token) :
    renderAfter p ts = render ts := by
  cases ts with
  | nil => rfl
  | cons t ts =>
    simp only [renderAfter, render, Token.needsSpace, hk, true_or, if_true]
    rfl

theorem renderAfter_append_break {e : Token} (he : e.kind = .eol) (p : Token)
    (front ts : List Token) :
    renderAfter p (front ++ e :: ts) = (do
      let above ← renderAfter p front
      let below ← render ts
      return above ++ (e.text ++ below)) := by
  induction front generalizing p with
  | nil =>
    simp only [List.nil_append, renderAfter, Token.needsSpace, he, or_true, if_true,
      renderAfter_break he]
    cases render ts <;> rfl
  | cons t front ih =>
    simp only [List.cons_append, renderAfter, ih]
    cases p.needsSpace t with
    | error e => rfl
    | ok space =>
      cases renderAfter t front with
      | error e => rfl
      | ok above => cases render ts <;> simp [bind, Except.bind, pure, Except.pure]

/-- What stands above a line break is written without looking below it. -/
theorem render_append_break {e : Token} (he : e.kind = .eol) (front ts : List Token) :
    render (front ++ e :: ts) = (do
      let above ← render front
      let below ← render ts
      return above ++ (e.text ++ below)) := by
  cases front with
  | nil =>
    simp only [List.nil_append, render, renderAfter_break he]
    cases render ts <;> rfl
  | cons t front =>
    rw [List.cons_append, render, render, renderAfter_append_break he]
    cases renderAfter t front with
    | error e => rfl
    | ok above => cases render ts <;> simp [bind, Except.bind, pure, Except.pure]

theorem render_append_closed {ts : List Token} (h : Closed ts) (us : List Token) :
    render (ts ++ us) = (do
      let above ← render ts
      let below ← render us
      return above ++ below) := by
  obtain rfl | ⟨front, e, rfl, he⟩ := h
  · rw [List.nil_append]
    cases render us <;> rfl
  · rw [List.append_assoc, List.singleton_append, render_append_break he, render_append_break he]
    cases render front with
    | error e => rfl
    | ok above => cases hu : render us <;> simp [bind, Except.bind, pure, Except.pure, render]

end TextMacros
