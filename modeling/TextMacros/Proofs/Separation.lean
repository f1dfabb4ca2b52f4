import Mathlib
import TextMacros.Proofs.ReadBack

/-!
# Separation

The writer looks at two neighbours at a time, the reader at a whole line. Yet
tokens that are each read as themselves when they stand alone are read back
from a text as soon as no two neighbours merge, however many of them touch.
-/

set_option autoImplicit false

namespace TextMacros

/-- The text of the token, read as a text of its own, is this one token. -/
def Token.ReadsAlone (t : Token) : Prop :=
  ∃ u, (lexText .text t.text).toExcept = .ok [u] ∧ u.word = t.word

namespace Token
variable {t : Token}

/-- A token that is read alone is a token of some text. -/
theorem ReadsAlone.writable (h : t.ReadsAlone) (hq : ¬IsStray t.kind t.text) :
    Writable t.kind t.text := by
  obtain ⟨u, hu, hw⟩ := h
  obtain ⟨hts, -⟩ := TokenStream.toExcept_eq_ok.mp hu
  obtain ⟨hk, hx⟩ := Prod.mk.inj hw
  have hmem : u ∈ (lexText .text t.text).tokens := by simp [hts]
  have hwritable : ¬IsStray u.kind u.text → Writable u.kind u.text :=
    writable_lexText .text t.text u hmem
  rw [hk, hx] at hwritable
  exact hwritable hq

theorem writable_of_break (h : t.word = (.eol, [CodePoint.lineFeed])) : Writable t.kind t.text :=
  .inl (Prod.mk.inj h)

end Token

/-- Tokens that each stand for themselves, with nothing behind a comment on its
line, are read back exactly if no two neighbours merge that are written
without a space. -/
theorem readsBack_iff_pairwise {ts : List Token}
    (ht : ∀ t ∈ ts, t.word = (.eol, [CodePoint.lineFeed]) ∨ t.ReadsAlone)
    (hq : ∀ t ∈ ts, t.kind = .punctuation →
      t.text ≠ [CodePoint.doubleQuote] ∧ t.text ≠ [CodePoint.singleQuote])
    (hc : ts.IsChain Token.EndsComment) : ReadsBack ts ↔ ts.IsChain Token.Apart := by
  have hw : Throughout Writable ts := by
    intro t hmem
    have hstray : ¬IsStray t.kind t.text := by
      rintro ⟨hk, htext⟩
      obtain ⟨hd, hs⟩ := hq t hmem hk
      exact htext.elim hd hs
    cases ht t hmem with
    | inl hb => exact Token.writable_of_break hb
    | inr ha => exact ha.writable hstray
  exact readsBack_iff hw hc

/-- Two numbers around a dot, and a slash between a string and a comment. -/
def separationSample : List Token :=
  [⟨.number, "1", ⟨0, 0, .text⟩, some false⟩, ⟨.punctuation, ".", ⟨0, 0, .definition⟩, none⟩,
    ⟨.number, "2", ⟨0, 9, .text⟩, none⟩, ⟨.string, "\"//\"", ⟨0, 1, .text⟩, some false⟩,
    ⟨.punctuation, "/", ⟨3, 0, .text⟩, some false⟩, ⟨.comment, "// c", ⟨0, 4, .text⟩, none⟩,
    ⟨.eol, "\n", ⟨0, 0, .text⟩, some false⟩, ⟨.identifier, "x", ⟨1, 0, .text⟩, some true⟩]

theorem readsBack_iff_pairwise_sample :
    (∀ t ∈ separationSample, t.word = (.eol, [CodePoint.lineFeed]) ∨ t.ReadsAlone) ∧
      (∀ t ∈ separationSample, t.kind = .punctuation →
        t.text ≠ [CodePoint.doubleQuote] ∧ t.text ≠ [CodePoint.singleQuote]) ∧
      separationSample.IsChain Token.EndsComment ∧ separationSample.IsChain Token.Apart ∧
      ReadsBack separationSample := by
  have ha : ∀ t ∈ separationSample, t.word = (.eol, [CodePoint.lineFeed]) ∨ t.ReadsAlone := by
    simp only [separationSample, List.forall_mem_cons]
    refine ⟨.inr ⟨_, by cbv, by cbv⟩, .inr ⟨_, by cbv, by cbv⟩, .inr ⟨_, by cbv, by cbv⟩,
      .inr ⟨_, by cbv, by cbv⟩, .inr ⟨_, by cbv, by cbv⟩, .inr ⟨_, by cbv, by cbv⟩, .inl (by cbv),
      .inr ⟨_, by cbv, by cbv⟩, by simp⟩
  have hq : ∀ t ∈ separationSample, t.kind = .punctuation →
      t.text ≠ [CodePoint.doubleQuote] ∧ t.text ≠ [CodePoint.singleQuote] := by decide
  have hc : separationSample.IsChain Token.EndsComment := by
    simp [separationSample, Token.EndsComment]
  have hs : separationSample.IsChain Token.Apart := by
    have hstring : Token.wouldMerge ⟨.number, "2", ⟨0, 9, .text⟩, none⟩
        ⟨.string, "\"//\"", ⟨0, 1, .text⟩, some false⟩ = .ok false := by cbv
    have hslash : Token.wouldMerge ⟨.string, "\"//\"", ⟨0, 1, .text⟩, some false⟩
        ⟨.punctuation, "/", ⟨3, 0, .text⟩, some false⟩ = .ok false := by cbv
    simp [separationSample, Token.Apart, hstring, hslash]
  exact ⟨ha, hq, hc, hs, (readsBack_iff_pairwise ha hq hc).mpr hs⟩

end TextMacros
