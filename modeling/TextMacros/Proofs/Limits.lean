import Mathlib
import TextMacros.Processing
import TextMacros.Proofs.Runs

/-!
# Limits

A limit cuts an expansion off where it would nest too deep, and does nothing
else. What ends within a limit, with tokens or with another error, ends in
the same way under every larger limit. What is cut off has left behind the
first part of what a larger limit leaves behind.
-/

set_option autoImplicit false

namespace TextMacros

def Processed.CutOff (p : Processed) : Prop :=
  ∃ location name limit, p.failure = some (.recursionLimit location name limit)

section
variable {r : Registry} {limit limit' : Int}

/-- A run that its limit does not stop is one under every larger limit. -/
theorem Expands.deeper (hl : limit ≤ limit') {depth : Int} {g : Guard} {afterSplice : Bool}
    {ts : List Token} {x : Except Error (List Token)}
    (h : Expands r (some limit) depth g afterSplice ts x)
    (hx : ∀ location name most, x ≠ .error (.recursionLimit location name most)) :
    Expands r (some limit') depth g afterSplice ts x := by
  generalize hm : some limit = most at h
  -- A failure of a part is one of the whole, so no part is stopped either.
  induction h with
  | done => exact .done
  | fault hi => exact .fault hi
  | keep hi hr ih =>
    refine .keep hi (ih ?_)
    rintro location name most rfl
    exact hx location name most rfl
  | tooDeep => exact absurd rfl (hx _ _ _)
  | abort hi hd hn ih =>
    have := hd limit hm.symm
    refine .abort hi ?_ (ih hx)
    rintro most ⟨⟩
    omega
  | splice hi hd hn hr ihn ihr =>
    have := hd limit hm.symm
    refine .splice hi ?_ (ihn (by simp)) (ihr ?_)
    · rintro most ⟨⟩
      omega
    · rintro location name most rfl
      exact hx location name most rfl

theorem expand_deeper (hl : limit ≤ limit') (r : Registry) (depth : Int) (g : Guard)
    (ts : List Token) :
    (∃ location name most,
      (expand r limit depth g ts).result = .error (.recursionLimit location name most)) ∨
    expand r limit' depth g ts = expand r limit depth g ts := by
  by_cases hx : ∃ location name most,
      (expand r limit depth g ts).result = .error (.recursionLimit location name most)
  · exact .inl hx
  · right
    have hrun := (expands_expand r limit depth g ts).deeper hl fun location name most h =>
      hx ⟨location, name, most, h⟩
    have hresult := (expands_expand r limit' depth g ts).unique hrun
    have hguard : (expand r limit' depth g ts).guard = (expand r limit depth g ts).guard := by
      rw [guard_expand, guard_expand]
    exact (Expanded.mk.injEq ..).mpr ⟨hresult, hguard⟩

end

namespace Processed

/-- The first is the same as the second, or it was cut off on the way there. -/
structure StopsShort (p q : Processed) : Prop where
  same : ¬ p.CutOff → q = p
  tokens : p.tokens <+: q.tokens
  redefinitions : p.redefinitions <+: q.redefinitions

namespace StopsShort

theorem refl (p : Processed) : p.StopsShort p :=
  ⟨fun _ => rfl, List.prefix_rfl, List.prefix_rfl⟩

theorem of_cutOff {p : Processed} (h : p.CutOff) (ht : p.tokens = []) (hr : p.redefinitions = [])
    (q : Processed) : p.StopsShort q :=
  ⟨fun hn => absurd h hn, ht ▸ List.nil_prefix, hr ▸ List.nil_prefix⟩

theorem after {p q : Processed} (h : p.StopsShort q) (ts : List Token) (rs : List Redefinition) :
    (p.after ts rs).StopsShort (q.after ts rs) where
  same hn := congrArg (Processed.after ts rs) (h.same hn)
  tokens := (List.prefix_append_right_inj ts).mpr h.tokens
  redefinitions := (List.prefix_append_right_inj rs).mpr h.redefinitions

end StopsShort

theorem ofExpanded_stopsShort {limit limit' : Int} (hl : limit ≤ limit') (r q : Registry)
    (depth : Int) (g : Guard) (ts : List Token) :
    (ofExpanded q (expand r limit depth g ts)).StopsShort
      (ofExpanded q (expand r limit' depth g ts)) := by
  rcases expand_deeper hl r depth g ts with ⟨location, name, most, hx⟩ | hsame
  · simp only [ofExpanded, hx]
    exact .of_cutOff ⟨location, name, most, rfl⟩ rfl rfl _
  · rw [hsame]
    exact .refl _

end Processed

theorem Chunks.process_stopsShort {limit limit' : Int} (hl : limit ≤ limit') (cs : Chunks)
    (failure : Option Error) (r : Registry) (g : Guard) :
    (cs.process limit failure r g).StopsShort (cs.process limit' failure r g) := by
  induction cs generalizing r g with
  | last chunk =>
    cases failure with
    | some e => exact .refl _
    | none => exact Processed.ofExpanded_stopsShort hl r r 0 g chunk
  | cut chunk d lineBreak rest ih =>
    rcases expand_deeper hl r 0 g chunk with ⟨location, name, most, hx⟩ | hsame
    · simp only [Chunks.process, hx]
      exact .of_cutOff ⟨location, name, most, rfl⟩ rfl rfl _
    · simp only [Chunks.process, hsame]
      split
      · exact .refl _
      split
      · exact .refl _
      · exact (ih _ _).after _ _

/-- A larger limit makes no difference to a text that is not cut off: the same tokens and the same
redefinitions, the same error if there is one, and the same registry at the end. One that is cut
off has written, and reported, nothing but what the larger limit writes and reports first. -/
theorem process_deeper {limit limit' : Int} (hl : limit ≤ limit') (directives : Bool) (r : Registry)
    (g : Guard) (s : TokenStream) :
    (¬ (process ⟨limit, directives⟩ r g s).CutOff →
      process ⟨limit', directives⟩ r g s = process ⟨limit, directives⟩ r g s) ∧
    (process ⟨limit, directives⟩ r g s).tokens <+: (process ⟨limit', directives⟩ r g s).tokens ∧
    (process ⟨limit, directives⟩ r g s).redefinitions <+:
      (process ⟨limit', directives⟩ r g s).redefinitions := by
  have hshort : (process ⟨limit, directives⟩ r g s).StopsShort
      (process ⟨limit', directives⟩ r g s) := by
    unfold process
    cases directives with
    | true => exact Chunks.process_stopsShort hl _ s.failure r g
    | false =>
      cases s.failure with
      | some e => exact .refl _
      | none => exact Processed.ofExpanded_stopsShort hl r r 0 g s.tokens
  exact ⟨hshort.same, hshort.tokens, hshort.redefinitions⟩

def nestedSample : Registry :=
  let spaced (kind : TokenKind) (text : Text) : Token := ⟨kind, text, .definition, some true⟩
  ⟨[⟨"N", none, [spaced .identifier "M"], .definition⟩,
    ⟨"M", none, [spaced .number "1"], .definition⟩]⟩

/-- `N` needs two levels; below it `M` gets another definition, which it does not fit any more. -/
def nestedText : TokenStream := lexText .text "N\n#define M() 2\nN M(3)"

theorem process_deeper_sample :
    (2 : Int) ≤ 3 ∧ ¬ (process ⟨2, true⟩ nestedSample [] nestedText).CutOff ∧
      process ⟨3, true⟩ nestedSample [] nestedText = process ⟨2, true⟩ nestedSample [] nestedText ∧
      (process ⟨3, true⟩ nestedSample [] nestedText).failure =
        some (.argumentCount ⟨2, 2, .text⟩ "M" 0 1) ∧
      (process ⟨1, true⟩ nestedSample [] nestedText).CutOff := by
  have hf : (process ⟨2, true⟩ nestedSample [] nestedText).failure =
      some (.argumentCount ⟨2, 2, .text⟩ "M" 0 1) := by cbv
  have hc : (process ⟨1, true⟩ nestedSample [] nestedText).failure =
      some (.recursionLimit ⟨0, 0, .definition⟩ "M" 1) := by cbv
  have hn : ¬ (process ⟨2, true⟩ nestedSample [] nestedText).CutOff := by
    rintro ⟨location, name, limit, h⟩
    simp [hf] at h
  have hle : (2 : Int) ≤ 3 := by decide
  have hsame := (process_deeper hle true nestedSample [] nestedText).1 hn
  exact ⟨hle, hn, hsame, hsame ▸ hf, _, _, _, hc⟩

end TextMacros
