import TextMacros.Proofs.Chunking

/-!
# What processing keeps

A property of registries that the directives of a text keep, and one of lists
of tokens that expansion under such a registry brings about, carry over to
all that processing the text leaves behind.
-/

set_option autoImplicit false

namespace TextMacros

/-- `I` is kept by the directives of `t`, and `Q` holds of each stretch of its
tokens before and after an expansion. -/
structure Keeps (depth : Int) (t : Text) (I : Registry → Prop) (Q : List Token → Prop) : Prop where
  append : ∀ {ts us}, Closed ts → Q ts → Q us → Q (ts ++ us)
  read : ∀ {ts}, ts <:+: (lexText .text t).tokens → Q ts
  expands : ∀ {r ts us}, I r → ts <:+: (lexText .text t).tokens →
    Expands r (some depth) 0 [] false ts (.ok us) → Q us
  obeys : ∀ {r q line d ts d' redefinition}, I r → line ∈ t.lines → directive? line = some d →
    ts <:+: (lexText .text t).tokens → Directive.ofLine? ts = some d' → d'.Moved d →
    d'.apply r = .ok (q, redefinition) → I q

namespace Keeps
variable {depth : Int} {t : Text} {I : Registry → Prop} {Q : List Token → Prop}

theorem expanded (k : Keeps depth t I Q) {r : Registry} {ts us : List Token} (hr : I r)
    (hts : ts <:+: (lexText .text t).tokens) (h : (expand r depth 0 [] ts).result = .ok us) :
    Q us := by
  have hrun := expands_expand r depth 0 [] ts
  rw [h] at hrun
  exact k.expands hr hts hrun

theorem chunks (k : Keeps depth t I Q) {ls : List Text} {p : Passages}
    (hd : Passages.Divides ls p) (h : Text.AreLines ls) (hw : ∀ l ∈ ls, Text.WellFormed l)
    (hm : ∀ l ∈ ls, l ∈ t.lines) {row : Int}
    (hs : (lexRows .text row ls).tokens <:+: (lexText .text t).tokens) {r : Registry} (hr : I r)
    (hf : ((Chunks.ofLines (tokenLines (lexRows .text row ls).tokens)).process depth none r
      []).failure = none) :
    Q ((Chunks.ofLines (tokenLines (lexRows .text row ls).tokens)).process depth none r
      []).tokens := by
  induction hd generalizing row r with
  | @last run hn =>
    rw [ofLines_last h hw hn, Chunks.process] at hf ⊢
    exact k.expanded hr hs (Processed.failure_ofExpanded hf)
  | @cut run line rest p d hn hd hp ih =>
    obtain ⟨hrun, hbelow, hended⟩ := h.of_append
    have hwrun : ∀ l ∈ run, Text.WellFormed l := fun l hl => hw l (by simp [hl])
    have hwline : line.WellFormed := hw line (by simp)
    have hwrest : ∀ l ∈ rest, Text.WellFormed l := fun l hl => hw l (by simp [hl])
    obtain ⟨d', hd', hmoved⟩ : ∃ d',
        Directive.ofLine? (lexRow .text (row + run.length) line).tokens = some d' ∧ d'.Moved d :=
      directive_lexRow hbelow.head hwline hd
    rw [ofLines_cut h hw hn hd'] at hf ⊢
    obtain ⟨ts, q, redefinition, hx, ha, hrest, htokens⟩ := Chunks.process_cut_ok hf
    -- The run, the directive line and the lines below it follow one another.
    rw [lexRows_append hwrun, lexRows_cons hwline] at hs
    have hsrun : (lexRows .text row run).tokens <:+: (lexText .text t).tokens :=
      (List.infix_append' [] _ _).trans hs
    have hsline : (lexRow .text (row + run.length) line).tokens <:+: (lexText .text t).tokens :=
      .trans (by simp) hs
    have hsrest : (lexRows .text (row + run.length + 1) rest).tokens <:+:
        (lexText .text t).tokens :=
      .trans (by simpa using List.infix_append (_ ++ _) _ []) hs
    have hsbreak : rowBreak .text (row + run.length) line <:+: (lexText .text t).tokens := by
      rw [lexRow_eq hwline] at hsline
      exact (List.suffix_append _ _).isInfix.trans hsline
    have hclosed : Closed ts := by
      have hts := expands_expand r depth 0 [] (lexRows .text row run).tokens
      rw [hx] at hts
      exact hts.closed (closed_lexRows hwrun (hended (by simp)))
    have hq : I q := k.obeys hr (hm line (by simp)) hd hsline hd' hmoved ha
    rw [htokens]
    refine k.append (hclosed.append (closed_rowBreak _ _ _)) ?_ ?_
    · exact k.append hclosed (k.expanded hr hsrun hx) (k.read hsbreak)
    · exact ih hbelow.tail hwrest (fun l hl => hm l (by simp [hl])) hsrest hq hrest

theorem processed {c : Config} (k : Keeps c.depth t I Q) (ht : t.WellFormed) {r : Registry}
    (hr : I r) (hp : (process c r [] (lexText .text t)).failure = none) :
    Q (process c r [] (lexText .text t)).tokens := by
  have hfail : (lexText .text t).failure = none := lexRows_failure ht.lines
  rw [process, hfail] at hp ⊢
  by_cases hd : c.directives
  · rw [if_pos hd] at hp ⊢
    exact k.chunks (Passages.divides_ofLines t.lines) (Text.areLines_lines t) ht.lines
      (fun _ hl => hl) List.infix_rfl hr hp
  · rw [if_neg hd] at hp ⊢
    exact k.expanded hr List.infix_rfl (Processed.failure_ofExpanded hp)

end Keeps

end TextMacros
