import Mathlib
import TextMacros.Proofs.Chunking

/-!
# Directives refine expansion

One pass over a text, with a registry that changes between chunks, yields
what its passages yield when each of them is read and expanded alone.
-/

set_option autoImplicit false

namespace TextMacros

theorem expandInput_text {c : Config} (h : c.fault? = none) (r : Registry) (t : Text) :
    (expandInput r c (.text t)).result =
      (process c r [] (lexText .text t)).written.mapError .text := by
  simp [expandInput, h, Input.decode]

section
variable {r q : Registry} {depth row : Int} {run : List Text}

/-- The text of a run that stands alone. -/
theorem expandInput_run (hc : Config.fault? ⟨depth, false⟩ = none) (h : Text.AreLines run)
    (hw : ∀ l ∈ run, Text.WellFormed l) :
    (expandInput q ⟨depth, false⟩ (.text run.flatten)).result =
      ((expand q depth 0 [] (lexRows .text 0 run).tokens).result >>= render).mapError .text := by
  rw [expandInput_text hc, lexText_flatten h, process, if_neg (by simp), lexRows_failure hw]
  exact congrArg (Except.mapError Failure.text) (written_ofExpanded _ _)

/-- A run expands alike in its place and alone. -/
theorem expand_displaced (hrow : 0 ≤ row) (hr : r.Like Token.Moved q)
    (hw : ∀ l ∈ run, Text.WellFormed l) :
    Agree Error.SameCause Eq
      ((expand r depth 0 [] (lexRows .text row run).tokens).result >>= render)
      ((expand q depth 0 [] (lexRows .text 0 run).tokens).result >>= render) := by
  obtain ⟨s, hs⟩ : Shifted (lexRows .text row run).tokens (lexRows .text 0 run).tokens :=
    lexRows_shifted hrow (by omega) hw
  obtain ⟨s', hrun⟩ := (expands_expand r depth 0 [] (lexRows .text row run).tokens).respaced s
  obtain ⟨y, hy, hxy⟩ := hrun.like likeness_moved hr hs
  rw [hy.unique (expands_expand q depth 0 [] (lexRows .text 0 run).tokens)] at hxy
  cases hx : (expand r depth 0 [] (lexRows .text row run).tokens).result with
  | error e =>
    rw [hx] at hxy
    obtain ⟨f, hf, hef⟩ := hxy.of_error
    rw [hf]
    exact .error hef.sameCause
  | ok us =>
    rw [hx] at hxy
    obtain ⟨vs, hvs, huv⟩ := hxy.of_ok
    have hrender : render us = render vs := by rw [← render_respace s' us, render_moved huv]
    rw [hvs]
    show Agree Error.SameCause Eq (render us) (render vs)
    rw [hrender]
    exact .refl (fun e => ⟨rfl, rfl⟩) (fun _ => rfl) _

/-- A run does in its place what it does alone. -/
theorem expandInput_agree (hc : Config.fault? ⟨depth, false⟩ = none) (h : Text.AreLines run)
    (hw : ∀ l ∈ run, Text.WellFormed l) (hrow : 0 ≤ row) (hr : r.Like Token.Moved q) :
    Agree Error.ReportedAs Eq
      ((expand r depth 0 [] (lexRows .text row run).tokens).result >>= render)
      (expandInput q ⟨depth, false⟩ (.text run.flatten)).result := by
  rw [expandInput_run hc h hw]
  exact (expand_displaced hrow hr hw).mapError_right fun _ _ h => h

end

theorem obey_agree {r q : Registry} {line : Text} {d d' : Directive} (hd : directive? line = some d)
    (hm : d'.Moved d) (hr : r.Like Token.Moved q) :
    Agree Error.ReportedAs (Registry.Like Token.Moved)
      ((d'.apply r).map Prod.fst) (q.obey line) := by
  rw [Registry.obey, hd]
  exact ((Directive.apply_moved hm hr).map fun _ _ h => h).mapError_right fun _ _ h => h

/-- The chunks of the reader and the passages of the text are expanded alike. -/
theorem written_process_agree {depth : Int} (hc : Config.fault? ⟨depth, false⟩ = none)
    {ls : List Text} {p : Passages} (hd : Passages.Divides ls p) (h : Text.AreLines ls)
    (hw : ∀ l ∈ ls, Text.WellFormed l) {row : Int} (hrow : 0 ≤ row) {r q : Registry}
    (hr : r.Like Token.Moved q) :
    Agree Error.ReportedAs Eq
      ((Chunks.ofLines (tokenLines (lexRows .text row ls).tokens)).process depth none r []).written
      (p.expand depth q) := by
  induction hd generalizing row r q with
  | @last run hn =>
    rw [ofLines_last h hw hn, Chunks.process, written_ofExpanded, Passages.expand]
    exact expandInput_agree hc h hw hrow hr
  | @cut run line rest p d hn hd hp ih =>
    obtain ⟨hrun, hbelow, hended⟩ := h.of_append
    have hwrun : ∀ l ∈ run, Text.WellFormed l := fun l hl => hw l (by simp [hl])
    have hwrest : ∀ l ∈ rest, Text.WellFormed l := fun l hl => hw l (by simp [hl])
    obtain ⟨d', hd', hmoved⟩ : ∃ d',
        Directive.ofLine? (lexRow .text (row + run.length) line).tokens = some d' ∧ d'.Moved d :=
      directive_lexRow hbelow.head (hw line (by simp)) hd
    rw [ofLines_cut h hw hn hd', Chunks.written_process_cut (closed_lexRows hwrun (hended (by simp)))
      (closed_rowBreak _ _ _) (render_rowBreak _ _ _), Passages.expand]
    apply (expandInput_agree hc hrun hwrun hrow hr).bind
    rintro above _ rfl
    apply (obey_agree hd hmoved hr).bind
    intro r' q' hr'
    apply (ih hbelow.tail hwrest (by omega) hr').bind
    rintro below _ rfl
    exact .ok rfl

/-- With directives, a text is its passages one after the other. -/
theorem expandInput_passages (r : Registry) (depth : Int) {t : Text} (ht : t.WellFormed) :
    Agree Failure.SameCause Eq (expandInput r ⟨depth, true⟩ (.text t)).result
      ((Passages.ofLines t.lines).expand depth r) := by
  have hfault : Config.fault? ⟨depth, true⟩ = Config.fault? ⟨depth, false⟩ := rfl
  cases hc : Config.fault? ⟨depth, false⟩ with
  | some fault =>
    rw [expandInput_fault (hfault.trans hc), Passages.expand_fault hc]
    exact .error rfl
  | none =>
    have hw : ∀ l ∈ t.lines, Text.WellFormed l := ht.lines
    have hagree := written_process_agree hc (Passages.divides_ofLines t.lines)
      (Text.areLines_lines t) hw (show (0 : Int) ≤ 0 by omega) r.like_refl
    rw [expandInput_text (hfault.trans hc), process, if_pos rfl, lexText, lexLines,
      lexRows_failure hw]
    exact hagree.mapError_left fun _ _ h => h

theorem expandInput_undirected (r : Registry) (depth : Int) {t : Text} (ht : t.WellFormed)
    (hn : ∀ line ∈ t.lines, directive? line = none) :
    (expandInput r ⟨depth, true⟩ (.text t)).result =
      (expandInput r ⟨depth, false⟩ (.text t)).result := by
  have hfault : Config.fault? ⟨depth, true⟩ = Config.fault? ⟨depth, false⟩ := rfl
  cases hc : Config.fault? ⟨depth, false⟩ with
  | some fault => rw [expandInput_fault hc, expandInput_fault (hfault.trans hc)]
  | none =>
    have hw : ∀ l ∈ t.lines, Text.WellFormed l := ht.lines
    rw [expandInput_text hc, expandInput_text (hfault.trans hc), process, process, if_pos rfl,
      if_neg (by simp), lexText, lexLines, lexRows_failure hw,
      ofLines_last (Text.areLines_lines t) hw hn]
    rfl

/-- The text above a directive line is what it would be if it ended there. -/
theorem expandInput_above (r : Registry) (depth : Int) {t : Text} (ht : t.WellFormed)
    {above : List Text} {line : Text} {below : List Text} (hl : t.lines = above ++ line :: below)
    (hd : (directive? line).isSome) :
    ∃ bottom, Agree Failure.SameCause Eq (expandInput r ⟨depth, true⟩ (.text t)).result (do
      let top ← (expandInput r ⟨depth, true⟩ (.text above.flatten)).result
      let rest ← bottom
      return top ++ rest) := by
  have hlines : Text.AreLines (above ++ line :: below) := hl ▸ Text.areLines_lines t
  have habove : Text.WellFormed above.flatten := by
    intro c hc
    obtain ⟨l, hm, hc⟩ := List.mem_flatten.mp hc
    exact ht.lines l (by simp [hl, hm]) c hc
  have htop := expandInput_passages r depth habove
  rw [hlines.of_append.1.lines_flatten] at htop
  obtain ⟨bottom, hb⟩ := Passages.expand_join depth (Passages.ofLines above) line
    (Passages.ofLines below) r
  refine ⟨bottom, (expandInput_passages r depth ht).trans (fun _ _ _ => .trans) ?_⟩
  rw [hl, Passages.ofLines_join hd, hb]
  apply (htop.symm fun _ _ h => Failure.SameCause.symm h).bind
  rintro top _ rfl
  exact .refl (fun _ => .rfl) (fun _ => rfl) _

/-- Directives refine plain expansion: each run of lines between them is
expanded as it would be alone, and the first piece that fails is the one that
the text fails for. -/
theorem expand_directives_refines (r : Registry) (depth : Int) {t : Text} (ht : t.WellFormed) :
    Agree Failure.SameCause Eq (expandInput r ⟨depth, true⟩ (.text t)).result
        ((Passages.ofLines t.lines).expand depth r) ∧
      ((∀ line ∈ t.lines, directive? line = none) →
        (expandInput r ⟨depth, true⟩ (.text t)).result =
          (expandInput r ⟨depth, false⟩ (.text t)).result) ∧
      ∀ above line below, t.lines = above ++ line :: below → (directive? line).isSome →
        ∃ bottom, Agree Failure.SameCause Eq (expandInput r ⟨depth, true⟩ (.text t)).result (do
          let top ← (expandInput r ⟨depth, true⟩ (.text above.flatten)).result
          let rest ← bottom
          return top ++ rest) :=
  ⟨expandInput_passages r depth ht, expandInput_undirected r depth ht,
    fun _ _ _ hl hd => expandInput_above r depth ht hl hd⟩

def passageSample : Text := "N\n#define N 1\nN"

/-- The name above the definition stays, the one below is replaced. -/
theorem expand_directives_refines_sample :
    passageSample.WellFormed ∧
      Agree Failure.SameCause Eq (expandInput .empty ⟨200, true⟩ (.text passageSample)).result
        (.ok "N\n\n1") ∧
      (expandInput .empty ⟨200, true⟩ (.text "N\n")).result =
        (expandInput .empty ⟨200, false⟩ (.text "N\n")).result ∧
      ∃ bottom, Agree Failure.SameCause Eq
        (expandInput .empty ⟨200, true⟩ (.text passageSample)).result (do
          let top ← (expandInput .empty ⟨200, true⟩ (.text (List.flatten [Text.ofString "N\n"]))).result
          let rest ← bottom
          return top ++ rest) := by
  have hw : passageSample.WellFormed := by decide
  have hn : Text.WellFormed "N\n" := by decide
  have hl : passageSample.lines = [Text.ofString "N\n"] ++ Text.ofString "#define N 1\n" ::
      [Text.ofString "N"] := by cbv
  have hl' : Text.lines "N\n" = [Text.ofString "N\n"] := by cbv
  have hd : directive? "N\n" = none := by cbv
  have hp : (Passages.ofLines passageSample.lines).expand 200 .empty = .ok "N\n\n1" := by cbv
  obtain ⟨hall, -, habove⟩ := expand_directives_refines .empty 200 hw
  obtain ⟨-, hplain, -⟩ := expand_directives_refines .empty 200 hn
  exact ⟨hw, hp ▸ hall, hplain (by simp [hl', hd]), habove _ _ _ hl (by cbv)⟩

end TextMacros
