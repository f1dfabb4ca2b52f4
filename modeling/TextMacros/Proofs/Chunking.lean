import TextMacros.Proofs.Passages
import TextMacros.Proofs.Writing

/-!
# Chunks of rows

The tokens of a text are cut into chunks where its lines are cut into runs,
and each chunk is written before the directive below it is obeyed.
-/

set_option autoImplicit false

namespace TextMacros

section
variable {row : Int} {line : Text} {ls : List Text}

theorem lexText_flatten (h : Text.AreLines ls) :
    lexText .text ls.flatten = lexRows .text 0 ls := by
  rw [lexText, h.lines_flatten, lexLines]

/-- A line is a directive in any row, or in none. -/
theorem ofLine?_lexRow (h : Text.AreLines [line]) (hw : line.WellFormed) :
    Option.Rel Directive.Moved (Directive.ofLine? (lexRow .text row line).tokens)
      (directive? line) := by
  have hl : (lexText .text line).tokens = (lexRow .text 0 line).tokens := by
    have hf := lexText_flatten h
    rw [List.flatten_cons, List.flatten_nil, List.append_nil] at hf
    rw [hf, lexRows_cons hw]
    exact List.append_nil _
  rw [directive?, hl]
  exact ofLine?_shifted (lexRow_shifted row 0 hw)

theorem directive_lexRow (h : Text.AreLines [line]) (hw : line.WellFormed) {d : Directive}
    (hd : directive? line = some d) : ∃ d',
      Directive.ofLine? (lexRow .text row line).tokens = some d' ∧ d'.Moved d := by
  have hline : Option.Rel Directive.Moved (Directive.ofLine? (lexRow .text row line).tokens)
      (directive? line) := ofLine?_lexRow h hw
  rw [hd] at hline
  generalize Directive.ofLine? (lexRow .text row line).tokens = x at hline
  cases hline with
  | some hmoved => exact ⟨_, rfl, hmoved⟩

theorem lineBreak_lexRow (hw : line.WellFormed) :
    lineBreak (lexRow .text row line).tokens = rowBreak .text row line := by
  have hcontent : ∀ t ∈ lexLine .text row 0 (row > 0) line.lineContent, t.kind ≠ .eol :=
    kind_lexLine_ne_eol _ _ _
  have hbreak : ∀ t ∈ rowBreak .text row line, t.kind = .eol := kind_rowBreak
  rw [lexRow_eq hw, lineBreak, List.filter_append,
    List.filter_eq_nil_iff.mpr (by simpa using hcontent),
    List.filter_eq_self.mpr (by simpa using hbreak), List.nil_append]

/-- A row is a line of tokens, unless it is blank and the last one. -/
theorem tokenLines_lexRows (h : Text.AreLines (line :: ls)) (hw : line.WellFormed) :
    tokenLines (lexRows .text row (line :: ls)).tokens =
      if (lexRow .text row line).tokens = [] then []
      else (lexRow .text row line).tokens :: tokenLines (lexRows .text (row + 1) ls).tokens := by
  have hcontent : ∀ t ∈ lexLine .text row 0 (row > 0) line.lineContent,
      decide (t.kind = .eol) = false := by
    intro t ht
    simpa using kind_lexLine_ne_eol _ _ _ t ht
  have hended : ∀ ts, rowBreak .text row line = [breakToken .text row line.lineContent.length] →
      tokenLines ((lexRow .text row line).tokens ++ ts) =
        (lexRow .text row line).tokens :: tokenLines ts := by
    intro ts hb
    rw [lexRow_eq hw, hb, List.append_assoc]
    exact cutAfter_append hcontent (by simp [breakToken]) ts
  rw [lexRows_cons hw]
  cases h with
  | cons hl hr =>
    have hb : rowBreak .text row line = [breakToken .text row line.lineContent.length] :=
      rowBreak_terminated hl
    rw [hended _ hb, if_neg]
    simp [lexRow_eq hw, hb]
  | last hne hl =>
    by_cases ht : (lexRow .text row line).tokens = []
    · rw [if_pos ht, ht]
      rfl
    · rw [if_neg ht]
      by_cases hb : line.lineContent.length = line.length
      · rw [lexRow_eq hw, rowBreak, if_pos hb, List.append_nil] at ht ⊢
        rw [lexRows, TokenStream.empty, List.append_nil]
        exact cutAfter_of_none ht hcontent
      · exact hended _ (if_neg hb)

theorem ofLines_lexRows (h : Text.AreLines (line :: ls)) (hw : line.WellFormed) :
    Chunks.ofLines (tokenLines (lexRows .text row (line :: ls)).tokens) =
      match Directive.ofLine? (lexRow .text row line).tokens with
      | none => (Chunks.ofLines (tokenLines (lexRows .text (row + 1) ls).tokens)).prepend
          (lexRow .text row line).tokens
      | some d => .cut [] d (rowBreak .text row line)
          (Chunks.ofLines (tokenLines (lexRows .text (row + 1) ls).tokens)) := by
  rw [tokenLines_lexRows h hw]
  by_cases ht : (lexRow .text row line).tokens = []
  · have hls : ls = [] := by
      cases h with
      | last => rfl
      | cons hl hr => simp [lexRow_eq hw, rowBreak_terminated hl] at ht
    rw [if_pos ht, ht, hls]
    rfl
  · rw [if_neg ht]
    cases hd : Directive.ofLine? (lexRow .text row line).tokens with
    | none => simp only [Chunks.ofLines, hd]
    | some d => simp only [Chunks.ofLines, hd, lineBreak_lexRow hw]

theorem prepend_nil (c : Chunks) : c.prepend [] = c := by
  cases c <;> rfl

theorem prepend_append (ts us : List Token) (c : Chunks) :
    c.prepend (ts ++ us) = (c.prepend us).prepend ts := by
  cases c <;> simp [Chunks.prepend]

/-- A run of lines that are no directives joins the first chunk below it. -/
theorem ofLines_append {run : List Text} (h : Text.AreLines (run ++ ls))
    (hw : ∀ l ∈ run, Text.WellFormed l) (hn : ∀ l ∈ run, directive? l = none) :
    Chunks.ofLines (tokenLines (lexRows .text row (run ++ ls)).tokens) =
      (Chunks.ofLines (tokenLines (lexRows .text (row + run.length) ls).tokens)).prepend
        (lexRows .text row run).tokens := by
  induction run generalizing row with
  | nil =>
    rw [lexRows, TokenStream.empty, prepend_nil]
    simp
  | cons line run ih =>
    have hl := hw line (by simp)
    have hnone : Directive.ofLine? (lexRow .text row line).tokens = none := by
      have hd : Option.Rel Directive.Moved (Directive.ofLine? (lexRow .text row line).tokens)
          (directive? line) := ofLine?_lexRow h.head hl
      rw [hn line (by simp)] at hd
      generalize Directive.ofLine? (lexRow .text row line).tokens = x at hd ⊢
      cases hd
      rfl
    have hrow : row + ((line :: run).length : Int) = row + 1 + run.length := by simp; omega
    rw [List.cons_append] at h ⊢
    rw [ofLines_lexRows h hl, hnone, hrow, lexRows_cons hl, prepend_append]
    exact congrArg (Chunks.prepend _) <|
      ih h.tail (fun l hl => hw l (by simp [hl])) fun l hl => hn l (by simp [hl])

theorem ofLines_last {run : List Text} (h : Text.AreLines run)
    (hw : ∀ l ∈ run, Text.WellFormed l) (hn : ∀ l ∈ run, directive? l = none) :
    Chunks.ofLines (tokenLines (lexRows .text row run).tokens) =
      .last (lexRows .text row run).tokens := by
  have happ : Text.AreLines (run ++ []) := by simpa using h
  simpa [lexRows, TokenStream.empty, Chunks.prepend, tokenLines, cutAfter, Chunks.ofLines]
    using ofLines_append happ hw hn

theorem ofLines_cut {run rest : List Text} (h : Text.AreLines (run ++ line :: rest))
    (hw : ∀ l ∈ run ++ line :: rest, Text.WellFormed l) (hn : ∀ l ∈ run, directive? l = none)
    {d : Directive}
    (hd : Directive.ofLine? (lexRow .text (row + run.length) line).tokens = some d) :
    Chunks.ofLines (tokenLines (lexRows .text row (run ++ line :: rest)).tokens) =
      .cut (lexRows .text row run).tokens d (rowBreak .text (row + run.length) line)
        (Chunks.ofLines (tokenLines (lexRows .text (row + run.length + 1) rest).tokens)) := by
  have hbelow : Text.AreLines (line :: rest) := h.of_append.2.1
  rw [ofLines_append h (fun l hl => hw l (by simp [hl])) hn,
    ofLines_lexRows hbelow (hw line (by simp)), hd]
  simp only [Chunks.prepend, List.append_nil]

end

theorem render_rowBreak (source : Source) (row : Int) (line : Text) :
    render (rowBreak source row line) = .ok line.lineEnd := by
  unfold rowBreak Text.lineEnd
  split <;> rfl

theorem closed_lexRows {row : Int} {run : List Text} (hw : ∀ l ∈ run, Text.WellFormed l)
    (ht : ∀ l ∈ run, Text.Terminated l) : Closed (lexRows .text row run).tokens := by
  induction run generalizing row with
  | nil => exact .inl rfl
  | cons line run ih =>
    have hl := hw line (by simp)
    have hrow : Closed (lexRow .text row line).tokens :=
      .inr (endsInBreak_lexRow hl (ht line (by simp)))
    rw [lexRows_cons hl]
    exact hrow.append (ih (fun l hl => hw l (by simp [hl])) fun l hl => ht l (by simp [hl]))

theorem Processed.written_after {ts : List Token} (h : Closed ts) (rs : List Redefinition)
    (p : Processed) : (p.after ts rs).written = (do
      let above ← render ts
      let below ← p.written
      return above ++ below) := by
  simp only [written, after, render_append_closed h]
  cases render ts with
  | error e => rfl
  | ok above =>
    cases render p.tokens with
    | error e => rfl
    | ok below => cases p.failure <;> rfl

/-- One chunk is written before its directive is obeyed, and both before the rest. -/
theorem Chunks.written_process_cut {r : Registry} {limit : Int} {chunk lineBreak : List Token}
    {d : Directive} {rest : Chunks} {mark : Text} (hc : Closed chunk) (hb : Closed lineBreak)
    (hm : render lineBreak = .ok mark) :
    ((cut chunk d lineBreak rest).process limit none r []).written = (do
      let above ← (TextMacros.expand r limit 0 [] chunk).result >>= render
      let r' ← (d.apply r).map Prod.fst
      let below ← (rest.process limit none r' []).written
      return above ++ mark ++ below) := by
  rw [process, guard_expand]
  cases hx : (TextMacros.expand r limit 0 [] chunk).result with
  | error e => rfl
  | ok ts =>
    have hts : Closed ts := by
      have hrun := expands_expand r limit 0 [] chunk
      rw [hx] at hrun
      exact hrun.closed hc
    cases ha : d.apply r with
    | error e => cases hr : render ts <;> simp [Processed.written, hr, bind, Except.bind, Except.map,
        throw, throwThe, MonadExceptOf.throw]
    | ok o =>
      simp only [Processed.written_after (hts.append hb), render_append_closed hts, hm]
      cases hr : render ts with
      | error e => simp [bind, Except.bind, hr]
      | ok above =>
        cases hw : (rest.process limit none o.1 []).written <;>
          simp [bind, Except.bind, Except.map, pure, Except.pure, hr, hw]

theorem Processed.failure_ofExpanded {r : Registry} {x : Expanded}
    (h : (Processed.ofExpanded r x).failure = none) :
    x.result = .ok (Processed.ofExpanded r x).tokens := by
  unfold Processed.ofExpanded at h ⊢
  cases hx : x.result with
  | error e => simp [hx] at h
  | ok ts => rfl

/-- What a chunk, its directive and the chunks below it leave behind. -/
theorem Chunks.process_cut_ok {r : Registry} {limit : Int} {chunk lineBreak : List Token}
    {d : Directive} {rest : Chunks}
    (h : ((cut chunk d lineBreak rest).process limit none r []).failure = none) :
    ∃ ts q redefinition, (TextMacros.expand r limit 0 [] chunk).result = .ok ts ∧
      d.apply r = .ok (q, redefinition) ∧ (rest.process limit none q []).failure = none ∧
      ((cut chunk d lineBreak rest).process limit none r []).tokens =
        ts ++ lineBreak ++ (rest.process limit none q []).tokens := by
  rw [process, guard_expand] at h ⊢
  cases hx : (TextMacros.expand r limit 0 [] chunk).result with
  | error e => simp [hx] at h
  | ok ts =>
    cases ha : d.apply r with
    | error e => simp [hx, ha] at h
    | ok o =>
      simp only [hx, ha] at h
      exact ⟨ts, o.1, o.2, rfl, rfl, h, rfl⟩

theorem written_ofExpanded (r : Registry) (x : Expanded) :
    (Processed.ofExpanded r x).written = x.result >>= render := by
  unfold Processed.ofExpanded
  cases x.result with
  | error e => rfl
  | ok ts => cases hr : render ts <;> simp [Processed.written, bind, Except.bind, hr, pure, Except.pure]

end TextMacros
