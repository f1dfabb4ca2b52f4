import TextMacros.Directive
import TextMacros.Proofs.Edges
import TextMacros.Proofs.ReadBack

/-!
# Layout that stays

Comments and line breaks of a text stay where they are: no expansion moves
another token behind a comment, since bodies and arguments are free of both.
-/

set_option autoImplicit false

namespace TextMacros

/-- Tokens as they may stand in a text: no token follows a comment on its line. -/
structure Laid (ts : List Token) : Prop where
  writable : Throughout Writable ts
  comments : ts.IsChain Token.EndsComment

/-- What may stand in a body or an argument. -/
def Plain (kind : TokenKind) (text : Text) : Prop := Lexical kind text ∧ kind ≠ .comment

def Registry.Plain (r : Registry) : Prop :=
  ∀ name m, r.lookup name = some m → Throughout TextMacros.Plain m.body

/-- Neither a line break nor a comment. -/
def Solid (kind : TokenKind) (_ : Text) : Prop := kind ≠ .eol ∧ kind ≠ .comment

def Registry.Solid (r : Registry) : Prop :=
  ∀ name m, r.lookup name = some m → Throughout TextMacros.Solid m.body

theorem Registry.Plain.solid {r : Registry} (h : r.Plain) : r.Solid :=
  fun name m hm t ht => ⟨(h name m hm t ht).1.ne_eol, (h name m hm t ht).2⟩

theorem Writable.plain {t : Token} (h : Writable t.kind t.text) (hl : t.isLayout = false) :
    Plain t.kind t.text := by
  obtain ⟨he, hc⟩ := Token.isLayout_eq_false.mp hl
  exact ⟨h.lexical he, hc⟩

theorem throughout_withoutLayout {ts : List Token} (h : Throughout Writable ts) :
    Throughout Plain (withoutLayout ts) := by
  intro t ht
  obtain ⟨hm, hl⟩ := List.mem_filter.mp ht
  exact (h t hm).plain (by simpa using hl)

theorem Laid.nil : Laid [] := ⟨throughout_nil, List.isChain_nil⟩

/-- Nothing stands on the line where a list ends that a line break closes. -/
theorem Laid.append {ts us : List Token} (h : Laid ts) (hc : Closed ts) (h' : Laid us) :
    Laid (ts ++ us) := by
  constructor
  · exact throughout_append.mpr ⟨h.writable, h'.writable⟩
  · apply h.comments.append h'.comments
    intro t ht u _ hk
    rw [hc.getLast? t ht] at hk
    cases hk

theorem Laid.stretch {ts us : List Token} (h : Laid us) (hts : ts <:+: us) : Laid ts :=
  ⟨fun t ht => h.writable t (hts.subset ht), h.comments.infix hts⟩

section
variable {source : Source} {row : Int}

theorem lexLine_blank {line : Text} (h : ∀ c ∈ line, CodePoint.isBlank c) (col : Nat)
    (spaced : Bool) : lexLine source row col spaced line = [] := by
  induction line generalizing col spaced with
  | nil => rw [lexLine]
  | cons c line ih =>
    rw [lexLine, if_pos (h c (by simp))]
    exact ih (fun d hd => h d (by simp [hd])) _ _

theorem isChain_rowBreak {R : Token → Token → Prop} (line : Text) :
    (rowBreak source row line).IsChain R := by
  unfold rowBreak
  split
  · exact List.isChain_nil
  · exact List.isChain_singleton _

theorem isChain_lexLine (col : Nat) (spaced : Bool) (line : Text) :
    (lexLine source row col spaced line).IsChain Token.EndsComment := by
  induction col, spaced, line using lexLine.induct with
  | case1 col spaced => rw [lexLine]; exact List.isChain_nil
  | case2 col spaced c rest hc ih => rw [lexLine, if_pos hc]; exact ih
  | case3 col spaced c rest hc lexeme ih =>
    rw [lexLine, if_neg hc]
    apply ih.cons
    intro u hu hk
    obtain ⟨-, -, hn⟩ := munch_comment hk
    have hblank : ∀ d ∈ rest.drop (munch c rest).2, CodePoint.isBlank d :=
      hn ▸ Text.blank_of_mem_drop_trimEnd rest
    rw [lexLine_blank hblank] at hu
    simp at hu

theorem laid_lexRow {line : Text} (h : Text.AreLines [line]) (hw : line.WellFormed)
    (hq : ∀ t ∈ (lexRow source row line).tokens, ¬IsStray t.kind t.text) :
    Laid (lexRow source row line).tokens := by
  constructor
  · intro t ht
    exact writable_lexRow h t ht (hq t ht)
  · rw [lexRow_eq hw]
    apply (isChain_lexLine 0 _ _).append (isChain_rowBreak _)
    intro t _ u hu _
    exact kind_rowBreak u (List.mem_of_mem_head? hu)

theorem laid_lexRows {ls : List Text} (h : Text.AreLines ls) (hw : ∀ l ∈ ls, Text.WellFormed l)
    (hq : ∀ t ∈ (lexRows source row ls).tokens, ¬IsStray t.kind t.text) :
    Laid (lexRows source row ls).tokens := by
  induction ls generalizing row with
  | nil => exact .nil
  | cons line ls ih =>
    have hl := hw line (by simp)
    rw [lexRows_cons hl] at hq ⊢
    have hrow : Laid (lexRow source row line).tokens :=
      laid_lexRow h.head hl fun t ht => hq t (List.mem_append_left _ ht)
    have hrest : Laid (lexRows source (row + 1) ls).tokens :=
      ih h.tail (fun l hl => hw l (by simp [hl])) fun t ht => hq t (List.mem_append_right _ ht)
    cases h with
    | last hne hl => simpa [lexRows, TokenStream.empty] using hrow
    | cons hterm hr => exact hrow.append (.inr (endsInBreak_lexRow hl hterm)) hrest

end

/-- What is read as a body may stand in one. -/
theorem plain_lexBody {source : Source} {t : Text} {body : List Token}
    (h : lexBody source t = .ok body) (hq : ∀ u ∈ body, ¬IsStray u.kind u.text) :
    Throughout Plain body := by
  obtain ⟨ts, hts, rfl⟩ := map_eq_ok.mp h
  obtain ⟨htokens, -⟩ := TokenStream.toExcept_eq_ok.mp hts
  intro u hu
  obtain ⟨hm, hl⟩ := List.mem_filter.mp hu
  exact (writable_lexText source t u (htokens ▸ hm) (hq u hu)).plain (by simpa using hl)

namespace Expands
variable {r : Registry} {limit : Option Int} {depth : Int} {g : Guard} {afterSplice : Bool}
  {ts us : List Token}

/-- A line break at the start of a list starts the expansion. -/
theorem startsInBreak (h : Expands r limit depth g afterSplice ts (.ok us))
    (hts : ∀ t ∈ ts.head?, t.kind = .eol) : ∀ u ∈ us.head?, u.kind = .eol := by
  generalize hx : Except.ok us = x at h
  cases h with
  | done => cases hx; simp
  | fault | tooDeep | abort => cases hx
  | @keep _ _ _ t rest x hi hr =>
    obtain ⟨vs, -, rfl⟩ := map_eq_ok.mp hx.symm
    simpa using hts t rfl
  | splice hi =>
    obtain ⟨hk, -, -⟩ := found_of_invocation? hi
    rw [hts _ rfl] at hk
    cases hk

theorem isChain_append_comments {ts us : List Token} (hts : ∀ t ∈ ts, t.kind ≠ .comment)
    (hus : us.IsChain Token.EndsComment) : (ts ++ us).IsChain Token.EndsComment := by
  induction ts with
  | nil => exact hus
  | cons t ts ih =>
    have hchain := ih fun u hu => hts u (by simp [hu])
    exact hchain.cons fun u _ hk => absurd hk (hts t (by simp))

/-- What takes the place of an invocation holds no line breaks and no comments. -/
theorem nested_solid (hr : r.Solid) {t : Token} {rest body : List Token} {i : Invocation}
    (hf : Invocation.Found r t rest i)
    (h : Expands r limit depth g afterSplice i.substitution (.ok body)) :
    Throughout Solid body := by
  refine Expands.throughout (fun name m _ => hr name m) h ?_
  exact hf.throughout (hr _ _ hf.lookup) fun u _ hl => Token.isLayout_eq_false.mp hl

theorem endsComments (hr : r.Solid) (h : Expands r limit depth g afterSplice ts (.ok us))
    (hts : ts.IsChain Token.EndsComment) : us.IsChain Token.EndsComment := by
  generalize hx : Except.ok us = x at h
  induction h generalizing us with
  | done => cases hx; exact List.isChain_nil
  | fault | tooDeep | abort => cases hx
  | @keep _ _ _ t rest x hi hrest ih =>
    obtain ⟨vs, rfl, rfl⟩ := map_eq_ok.mp hx.symm
    apply (ih hts.tail rfl).cons
    intro u hu hk
    rw [Token.kind_placed] at hk
    exact hrest.startsInBreak (fun v hv => hts.rel_head? hv hk) u hu
  | splice hi hd hn hrest ihn ihr =>
    obtain ⟨vs, rfl, rfl⟩ := map_eq_ok.mp hx.symm
    obtain ⟨-, -, hf⟩ := found_of_invocation? hi
    have hbody := (nested_solid hr hf hn).respace
    exact isChain_append_comments (fun u hu => (hbody _ u hu).2) (ihr (hts.tail.drop _) rfl)

/-- What a laid list expands to is laid. -/
theorem laid (hr : r.Plain) (h : Expands r limit depth g afterSplice ts (.ok us)) (hts : Laid ts) :
    Laid us where
  writable := by
    refine Expands.throughout (fun name m _ hm => ?_) h hts.writable
    exact fun u hu => .inr (hr name m hm u hu).1
  comments := h.endsComments hr.solid hts.comments

end Expands

end TextMacros
