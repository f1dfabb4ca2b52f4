import TextMacros.Proofs.ArgumentReading
import TextMacros.Proofs.Rows
import TextMacros.Proofs.Runs

/-!
# The edges of an expansion

The space before the first token of a list is passed on to the first token
of its expansion and to nothing else. A line break at the end of a list
belongs to no invocation, so it ends the expansion too.
-/

set_option autoImplicit false

namespace TextMacros

theorem exists_respace_self (ts : List Token) : ∃ s, respace s ts = ts := by
  cases ts with
  | nil => exact ⟨none, rfl⟩
  | cons t ts => exact ⟨t.spaced, rfl⟩

theorem Token.placed_withSpacing (t : Token) (s : Option Bool) (afterSplice : Bool) :
    ∃ s', (t.withSpacing s).placed afterSplice = (t.placed afterSplice).withSpacing s' := by
  refine ⟨((t.withSpacing s).placed afterSplice).spaced, ?_⟩
  cases afterSplice with
  | false => rfl
  | true =>
    simp only [placed, if_true, detached]
    split <;> split <;> rfl

theorem Expands.respaced {r : Registry} {limit : Option Int} {depth : Int} {g : Guard}
    {afterSplice : Bool} {ts : List Token} {x : Except Error (List Token)}
    (h : Expands r limit depth g afterSplice ts x) (s : Option Bool) :
    ∃ s', Expands r limit depth g afterSplice (respace s ts) (x.map (respace s')) := by
  cases h with
  | done => exact ⟨none, .done⟩
  | fault hi => exact ⟨none, .fault hi⟩
  | @keep _ _ _ t rest x hi hr =>
    obtain ⟨s', hs'⟩ := t.placed_withSpacing s afterSplice
    refine ⟨s', ?_⟩
    have hrun : Expands r limit _ _ afterSplice (t.withSpacing s :: rest) _ := .keep hi hr
    rw [hs'] at hrun
    cases x <;> exact hrun
  | tooDeep hi hl hd => exact ⟨none, .tooDeep hi hl hd⟩
  | abort hi hd hn => exact ⟨none, .abort hi hd hn⟩
  | @splice _ _ _ t rest i body x hi hd hn hr =>
    have hrun : Expands r limit _ _ afterSplice (t.withSpacing s :: rest) _ :=
      .splice hi hd hn hr
    cases body with
    | nil =>
      cases x with
      | error e => exact ⟨none, hrun⟩
      | ok us =>
        obtain ⟨s', hs'⟩ := exists_respace_self us
        refine ⟨s', ?_⟩
        have hx : Except.map (respace s') (.ok ([] ++ us) : Except Error (List Token)) = .ok us :=
          congrArg Except.ok hs'
        show Expands r limit _ _ afterSplice _ (Except.map (respace s') (.ok ([] ++ us)))
        rw [hx]
        exact hrun
    | cons u body =>
      refine ⟨((t.withSpacing s).placed afterSplice).spaced, ?_⟩
      cases x <;> exact hrun

/-- The last token is a line break. -/
def EndsInBreak (ts : List Token) : Prop := ∃ front e, ts = front ++ [e] ∧ e.kind = .eol

theorem EndsInBreak.append {ts : List Token} (h : EndsInBreak ts) (front : List Token) :
    EndsInBreak (front ++ ts) := by
  obtain ⟨front', e, rfl, he⟩ := h
  exact ⟨front ++ front', e, by simp, he⟩

theorem EndsInBreak.of_append (front : List Token) {ts : List Token}
    (h : EndsInBreak (front ++ ts)) (hne : ts ≠ []) : EndsInBreak ts := by
  obtain ⟨front', e, he, hk⟩ := h
  obtain ⟨ts', d, rfl⟩ : ∃ ts' d, ts = ts' ++ [d] :=
    ⟨ts.dropLast, ts.getLast hne, (List.dropLast_concat_getLast hne).symm⟩
  rw [← List.append_assoc] at he
  obtain ⟨-, hd⟩ := List.append_inj' he rfl
  simp only [List.cons.injEq, and_true] at hd
  exact ⟨ts', d, rfl, hd ▸ hk⟩

/-- The token that ends a list of arguments closes a parenthesis. -/
theorem ArgumentList.Reads.split_close {depth : Nat} {ts : List Token} {a : ArgumentList}
    (h : Reads depth ts a) : ∃ front close after, ts = front ++ close :: after ∧
      close.kind = .rparen ∧ a.length = front.length + 1 := by
  induction h with
  | @close t ts hk => exact ⟨[], t, ts, rfl, hk, rfl⟩
  | @leave t ts depth a hk h ih | @enter t ts depth a hk h ih | @comma t ts a hk h ih
  | @layout t ts depth a hk h ih | @plain t ts depth a _ _ _ hk h ih =>
    obtain ⟨front, close, after, rfl, hc, hn⟩ := ih
    exact ⟨t :: front, close, after, rfl, hc, by simp [keep, split, skip, hn]⟩

/-- An invocation ends at its name or at a closing parenthesis. -/
theorem Invocation.Found.split_last {r : Registry} {t : Token} {rest : List Token} {i : Invocation}
    (h : Found r t rest i) (hk : t.kind = .identifier) : ∃ front last,
      t :: rest = front ++ last :: rest.drop i.following ∧ last.kind ≠ .eol := by
  cases h with
  | object callee hl hp => exact ⟨[], t, rfl, by simp [hk]⟩
  | function callee parameters opening inner list hl hp hd ho hr hn =>
    obtain ⟨front, close, after, rfl, hc, hlen⟩ := (ArgumentList.reads_of_read hr).split_close
    dsimp only
    generalize (rest.takeWhile fun t => t.kind = .eol).length = breaks at hd
    have hrest : rest = rest.take breaks ++ opening :: (front ++ close :: after) := by
      rw [← hd, List.take_append_drop]
    refine ⟨t :: rest.take breaks ++ opening :: front, close, ?_, by simp [hc]⟩
    have hdrop : rest.drop (breaks + 1 + list.length) = after := by
      rw [drop_following hd, hlen]
      simp
    rw [hdrop]
    simpa using hrest

theorem Expands.endsInBreak {r : Registry} {limit : Option Int} {depth : Int} {g : Guard}
    {afterSplice : Bool} {ts us : List Token}
    (h : Expands r limit depth g afterSplice ts (.ok us)) (hts : EndsInBreak ts) :
    EndsInBreak us := by
  generalize hx : Except.ok us = x at h
  induction h generalizing us with
  | done =>
    obtain ⟨front, e, he, -⟩ := hts
    simp at he
  | fault | tooDeep | abort => cases hx
  | @keep depth g afterSplice t rest x hi hr ih =>
    obtain ⟨vs, hvs, rfl⟩ := map_eq_ok.mp hx.symm
    cases hrest : rest with
    | nil =>
      subst hrest
      subst hvs
      cases hr
      obtain ⟨front, e, he, hk⟩ := hts
      obtain ⟨rfl, rfl⟩ : front = [] ∧ e = t := by cases front <;> simp_all
      exact ⟨[], _, rfl, by simpa using hk⟩
    | cons u rest' =>
      exact (ih (EndsInBreak.of_append [t] hts (by simp [hrest])) hvs.symm).append _
  | @splice depth g afterSplice t rest i body x hi hd hn hr ihn ihr =>
    obtain ⟨vs, hvs, rfl⟩ := map_eq_ok.mp hx.symm
    obtain ⟨hk, -, hf⟩ := found_of_invocation? hi
    obtain ⟨front, last, hspan, hlast⟩ := hf.split_last hk
    rw [hspan] at hts
    have hend : EndsInBreak (last :: rest.drop i.following) := hts.of_append front (by simp)
    have hne : rest.drop i.following ≠ [] := by
      intro hnil
      rw [hnil] at hend
      obtain ⟨front', e, he, hke⟩ := hend
      obtain ⟨-, rfl⟩ : front' = [] ∧ last = e := by cases front' <;> simp_all
      exact hlast hke
    exact (ihr (EndsInBreak.of_append [last] hend hne) hvs.symm).append _

theorem EndsInBreak.getLast? {ts : List Token} (h : EndsInBreak ts) :
    ∀ t ∈ ts.getLast?, t.kind = .eol := by
  obtain ⟨front, e, rfl, he⟩ := h
  simp [he]

theorem endsInBreak_lexRow {source : Source} {row : Int} {line : Text} (hw : line.WellFormed)
    (h : line.Terminated) : EndsInBreak (lexRow source row line).tokens := by
  rw [lexRow_eq hw, rowBreak_terminated h]
  exact ⟨_, _, rfl, rfl⟩

/-- No tokens, or tokens up to a line break. -/
def Closed (ts : List Token) : Prop := ts = [] ∨ EndsInBreak ts

theorem closed_rowBreak (source : Source) (row : Int) (line : Text) :
    Closed (rowBreak source row line) := by
  unfold rowBreak
  split
  · exact .inl rfl
  · exact .inr ⟨[], _, rfl, rfl⟩

theorem Closed.append {ts us : List Token} (h : Closed ts) (h' : Closed us) : Closed (ts ++ us) := by
  cases h' with
  | inl hu => simpa [hu] using h
  | inr hu => exact .inr (hu.append ts)

theorem Closed.getLast? {ts : List Token} (h : Closed ts) : ∀ t ∈ ts.getLast?, t.kind = .eol := by
  cases h with
  | inl h => simp [h]
  | inr h => exact h.getLast?

theorem Expands.closed {r : Registry} {limit : Option Int} {depth : Int} {g : Guard}
    {afterSplice : Bool} {ts us : List Token}
    (h : Expands r limit depth g afterSplice ts (.ok us)) (hts : Closed ts) : Closed us := by
  cases hts with
  | inl ht =>
    subst ht
    cases h
    exact .inl rfl
  | inr ht => exact .inr (h.endsInBreak ht)

end TextMacros
