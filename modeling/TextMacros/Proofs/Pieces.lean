import TextMacros.Decoding
import TextMacros.Proofs.Results

/-!
# Decoding in pieces

Rows that end with a byte below 0x80 never cut through a sequence, so decoding
them one by one is decoding them all at once. Only the place of a failure is
told in another way: by the row it falls into, and the column there.
-/

set_option autoImplicit false

namespace TextMacros

namespace Utf8

/-- A byte below 0x80 is a sequence by itself and never part of another one. -/
def IsSingle (b : UInt8) : Prop := b.toNat < 0x80

theorem low_of_lead? {b : Nat} {lead : Lead} (h : lead? b = some lead) : 0x80 ≤ lead.low := by
  unfold lead? at h
  grind

theorem sequence_single {b : UInt8} (hb : IsSingle b) (rest : Bytes) :
    sequence b rest = .ok (b.toNat, 0) := by
  have hlead : lead? b.toNat = some ⟨b.toNat, 0, 0x80, 0xBF⟩ := if_pos hb
  rw [sequence, hlead]
  rfl

section
variable {e : UInt8} {low : Nat}

theorem complete_append (he : IsSingle e) (hl : 0x80 ≤ low) (value high more : Nat)
    (front rest : Bytes) :
    complete value low high more (front ++ e :: rest) =
      complete value low high more (front ++ [e]) := by
  induction more generalizing value low high front with
  | zero => rw [complete, complete]
  | succ more ih =>
    cases front with
    | nil =>
      have hout : ¬(low ≤ e.toNat ∧ e.toNat ≤ high) := by
        unfold IsSingle at he
        omega
      simp only [List.nil_append, complete, if_neg hout]
    | cons b front => simp only [List.cons_append, complete, ih (Nat.le_refl 0x80)]

/-- The bytes that must follow stand before `e`. -/
theorem le_of_complete (he : IsSingle e) (hl : 0x80 ≤ low) {value high more : Nat} {front : Bytes}
    {c : CodePoint} (h : complete value low high more (front ++ [e]) = .ok c) :
    more ≤ front.length := by
  induction more generalizing value low high front with
  | zero => exact Nat.zero_le _
  | succ more ih =>
    cases front with
    | nil =>
      have hout : ¬(low ≤ e.toNat ∧ e.toNat ≤ high) := by
        unfold IsSingle at he
        omega
      simp [complete, hout] at h
    | cons b front =>
      rw [List.cons_append, complete] at h
      split at h
      · exact Nat.succ_le_succ (ih (Nat.le_refl 0x80) h)
      · cases h

theorem sequence_append (he : IsSingle e) (b : UInt8) (front rest : Bytes) :
    sequence b (front ++ e :: rest) = sequence b (front ++ [e]) := by
  unfold sequence
  split
  · rfl
  next lead hlead => rw [complete_append he (low_of_lead? hlead)]

theorem le_of_sequence (he : IsSingle e) {b : UInt8} {front : Bytes} {c : CodePoint} {more : Nat}
    (h : sequence b (front ++ [e]) = .ok (c, more)) : more ≤ front.length := by
  unfold sequence at h
  split at h
  · cases h
  next lead hlead =>
    cases hc : complete lead.bits lead.low lead.high lead.more (front ++ [e]) with
    | error flaw => simp [hc, Except.map] at h
    | ok value =>
      have hmore : lead.more ≤ front.length := le_of_complete he (low_of_lead? hlead) hc
      simp only [hc, Except.map, Except.ok.injEq, Prod.mk.injEq] at h
      omega

end

section
variable {b : UInt8} {rest : Bytes} {start : Nat}

theorem decodeFrom_of_flaw {flaw : Flaw} (h : sequence b rest = .error flaw) :
    decodeFrom start (b :: rest) = .error ⟨start, flaw⟩ := by
  rw [decodeFrom, h]

theorem decodeFrom_of_sequence {c : CodePoint} {more : Nat} (h : sequence b rest = .ok (c, more)) :
    decodeFrom start (b :: rest) =
      (decodeFrom (start + 1 + more) (rest.drop more)).map (c :: ·) := by
  rw [decodeFrom, h]

end

/-- What follows a byte below 0x80 is decoded by itself. -/
theorem decodeFrom_append {e : UInt8} (he : IsSingle e) (start : Nat) (front rest : Bytes) :
    decodeFrom start (front ++ e :: rest) =
      (decodeFrom start (front ++ [e]) >>= fun t =>
        (decodeFrom (start + (front.length + 1)) rest).map (t ++ ·)) := by
  -- A step takes a whole sequence off `front`, so the induction is on its length.
  induction hn : front.length using Nat.strongRecOn generalizing start front with
  | ind n ih =>
    cases front with
    | nil =>
      obtain rfl : 0 = n := hn
      rw [List.nil_append, List.nil_append, decodeFrom_of_sequence (sequence_single he rest),
        decodeFrom_of_sequence (sequence_single he []), List.drop_nil, decodeFrom]
      rfl
    | cons b front =>
      cases hseq : sequence b (front ++ [e]) with
      | error flaw =>
        have hwhole : sequence b (front ++ e :: rest) = .error flaw := by rw [sequence_append he, hseq]
        rw [List.cons_append, List.cons_append, decodeFrom_of_flaw hseq, decodeFrom_of_flaw hwhole]
        rfl
      | ok value =>
        obtain ⟨c, more⟩ := value
        have hwhole : sequence b (front ++ e :: rest) = .ok (c, more) := by
          rw [sequence_append he, hseq]
        have hmore : more ≤ front.length := le_of_sequence he hseq
        have hrest := ih (front.drop more).length (by simp at hn ⊢; omega) (start + 1 + more)
          (front.drop more) rfl
        have hplace : start + 1 + more + ((front.drop more).length + 1) = start + (n + 1) := by
          simp at hn ⊢
          omega
        rw [List.cons_append, List.cons_append, decodeFrom_of_sequence hseq,
          decodeFrom_of_sequence hwhole, List.drop_append_of_le_length hmore,
          List.drop_append_of_le_length hmore, hrest, hplace]
        cases decodeFrom (start + 1 + more) (front.drop more ++ [e]) with
        | error f => rfl
        | ok t => cases decodeFrom (start + (n + 1)) rest <;> rfl

/-- Where decoding fails does not depend on what stands before. -/
theorem decodeFrom_shift (before start : Nat) (bytes : Bytes) :
    decodeFrom (before + start) bytes =
      (decodeFrom start bytes).mapError fun f => ⟨before + f.start, f.flaw⟩ := by
  induction start, bytes using decodeFrom.induct with
  | case1 start => rw [decodeFrom, decodeFrom]; rfl
  | case2 start b rest flaw h => rw [decodeFrom_of_flaw h, decodeFrom_of_flaw h]; rfl
  | case3 start b rest c more h ih =>
    rw [decodeFrom_of_sequence h, decodeFrom_of_sequence h, Nat.add_assoc, Nat.add_assoc,
      ← Nat.add_assoc start, ih]
    cases decodeFrom (start + 1 + more) (rest.drop more) <;> rfl

/-- A failure lies in what is decoded. -/
theorem start_of_decodeFrom {start : Nat} {bytes : Bytes} {f : Failure}
    (h : decodeFrom start bytes = .error f) :
    start ≤ f.start ∧ f.start < start + bytes.length := by
  induction start, bytes using decodeFrom.induct with
  | case1 start => simp [decodeFrom] at h
  | case2 start b rest flaw hs =>
    rw [decodeFrom_of_flaw hs] at h
    obtain rfl := Except.error.inj h
    simp
  | case3 start b rest c more hs ih =>
    rw [decodeFrom_of_sequence hs] at h
    cases hrest : decodeFrom (start + 1 + more) (rest.drop more) with
    | ok t => simp [hrest, Except.map] at h
    | error g =>
      rw [hrest] at h
      obtain rfl := Except.error.inj h
      obtain ⟨hle, hlt⟩ := ih hrest
      simp only [List.length_drop] at hlt
      simp only [List.length_cons]
      omega

end Utf8

namespace Bytes

/-- The row and the column of the byte at an offset, where `rows` follow one another. -/
def place : List Bytes → Nat → Nat × Nat
  | [], offset => (0, offset)
  | row :: rows, offset =>
    if offset < row.length then (0, offset)
    else ((place rows (offset - row.length)).1 + 1, (place rows (offset - row.length)).2)

theorem place_head {row : Bytes} {offset : Nat} (h : offset < row.length) (rows : List Bytes) :
    place (row :: rows) offset = (0, offset) := if_pos h

theorem place_tail (row : Bytes) (rows : List Bytes) (offset : Nat) :
    place (row :: rows) (row.length + offset) =
      ((place rows offset).1 + 1, (place rows offset).2) := by
  rw [place, if_neg (by omega), Nat.add_sub_cancel_left]

/-- A place is a column of its row, and the rows before it make up the rest of the offset. -/
theorem place_spec {rows : List Bytes} {offset : Nat} (h : offset < rows.flatten.length) :
    ∃ row, rows[(place rows offset).1]? = some row ∧ (place rows offset).2 < row.length ∧
      (rows.take (place rows offset).1).flatten.length + (place rows offset).2 = offset := by
  induction rows generalizing offset with
  | nil => simp at h
  | cons row rows ih =>
    by_cases hrow : offset < row.length
    · rw [place_head hrow]
      exact ⟨row, rfl, hrow, by simp⟩
    · obtain ⟨more, rfl⟩ := Nat.exists_eq_add_of_le (Nat.le_of_not_lt hrow)
      have hmore : more < rows.flatten.length := by
        rw [List.flatten_cons, List.length_append] at h
        omega
      obtain ⟨found, hfound, hcol, hsum⟩ := ih hmore
      rw [place_tail]
      refine ⟨found, hfound, hcol, ?_⟩
      rw [List.take_succ_cons, List.flatten_cons, List.length_append]
      omega

section
variable {ends : UInt8 → Bytes → Prop}

/-- Nowhere in `front`, which stands before `rest`, a row ends. -/
def Unbroken (ends : UInt8 → Bytes → Prop) (front rest : Bytes) : Prop :=
  ∀ before b after, front = before ++ b :: after → ¬ends b (after ++ rest)

/-- Rows that are cut behind each byte at which a row ends, and nowhere else. -/
inductive CutBehind (ends : UInt8 → Bytes → Prop) : List Bytes → Prop where
  | nil : CutBehind ends []
  | last {row : Bytes} (hne : row ≠ []) (hr : Unbroken ends row []) : CutBehind ends [row]
  | cons {front : Bytes} {e : UInt8} {rows : List Bytes}
      (hf : Unbroken ends front (e :: rows.flatten)) (he : ends e rows.flatten)
      (h : CutBehind ends rows) : CutBehind ends ((front ++ [e]) :: rows)

theorem unbroken_nil (rest : Bytes) : Unbroken ends [] rest := by
  intro before b after h
  simp at h

theorem Unbroken.cons {b : UInt8} {front rest : Bytes} (hb : ¬ends b (front ++ rest))
    (h : Unbroken ends front rest) : Unbroken ends (b :: front) rest := by
  intro before c after hfront
  cases before with
  | nil =>
    obtain ⟨rfl, rfl⟩ := List.cons.inj hfront
    exact hb
  | cons d before => exact h before c after (List.cons.inj hfront).2

theorem CutBehind.consPiece {b : UInt8} {rows : List Bytes} (hb : ¬ends b rows.flatten)
    (h : CutBehind ends rows) : CutBehind ends (consPiece b rows) := by
  cases h with
  | nil => exact .last (by simp) (.cons hb (unbroken_nil []))
  | last hne hr => exact .last (by simp) (.cons (by simpa using hb) hr)
  | @cons front e rows hf he h =>
    have hrows : CutBehind ends ((b :: front ++ [e]) :: rows) :=
      .cons (.cons (by simpa using hb) hf) he h
    exact hrows

theorem cutBehind_cutAfter {cuts : UInt8 → Bytes → Bool}
    (h : ∀ b rest, cuts b rest ↔ ends b rest) (bytes : Bytes) :
    CutBehind ends (cutAfter cuts bytes) := by
  induction bytes with
  | nil => exact .nil
  | cons b rest ih =>
    rw [cutAfter]
    split
    · next hb =>
      have hends : ends b (cutAfter cuts rest).flatten := by
        rw [flatten_cutAfter]
        exact (h b rest).mp hb
      have hrows : CutBehind ends (([] ++ [b]) :: cutAfter cuts rest) :=
        .cons (unbroken_nil _) hends ih
      exact hrows
    · next hb =>
      refine ih.consPiece ?_
      rw [flatten_cutAfter]
      exact fun hends => hb ((h b rest).mpr hends)

end

end Bytes

section
variable {row : Nat} {bytes : Bytes} {rows : List Bytes}

theorem decodeRowsFrom_of_failure {f : Utf8.Failure} (h : Utf8.decode bytes = .error f) :
    (decodeRowsFrom row (bytes :: rows)).toExcept = .error (malformedBytes row f) := by
  rw [decodeRowsFrom, h]
  rfl

theorem decodeRowsFrom_of_text {t : Text} (h : Utf8.decode bytes = .ok t) :
    (decodeRowsFrom row (bytes :: rows)).toExcept =
      (decodeRowsFrom (row + 1) rows).toExcept.map (t ++ ·) := by
  rw [decodeRowsFrom, h]
  unfold TextStream.toExcept
  dsimp only
  cases (decodeRowsFrom (row + 1) rows).failure <;> rfl

/-- The error for a failure in `rows`, of which the first one has the number `row`. -/
def malformedRows (row : Nat) (rows : List Bytes) (f : Utf8.Failure) : Error :=
  malformedBytes (row + (Bytes.place rows f.start).1) ⟨(Bytes.place rows f.start).2, f.flaw⟩

theorem malformedRows_head {f : Utf8.Failure} (h : Utf8.decode bytes = .error f) :
    malformedRows row (bytes :: rows) f = malformedBytes row f := by
  obtain ⟨-, hlt⟩ := Utf8.start_of_decodeFrom h
  rw [malformedRows, Bytes.place_head (by simpa using hlt)]
  rfl

theorem malformedRows_tail (f : Utf8.Failure) :
    malformedRows row (bytes :: rows) ⟨bytes.length + f.start, f.flaw⟩ =
      malformedRows (row + 1) rows f := by
  rw [malformedRows, malformedRows, Bytes.place_tail]
  congr 1
  omega

/-- Rows that end with a byte below 0x80 are decoded one by one as they are
decoded as a whole. -/
theorem toExcept_decodeRowsFrom {ends : UInt8 → Bytes → Prop}
    (hends : ∀ b rest, ends b rest → Utf8.IsSingle b) (h : Bytes.CutBehind ends rows) (row : Nat) :
    (decodeRowsFrom row rows).toExcept =
      (Utf8.decode rows.flatten).mapError (malformedRows row rows) := by
  induction h generalizing row with
  | nil => rw [List.flatten_nil, Utf8.decode, Utf8.decodeFrom]; rfl
  | @last bytes hne hr =>
    rw [List.flatten_singleton]
    cases hb : Utf8.decode bytes with
    | error f =>
      rw [decodeRowsFrom_of_failure hb]
      exact congrArg Except.error (malformedRows_head hb).symm
    | ok t =>
      rw [decodeRowsFrom_of_text hb]
      exact congrArg Except.ok t.append_nil
  | @cons front e rows hf he h ih =>
    have hwhole : Utf8.decode ((front ++ [e]) ++ rows.flatten) =
        (Utf8.decode (front ++ [e]) >>= fun t =>
          (Utf8.decodeFrom ((front ++ [e]).length + 0) rows.flatten).map (t ++ ·)) := by
      rw [List.append_assoc, List.singleton_append, Utf8.decode, Utf8.decodeFrom_append (hends _ _ he)]
      simp [Utf8.decode]
    rw [List.flatten_cons, hwhole, Utf8.decodeFrom_shift]
    cases hb : Utf8.decode (front ++ [e]) with
    | error f =>
      rw [decodeRowsFrom_of_failure hb, ← malformedRows_head hb]
      rfl
    | ok t =>
      rw [decodeRowsFrom_of_text hb, ih, ← Utf8.decode]
      cases Utf8.decode rows.flatten with
      | ok u => rfl
      | error f => exact congrArg Except.error (malformedRows_tail f).symm

end

/-! ### The rows of a file and of other input -/

namespace Bytes

theorem flatten_fileRows (bytes : Bytes) : bytes.fileRows.flatten = bytes := flatten_cutAfter _ bytes

theorem flatten_rows (bytes : Bytes) : bytes.rows.flatten = bytes := flatten_cutAfter _ bytes

/-- A row of a file ends with a line feed. -/
def EndsFileRow (b : UInt8) (_ : Bytes) : Prop := b = 0x0A

/-- A row of other input ends with a line feed, the one of a pair included, or
with a carriage return that stands alone. -/
def EndsInputRow (b : UInt8) (rest : Bytes) : Prop :=
  b = 0x0A ∨ b = 0x0D ∧ rest.head? ≠ some 0x0A

theorem cutBehind_fileRows (bytes : Bytes) : CutBehind EndsFileRow bytes.fileRows := by
  refine cutBehind_cutAfter (fun b rest => ?_) bytes
  rw [decide_eq_true_eq]
  exact Iff.rfl

theorem cutBehind_rows (bytes : Bytes) : CutBehind EndsInputRow bytes.rows := by
  refine cutBehind_cutAfter (fun b rest => ?_) bytes
  simp only [endsRow, Bool.or_eq_true, Bool.and_eq_true, decide_eq_true_eq]
  exact Iff.rfl

theorem single_of_endsFileRow (b : UInt8) (rest : Bytes) (h : EndsFileRow b rest) :
    Utf8.IsSingle b := by
  obtain rfl : b = 0x0A := h
  unfold Utf8.IsSingle
  decide

theorem single_of_endsInputRow (b : UInt8) (rest : Bytes) (h : EndsInputRow b rest) :
    Utf8.IsSingle b := by
  unfold Utf8.IsSingle
  obtain rfl | ⟨rfl, -⟩ := h <;> decide

/-- A line feed follows each carriage return before an offset. -/
def ReturnsPaired (bytes : Bytes) (offset : Nat) : Prop :=
  ∀ n < offset, bytes[n]? = some carriageReturn → bytes[n + 1]? = some lineFeed

theorem place_consPiece (b : UInt8) {rows : List Bytes} {offset : Nat}
    (h : offset < rows.flatten.length) :
    place (consPiece b rows) (offset + 1) =
      ((place rows offset).1, (place rows offset).2 + if (place rows offset).1 = 0 then 1 else 0) := by
  cases rows with
  | nil => simp at h
  | cons row rows =>
    by_cases hrow : offset < row.length
    · rw [consPiece, place_head hrow, place_head (by simpa using hrow)]
      rfl
    · obtain ⟨more, rfl⟩ := Nat.exists_eq_add_of_le (Nat.le_of_not_lt hrow)
      have hmore : row.length + more + 1 = (b :: row).length + more := by
        simp
        omega
      rw [consPiece, hmore, place_tail, place_tail]
      rfl

section
variable {ends : UInt8 → Bytes → Bool}

theorem place_cut_zero (b : UInt8) (rest : Bytes) : place (cutAfter ends (b :: rest)) 0 = (0, 0) := by
  rw [cutAfter]
  split
  · rfl
  · cases cutAfter ends rest <;> rfl

/-- A byte more in front moves a place to the next row, or to the next column of the first row. -/
theorem place_cut_succ (b : UInt8) {rest : Bytes} {offset : Nat} (ho : offset < rest.length) :
    place (cutAfter ends (b :: rest)) (offset + 1) =
      if ends b rest then
        ((place (cutAfter ends rest) offset).1 + 1, (place (cutAfter ends rest) offset).2)
      else ((place (cutAfter ends rest) offset).1, (place (cutAfter ends rest) offset).2 +
        if (place (cutAfter ends rest) offset).1 = 0 then 1 else 0) := by
  rw [cutAfter]
  split
  · have hone : offset + 1 = [b].length + offset := by simp [Nat.add_comm]
    rw [hone, place_tail]
  · rw [place_consPiece b (by rwa [flatten_cutAfter])]

end

theorem endsRow_of_paired {b : UInt8} {rest : Bytes}
    (h : b = carriageReturn → rest.head? = some lineFeed) :
    endsRow b rest = decide (b = lineFeed) := by
  by_cases hb : b = carriageReturn <;> simp [endsRow, hb, h]

theorem returnsPaired_cons {b : UInt8} {rest : Bytes} {offset : Nat} :
    ReturnsPaired (b :: rest) (offset + 1) ↔
      (b = carriageReturn → rest.head? = some lineFeed) ∧ ReturnsPaired rest offset := by
  constructor
  · intro h
    refine ⟨?_, fun n hn hr => h (n + 1) (by omega) hr⟩
    rintro rfl
    rw [List.head?_eq_getElem?]
    exact h 0 (by omega) rfl
  · rintro ⟨hhead, hrest⟩ n hn hr
    cases n with
    | zero =>
      have hlf : rest.head? = some lineFeed := hhead (by simpa using hr)
      rwa [List.head?_eq_getElem?] at hlf
    | succ n => exact hrest n (by omega) hr

/-- Where no carriage return stands alone before it, a byte is at the same
place among the rows of a file and of other input. -/
theorem place_rows {bytes : Bytes} {offset : Nat} (ho : offset < bytes.length)
    (h : bytes.ReturnsPaired offset) : place bytes.rows offset = place bytes.fileRows offset := by
  unfold rows fileRows
  induction bytes generalizing offset with
  | nil => simp at ho
  | cons b rest ih =>
    cases offset with
    | zero => rw [place_cut_zero, place_cut_zero]
    | succ offset =>
      have hoffset : offset < rest.length := by simpa using ho
      obtain ⟨hhead, hrest⟩ := returnsPaired_cons.mp h
      rw [place_cut_succ b hoffset, place_cut_succ b hoffset, ih hoffset hrest,
        endsRow_of_paired hhead]

/-- Other input has a row more for each carriage return that stands alone. -/
theorem row_lt_of_unpaired {bytes : Bytes} {offset : Nat} (ho : offset < bytes.length) :
    (place bytes.fileRows offset).1 ≤ (place bytes.rows offset).1 ∧
      (¬bytes.ReturnsPaired offset →
        (place bytes.fileRows offset).1 < (place bytes.rows offset).1) := by
  unfold rows fileRows
  induction bytes generalizing offset with
  | nil => simp at ho
  | cons b rest ih =>
    cases offset with
    | zero =>
      rw [place_cut_zero, place_cut_zero]
      exact ⟨Nat.le_refl 0, fun h => absurd (fun n hn => absurd hn (Nat.not_lt_zero n)) h⟩
    | succ offset =>
      have hoffset : offset < rest.length := by simpa using ho
      obtain ⟨hle, hlt⟩ := ih hoffset
      rw [returnsPaired_cons, place_cut_succ b hoffset, place_cut_succ b hoffset]
      by_cases hhead : b = carriageReturn → rest.head? = some lineFeed
      · rw [endsRow_of_paired hhead]
        by_cases hb : b = lineFeed <;> simp [hb] <;> grind
      · -- The return ends a row here and none there, and no later byte makes up for that.
        obtain ⟨hr, hnext⟩ := Classical.not_imp.mp hhead
        have hb : b ≠ lineFeed := by rw [hr]; decide
        have hends : endsRow b rest = true := by simp [endsRow, hr, hnext]
        rw [if_neg (by simp [hb]), if_pos hends]
        exact ⟨by simp; omega, fun _ => by simp; omega⟩

end Bytes

/-- The bytes of a file fail to be decoded where they do as a whole. -/
theorem decodeFile_eq (bytes : Bytes) :
    decodeFile bytes = (Utf8.decode bytes).mapError (malformedRows 0 bytes.fileRows) := by
  have h := toExcept_decodeRowsFrom Bytes.single_of_endsFileRow bytes.cutBehind_fileRows 0
  rwa [bytes.flatten_fileRows] at h

theorem decode_bytes_eq (bytes : Bytes) :
    (Input.bytes bytes).decode = (Utf8.decode bytes).mapError (malformedRows 0 bytes.rows) := by
  have h := toExcept_decodeRowsFrom Bytes.single_of_endsInputRow bytes.cutBehind_rows 0
  rwa [bytes.flatten_rows] at h

/-- The result `x` is what decoding `bytes` as a whole comes to, where a failure is told by the
row and the column of the first byte that is not decoded. A row ends where `ends` holds. -/
structure DecodedInRows (ends : UInt8 → Bytes → Prop) (bytes : Bytes) (rows : List Bytes)
    (x : Except Error Text) : Prop where
  whole : rows.flatten = bytes
  cut : Bytes.CutBehind ends rows
  text : ∀ t, x = .ok t ↔ Utf8.decode bytes = .ok t
  failure : ∀ f, Utf8.decode bytes = .error f → ∃ (row col : Nat) (bad : Bytes),
    x = .error (.malformedText ⟨row, col, .text⟩ f.flaw.reason) ∧ rows[row]? = some bad ∧
      col < bad.length ∧ (rows.take row).flatten.length + col = f.start

theorem decodedInRows_of_eq {ends : UInt8 → Bytes → Prop} {bytes : Bytes} {rows : List Bytes}
    {x : Except Error Text} (hrows : rows.flatten = bytes) (hcut : Bytes.CutBehind ends rows)
    (hx : x = (Utf8.decode bytes).mapError (malformedRows 0 rows)) :
    DecodedInRows ends bytes rows x := by
  refine ⟨hrows, hcut, fun t => hx ▸ mapError_eq_ok, fun f hf => ?_⟩
  have hlt : f.start < rows.flatten.length := by
    simpa [hrows] using (Utf8.start_of_decodeFrom hf).2
  obtain ⟨bad, hbad, hcol, hsum⟩ := Bytes.place_spec hlt
  have hfail : x = .error (malformedRows 0 rows f) := by
    rw [hx, hf]
    rfl
  refine ⟨_, _, bad, ?_, hbad, hcol, hsum⟩
  rw [hfail, malformedRows, malformedBytes, Nat.zero_add]

/-- No cut changes what is decoded or what is wrong with it, and where that is can be told from
the place among the rows. -/
theorem decode_in_rows (bytes : Bytes) :
    DecodedInRows Bytes.EndsInputRow bytes bytes.rows (Input.bytes bytes).decode ∧
      DecodedInRows Bytes.EndsFileRow bytes bytes.fileRows (decodeFile bytes) :=
  ⟨decodedInRows_of_eq bytes.flatten_rows bytes.cutBehind_rows (decode_bytes_eq bytes),
    decodedInRows_of_eq bytes.flatten_fileRows bytes.cutBehind_fileRows (decodeFile_eq bytes)⟩

theorem malformedRows_of_paired {bytes : Bytes} {f : Utf8.Failure}
    (hf : Utf8.decode bytes = .error f) (h : bytes.ReturnsPaired f.start) :
    malformedRows 0 bytes.rows f = malformedRows 0 bytes.fileRows f := by
  have hlt : f.start < bytes.length := by simpa using (Utf8.start_of_decodeFrom hf).2
  rw [malformedRows, malformedRows, Bytes.place_rows hlt h]

theorem paired_of_malformedRows {bytes : Bytes} {f : Utf8.Failure}
    (hf : Utf8.decode bytes = .error f)
    (h : malformedRows 0 bytes.rows f = malformedRows 0 bytes.fileRows f) :
    bytes.ReturnsPaired f.start := by
  have hlt : f.start < bytes.length := by simpa using (Utf8.start_of_decodeFrom hf).2
  refine Classical.byContradiction fun hunpaired => ?_
  have hrow := (Bytes.row_lt_of_unpaired hlt).2 hunpaired
  simp only [malformedRows, malformedBytes, Error.malformedText.injEq, Location.mk.injEq] at h
  omega

/-- A file and other input are decoded alike exactly if no carriage return
stands alone before the first malformed byte. -/
theorem decode_bytes_eq_decodeFile_iff (bytes : Bytes) :
    (Input.bytes bytes).decode = decodeFile bytes ↔
      ∀ f, Utf8.decode bytes = .error f → bytes.ReturnsPaired f.start := by
  rw [decodeFile_eq, decode_bytes_eq]
  cases hf : Utf8.decode bytes with
  | ok t =>
    have hnone : ∀ f : Utf8.Failure, Except.ok t = .error f → bytes.ReturnsPaired f.start := nofun
    exact iff_of_true rfl hnone
  | error f =>
    constructor
    · rintro h g ⟨⟩
      exact paired_of_malformedRows hf (Except.error.inj h)
    · intro h
      exact congrArg Except.error (malformedRows_of_paired hf (h f rfl))

end TextMacros
