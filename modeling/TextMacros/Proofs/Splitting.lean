import Mathlib
import TextMacros.Proofs.Balance
import TextMacros.Proofs.Edges

/-!
# Splitting at commas

The arguments of an invocation are what its parentheses hold, cut at the
commas that stand in no further parentheses. What they are is said here
without a scan: only one list of balanced arguments, put together with commas,
gives the tokens between the parentheses. The scan finds that list, or fails
because nothing closes the list or because its length does not fit.
-/

set_option autoImplicit false

namespace TextMacros

/-! ### Open parentheses -/

def Token.step (t : Token) : Int :=
  if t.kind = .lparen then 1 else if t.kind = .rparen then -1 else 0

/-- How many more parentheses are open after a list than before it. -/
def level (ts : List Token) : Int := (ts.map Token.step).sum

@[simp] theorem level_nil : level [] = 0 := rfl

@[simp] theorem level_cons (t : Token) (ts : List Token) : level (t :: ts) = t.step + level ts := by
  simp [level]

@[simp] theorem level_append (ts us : List Token) : level (ts ++ us) = level ts + level us := by
  simp [level]

theorem Token.step_open {t : Token} (h : t.kind = .lparen) : t.step = 1 := by simp [step, h]

theorem Token.step_close {t : Token} (h : t.kind = .rparen) : t.step = -1 := by simp [step, h]

theorem Token.step_other {t : Token} (hl : t.kind ≠ .lparen) (hr : t.kind ≠ .rparen) :
    t.step = 0 := by
  simp [step, hl, hr]

theorem level_of_settles {ts : List Token} {depth : Nat} (h : Settles depth (parentheses ts)) :
    level ts + depth = 0 := by
  induction ts generalizing depth with
  | nil =>
    have hd : depth = 0 := h
    simp [hd]
  | cons t ts ih =>
    rw [level_cons]
    by_cases hl : t.kind = .lparen
    · rw [parentheses_open hl] at h
      have : level ts + ((depth + 1 : Nat) : Int) = 0 := ih h
      rw [Token.step_open hl]
      omega
    by_cases hr : t.kind = .rparen
    · rw [parentheses_close hr] at h
      cases depth with
      | zero => exact h.elim
      | succ depth =>
        have : level ts + (depth : Int) = 0 := ih h
        rw [Token.step_close hr]
        omega
    · rw [parentheses_other hl hr] at h
      have := ih h
      rw [Token.step_other hl hr]
      omega

/-- No token of the kind stands outside of all parentheses, where `depth` of
them are open before the list. -/
def NoneOutside (kind : TokenKind) (depth : Int) (ts : List Token) : Prop :=
  ∀ front t back, ts = front ++ t :: back → t.kind = kind → depth + level front ≠ 0

theorem noneOutside_nil (kind : TokenKind) (depth : Int) : NoneOutside kind depth [] := by
  intro front t back h
  simp at h

theorem noneOutside_cons {kind : TokenKind} {depth : Int} {t : Token} {ts : List Token} :
    NoneOutside kind depth (t :: ts) ↔
      (t.kind = kind → depth ≠ 0) ∧ NoneOutside kind (depth + t.step) ts := by
  constructor
  · intro h
    constructor
    · intro hk
      simpa using h [] t ts rfl hk
    · intro front u back hts hk
      have := h (t :: front) u back (by simp [hts]) hk
      rw [level_cons] at this
      omega
  · intro h front u back hts hk
    cases front with
    | nil =>
      obtain ⟨rfl, -⟩ := List.cons.inj hts
      simpa using h.1 hk
    | cons v front =>
      obtain ⟨rfl, hrest⟩ := List.cons.inj hts
      have := h.2 front u back hrest hk
      rw [level_cons]
      omega

/-- Of the tokens of the kind that stand outside of all parentheses there is a first one. -/
theorem noneOutside_or_first (kind : TokenKind) (depth : Int) (ts : List Token) :
    NoneOutside kind depth ts ∨ ∃ front t back, ts = front ++ t :: back ∧ t.kind = kind ∧
      depth + level front = 0 ∧ NoneOutside kind depth front := by
  induction ts generalizing depth with
  | nil => exact .inl (noneOutside_nil kind depth)
  | cons t ts ih =>
    by_cases ht : t.kind = kind ∧ depth = 0
    · exact .inr ⟨[], t, ts, rfl, ht.1, by simp [ht.2], noneOutside_nil kind depth⟩
    have hhead : t.kind = kind → depth ≠ 0 := fun hk hd => ht ⟨hk, hd⟩
    rcases ih (depth + t.step) with hnone | ⟨front, u, back, rfl, hu, hl, hfirst⟩
    · exact .inl (noneOutside_cons.mpr ⟨hhead, hnone⟩)
    · refine .inr ⟨t :: front, u, back, rfl, hu, ?_, noneOutside_cons.mpr ⟨hhead, hfirst⟩⟩
      rw [level_cons]
      omega

/-! ### The one way to split -/

/-- An argument closes what it opens, and its commas stand in parentheses. -/
structure IsArgument (a : List Token) : Prop where
  balanced : Balanced a
  commas : NoneOutside .comma 0 a

theorem IsArgument.level {a : List Token} (h : IsArgument a) : level a = 0 := by
  simpa using level_of_settles ((balanced_iff a).mp h.balanced)

/-- The lists, at least one, put together with a comma between each and the next. -/
inductive Joins : List (List Token) → List Token → Prop where
  | last (a : List Token) : Joins [a] a
  | next {a : List Token} {comma : Token} {as : List (List Token)} {ts : List Token}
      (hc : comma.kind = .comma) (h : Joins as ts) : Joins (a :: as) (a ++ comma :: ts)

/-- Arguments that give the tokens when they are put together. -/
structure Splits (as : List (List Token)) (ts : List Token) : Prop where
  joins : Joins as ts
  arguments : ∀ a ∈ as, IsArgument a

/-- An argument goes on to the next comma outside of its parentheses. -/
theorem IsArgument.not_comma {a back : List Token} {t : Token} (ha : IsArgument a)
    (h : IsArgument (a ++ t :: back)) : t.kind ≠ .comma := by
  intro hk
  apply h.commas a t back rfl hk
  rw [ha.level]
  rfl

theorem IsArgument.append_inj {a b ts us : List Token} {c d : Token} (ha : IsArgument a)
    (hb : IsArgument b) (hc : c.kind = .comma) (hd : d.kind = .comma)
    (h : a ++ c :: ts = b ++ d :: us) : a = b ∧ ts = us := by
  rcases List.append_eq_append_iff.mp h with ⟨more, rfl, hts⟩ | ⟨more, rfl, hus⟩
  · cases more with
    | nil => simp_all
    | cons t more =>
      obtain ⟨rfl, -⟩ := List.cons.inj hts
      exact absurd hc (ha.not_comma hb)
  · cases more with
    | nil => simp_all
    | cons t more =>
      obtain ⟨rfl, -⟩ := List.cons.inj hus
      exact absurd hd (hb.not_comma ha)

theorem Splits.unique {as bs : List (List Token)} {ts : List Token} (ha : Splits as ts)
    (hb : Splits bs ts) : as = bs := by
  obtain ⟨hjoin, ha⟩ := ha
  obtain ⟨hjoin', hb⟩ := hb
  -- The first arguments are equal, since neither goes on beyond a comma that ends the other.
  induction hjoin generalizing bs with
  | last a =>
    obtain ⟨ha, -⟩ := List.forall_mem_cons.mp ha
    cases hjoin' with
    | last => rfl
    | next hc h =>
      obtain ⟨hb, -⟩ := List.forall_mem_cons.mp hb
      exact absurd hc (hb.not_comma ha)
  | @next a comma as ts hc h ih =>
    obtain ⟨ha, has⟩ := List.forall_mem_cons.mp ha
    generalize hus : a ++ comma :: ts = us at hjoin'
    cases hjoin' with
    | last =>
      subst hus
      obtain ⟨hb, -⟩ := List.forall_mem_cons.mp hb
      exact absurd hc (ha.not_comma hb)
    | next hc' h' =>
      obtain ⟨hb, hbs⟩ := List.forall_mem_cons.mp hb
      obtain ⟨rfl, rfl⟩ := ha.append_inj hb hc hc' hus
      rw [ih has h' hbs]

namespace ArgumentList

/-- One token more at the front of the first argument. -/
theorem joins_keep {a : ArgumentList} {ts : List Token} (h : Joins a.toList ts) (t : Token) :
    Joins (keep t a).toList (t :: ts) := by
  generalize hl : a.toList = as at h
  cases h with
  | last first =>
    obtain ⟨rfl, ho⟩ := List.cons.inj hl
    simp only [toList, keep, ho]
    exact .last _
  | next hc h =>
    obtain ⟨rfl, ho⟩ := List.cons.inj hl
    simp only [toList, keep, ho]
    exact .next (a := t :: a.first) hc h

/-- A list goes on for at least one token, its closing parenthesis. -/
theorem Reads.take_length {depth : Nat} {ts : List Token} {a : ArgumentList}
    (h : Reads depth ts a) (t : Token) :
    (t :: ts).take a.length = t :: ts.take (a.length - 1) :=
  List.take_cons h.length_pos

/-- Put together, the arguments are what is read, but for the layout and for
the parenthesis at the end. -/
theorem Reads.joins {depth : Nat} {ts : List Token} {a : ArgumentList} (h : Reads depth ts a) :
    Joins a.toList (withoutLayout (ts.take (a.length - 1))) := by
  induction h with
  | close hk => exact .last []
  | @leave t ts depth a hk h ih | @enter t ts depth a hk h ih =>
    show Joins (keep t a).toList (withoutLayout ((t :: ts).take a.length))
    rw [h.take_length, withoutLayout_keep (by simp [Token.isLayout, hk])]
    exact joins_keep ih t
  | @comma t ts a hk h ih =>
    show Joins a.split.toList (withoutLayout ((t :: ts).take a.length))
    rw [h.take_length, withoutLayout_keep (by simp [Token.isLayout, hk])]
    exact .next (a := []) hk ih
  | @layout t ts depth a hk h ih =>
    show Joins a.skip.toList (withoutLayout ((t :: ts).take a.length))
    rw [h.take_length, withoutLayout_drop hk]
    exact ih
  | @plain t ts depth a hr hl hc hk h ih =>
    show Joins (keep t a).toList (withoutLayout ((t :: ts).take a.length))
    rw [h.take_length, withoutLayout_keep hk]
    exact joins_keep ih t

/-- The commas of an argument are kept in it because they stand in parentheses. -/
theorem Reads.commas {depth : Nat} {ts : List Token} {a : ArgumentList} (h : Reads depth ts a) :
    NoneOutside .comma depth a.first ∧ ∀ b ∈ a.others, NoneOutside .comma 0 b := by
  induction h with
  | close hk => exact ⟨noneOutside_nil .comma 0, by simp [closed]⟩
  | @leave t ts depth a hk h ih =>
    refine ⟨noneOutside_cons.mpr ⟨by simp [hk], ?_⟩, ih.2⟩
    rw [Token.step_close hk]
    simpa using ih.1
  | @enter t ts depth a hk h ih =>
    refine ⟨noneOutside_cons.mpr ⟨by simp [hk], ?_⟩, ih.2⟩
    rw [Token.step_open hk]
    simpa using ih.1
  | @comma t ts a hk h ih =>
    exact ⟨noneOutside_nil .comma 0, List.forall_mem_cons.mpr ih⟩
  | layout hk h ih => exact ih
  | @plain t ts depth a hr hl hc hk h ih =>
    refine ⟨noneOutside_cons.mpr ⟨by simpa using hc, ?_⟩, ih.2⟩
    rw [Token.step_other hl hr]
    simpa using ih.1

theorem Reads.splits {ts : List Token} {a : ArgumentList} (h : Reads 0 ts a) :
    Splits a.toList (withoutLayout (ts.take (a.length - 1))) := by
  refine ⟨h.joins, fun b hb => ⟨(balanced_iff b).mpr (h.balanced b hb), ?_⟩⟩
  obtain ⟨hfirst, hothers⟩ := h.commas
  rcases List.mem_cons.mp hb with rfl | hb
  · exact hfirst
  · exact hothers b hb

/-- What is read ends where as much is closed as was open, and one more. -/
theorem Reads.level_front {depth : Nat} {front back : List Token} {close : Token}
    {a : ArgumentList} (h : Reads depth (front ++ close :: back) a) (hc : close.kind = .rparen)
    (hn : a.length = front.length + 1) : depth + level front = 0 := by
  have hlevel := level_of_settles h.settles.2.2
  rw [hn, List.take_length_add_append] at hlevel
  simp only [level_append, level_cons, List.take_succ_cons, List.take_zero, level_nil,
    Token.step_close hc] at hlevel
  omega

/-- Where for the first time as much is closed as was open, and one more, the list ends. -/
theorem exists_reads_front {front : List Token} {close : Token} {depth : Nat}
    (hc : close.kind = .rparen) (hl : depth + level front = 0)
    (hfirst : NoneOutside .rparen depth front) (back : List Token) :
    ∃ a, Reads depth (front ++ close :: back) a ∧ a.length = front.length + 1 := by
  -- With each token `depth` changes by as much as what is left of `front` has to close.
  induction front generalizing depth with
  | nil =>
    obtain rfl : depth = 0 := by simpa using hl
    exact ⟨_, .close hc, rfl⟩
  | cons t front ih =>
    obtain ⟨hpos, hrest⟩ := noneOutside_cons.mp hfirst
    rw [level_cons] at hl
    by_cases hr : t.kind = .rparen
    · cases depth with
      | zero => exact absurd rfl (hpos hr)
      | succ depth =>
        rw [Token.step_close hr] at hl hrest
        have hl' : (depth : Int) + level front = 0 := by omega
        obtain ⟨a, ha, hn⟩ := ih hl' (by simpa using hrest)
        exact ⟨_, .leave hr ha, by simp [keep, hn]⟩
    by_cases ho : t.kind = .lparen
    · rw [Token.step_open ho] at hl hrest
      have hl' : ((depth + 1 : Nat) : Int) + level front = 0 := by omega
      obtain ⟨a, ha, hn⟩ := ih hl' (by simpa using hrest)
      exact ⟨_, .enter ho ha, by simp [keep, hn]⟩
    rw [Token.step_other ho hr, Int.add_zero] at hrest
    rw [Token.step_other ho hr, Int.zero_add] at hl
    obtain ⟨a, ha, hn⟩ := ih hl hrest
    by_cases hk : t.isLayout = true
    · exact ⟨_, .layout hk ha, by simp [skip, hn]⟩
    by_cases hcomma : t.kind = .comma ∧ depth = 0
    · obtain ⟨hcomma, rfl⟩ := hcomma
      exact ⟨_, .comma hcomma ha, by simp [split, hn]⟩
    · have hplain : t.kind = .comma → depth ≠ 0 := fun hk hd => hcomma ⟨hk, hd⟩
      exact ⟨_, .plain hr ho hplain (by simpa using hk) ha, by simp [keep, hn]⟩

end ArgumentList

/-! ### Scanning at a place -/

namespace Invocation
variable {r : Registry} {name opening : Token} {breaks inner : List Token} {callee : Macro}
  {parameters : List Text}

/-- Line breaks between a name and its parenthesis are passed over. -/
theorem scan_call (hk : name.kind = .identifier) (hl : r.lookup name.text = some callee)
    (hp : callee.parameters = some parameters) (hb : ∀ t ∈ breaks, t.kind = .eol)
    (ho : opening.kind = .lparen) (inner : List Token) :
    scan r name (breaks ++ opening :: inner) =
      (call callee parameters name breaks.length inner).map some := by
  have htake : (breaks ++ opening :: inner).takeWhile (fun t => t.kind = .eol) = breaks := by
    rw [List.takeWhile_append_of_pos (by simpa using hb)]
    simp [ho]
  simp only [scan, hk, hl, hp, htake, ne_eq, not_true_eq_false, if_false, List.drop_left, ho]

theorem call_unterminated (h : NoneOutside .rparen 0 inner) (breaks : Nat) :
    call callee parameters name breaks inner =
      .error (.unterminatedInvocation name.location name.text) := by
  have hread : ArgumentList.read 0 inner = none := by
    cases hr : ArgumentList.read 0 inner with
    | none => rfl
    | some a =>
      have hreads := ArgumentList.reads_of_read hr
      obtain ⟨front, close, back, rfl, hc, hn⟩ := hreads.split_close
      exact absurd (hreads.level_front hc hn) (h front close back rfl hc)
  simp only [call, hread]

theorem call_of_reads {a : ArgumentList} (h : ArgumentList.Reads 0 inner a) (breaks : Nat) :
    call callee parameters name breaks inner =
      if parameters = [] ∧ a.toList = [[]] then .ok ⟨callee, some [], breaks + 1 + a.length⟩
      else if a.toList.length = parameters.length then
        .ok ⟨callee, some a.toList, breaks + 1 + a.length⟩
      else .error (.argumentCount name.location callee.name parameters.length a.toList.length) := by
  simp only [call, ArgumentList.read_of_reads h, fitArguments, List.length_eq_zero_iff]
  split
  next hempty => simp [hempty.1]
  next => rfl

end Invocation

/-- The scan of a call at its name, with line breaks before the parenthesis. It fails if no
later parenthesis closes the list. Otherwise the tokens up to the first one that does can be
split in one way only, and the number of arguments decides: the occurrence goes from the name
to that parenthesis, or the scan fails with the two numbers. -/
theorem scanAt_call (r : Registry) (before breaks inner : List Token) (name opening : Token)
    (callee : Macro) (parameters : List Text) (hk : name.kind = .identifier)
    (hl : r.lookup name.text = some callee) (hp : callee.parameters = some parameters)
    (hb : ∀ t ∈ breaks, t.kind = .eol) (ho : opening.kind = .lparen) :
    (NoneOutside .rparen 0 inner ∧
      Invocation.scanAt r (before ++ name :: (breaks ++ opening :: inner)) before.length =
        .ok (.error (.unterminatedInvocation name.location name.text))) ∨
    ∃ front close back args, inner = front ++ close :: back ∧ close.kind = .rparen ∧
      level front = 0 ∧ NoneOutside .rparen 0 front ∧ Splits args (withoutLayout front) ∧
      (∀ others, Splits others (withoutLayout front) → others = args) ∧
      Invocation.scanAt r (before ++ name :: (breaks ++ opening :: inner)) before.length =
        .ok (if parameters = [] ∧ args = [[]] then
          .ok (some ⟨⟨callee, some [], breaks.length + front.length + 2⟩, before.length,
            (before ++ name :: (breaks ++ opening :: (front ++ [close]))).length⟩)
        else if args.length = parameters.length then
          .ok (some ⟨⟨callee, some args, breaks.length + front.length + 2⟩, before.length,
            (before ++ name :: (breaks ++ opening :: (front ++ [close]))).length⟩)
        else .error (.argumentCount name.location name.text parameters.length args.length)) := by
  have hscan : Invocation.scanAt r (before ++ name :: (breaks ++ opening :: inner)) before.length =
      .ok ((Invocation.call callee parameters name breaks.length inner).map
        fun i => some (i.occurrence before.length)) := by
    simp only [Invocation.scanAt, List.drop_left, Invocation.scan_call hk hl hp hb ho]
    cases Invocation.call callee parameters name breaks.length inner <;> rfl
  rcases noneOutside_or_first .rparen 0 inner with
    hnone | ⟨front, close, back, rfl, hc, hlevel, hfirst⟩
  · left
    rw [hscan, Invocation.call_unterminated hnone]
    exact ⟨hnone, rfl⟩
  · right
    -- Reading ends at the first parenthesis that closes the list, and gives the one way to split.
    obtain ⟨a, ha, hn⟩ := ArgumentList.exists_reads_front hc hlevel hfirst back
    have hsplits : Splits a.toList (withoutLayout front) := by
      have hread := ha.splits
      rwa [hn, Nat.add_sub_cancel, List.take_left] at hread
    refine ⟨front, close, back, a.toList, rfl, hc, by simpa using hlevel, hfirst, hsplits,
      fun others h => h.unique hsplits, ?_⟩
    have hname : callee.name = name.text := Registry.name_of_lookup hl
    have hfollowing : breaks.length + 1 + a.length = breaks.length + front.length + 2 := by omega
    have hfinish : before.length + 1 + (breaks.length + front.length + 2) =
        (before ++ name :: (breaks ++ opening :: (front ++ [close]))).length := by
      simp only [List.length_append, List.length_cons, List.length_nil]
      omega
    rw [hscan, Invocation.call_of_reads ha, hfollowing, hname, ← hfinish]
    split
    · rfl
    split <;> rfl

def splitSample : Registry := ⟨[⟨"F", some ["a", "b", "c"], [], .definition⟩]⟩

/-- What stands behind `F (` in a call with a comma and a comment inside of it. -/
def innerSample : List Token :=
  let touching (kind : TokenKind) (text : Text) : Token := ⟨kind, text, .definition, some false⟩
  [touching .identifier "x", touching .comma ",", touching .lparen "(", touching .identifier "y",
    touching .comma ",", touching .rparen ")", touching .comma ",", touching .comment "// )",
    touching .eol [CodePoint.lineFeed], touching .rparen ")", touching .rparen ")"]

/-- A line break stands before the parenthesis, and the last argument is empty. -/
theorem scanAt_call_sample :
    let touching (kind : TokenKind) (text : Text) : Token := ⟨kind, text, .definition, some false⟩
    let before := [touching .punctuation "+"]
    let name := touching .identifier "F"
    let breaks := [touching .eol [CodePoint.lineFeed]]
    let opening := touching .lparen "("
    let callee : Macro := ⟨"F", some ["a", "b", "c"], [], .definition⟩
    splitSample.lookup "F" = some callee ∧ (∀ t ∈ breaks, t.kind = .eol) ∧
    ∃ front close back args, innerSample = front ++ close :: back ∧ close.kind = .rparen ∧
      level front = 0 ∧ NoneOutside .rparen 0 front ∧ Splits args (withoutLayout front) ∧
      (∀ others, Splits others (withoutLayout front) → others = args) ∧
      args.map (List.map Token.kind) =
        [[.identifier], [.lparen, .identifier, .comma, .rparen], []] ∧
      Invocation.scanAt splitSample (before ++ name :: (breaks ++ opening :: innerSample)) 1 =
        .ok (.ok (some ⟨⟨callee, some args, 12⟩, 1, 14⟩)) := by
  intro touching before name breaks opening callee
  have hb : ∀ t ∈ breaks, t.kind = .eol := by decide
  have hscan : Invocation.scanAt splitSample
      (before ++ name :: (breaks ++ opening :: innerSample)) 1 =
        .ok (.ok (some ⟨⟨callee, some [[touching .identifier "x"],
          [touching .lparen "(", touching .identifier "y", touching .comma ",",
            touching .rparen ")"], []], 12⟩, 1, 14⟩)) := by rfl
  refine ⟨rfl, hb, ?_⟩
  rcases scanAt_call splitSample before breaks innerSample name opening callee ["a", "b", "c"] rfl
    rfl rfl hb rfl with ⟨-, h⟩ | ⟨front, close, back, args, hi, hc, hl, hf, hs, hu, h⟩
  · cases hscan.symm.trans h
  · refine ⟨front, close, back, args, hi, hc, hl, hf, hs, hu, ?_⟩
    have hresult := hscan.symm.trans h
    rw [if_neg (by simp)] at hresult
    split at hresult
    · simp only [Except.ok.injEq, Option.some.injEq, Occurrence.mk.injEq, Invocation.mk.injEq,
        true_and] at hresult
      obtain rfl := hresult.1.1
      exact ⟨rfl, hscan⟩
    · simp at hresult

end TextMacros
