import TextMacros.Proofs.Neighbours

/-!
# Seams

Expansion puts new neighbours side by side only where it knows nothing about
the space between them or where a replaced name touched its left neighbour.
The second kind of seam is safe if nothing can be added to that neighbour.
-/

set_option autoImplicit false

namespace TextMacros

/-- None of `names` touches a token that something could be added to. -/
def Token.Loose (names : Text → Prop) (a b : Token) : Prop :=
  b.kind = .identifier → names b.text → ¬Grows a.kind a.text

def Token.Safe (names : Text → Prop) (a b : Token) : Prop := a.Meets b ∧ a.Loose names b

/-- Two neighbours on a line meet if they touch. -/
def Token.Told (a b : Token) : Prop :=
  a.isLayout = false → b.kind ≠ .eol → Touching Token.Meets a b

/-- Neighbours in a text are safe where no name touches what it could be added to. -/
theorem neighbours_safe {names : Text → Prop} {ts : List Token}
    (h : ts.IsChain (Neighbours Token.Meets)) (hn : ts.IsChain (Touching (Token.Loose names))) :
    ts.IsChain (Neighbours (Token.Safe names)) :=
  (isChain_and h hn).imp fun _ _ hab => hab.1.imp fun hm hs => ⟨hm hs, hab.2 hs⟩

theorem touching_safe {names : Text → Prop} {ts : List Token}
    (h : ts.IsChain (Touching Token.Meets)) (hn : ts.IsChain (Touching (Token.Loose names))) :
    ts.IsChain (Touching (Token.Safe names)) :=
  (isChain_and h hn).imp fun _ _ hab hs => ⟨hab.1 hs, hab.2 hs⟩

/-- Laid tokens are apart where they meet. -/
theorem Laid.isChain_apart {ts : List Token} (h : Laid ts) (hm : ts.IsChain Token.Told) :
    ts.IsChain Token.Apart := by
  apply (isChain_and h.comments hm).imp_of_mem_imp
  rintro a b ha hb ⟨hcomment, htold⟩ hak hbk hs
  have hlay : a.isLayout = false :=
    Token.isLayout_eq_false.mpr ⟨hak, fun hc => hbk (hcomment hc)⟩
  obtain ⟨merge, hmerge, hiff⟩ :=
    Token.wouldMerge_lexical ((h.writable a ha).lexical hak) ((h.writable b hb).lexical hbk)
  rw [hmerge, hiff.mpr (htold hlay hbk hs)]

theorem Lexical.leads_of_not_grows {kind : TokenKind} {text : Text} (h : Lexical kind text)
    (hk : kind ≠ .comment) (hg : ¬Grows kind text) (more : Text) : Leads kind text more :=
  h.leads.congr hk h.notStray fun hg' => absurd hg' hg

namespace Token
variable {names : Text → Prop} {t u v : Token}

theorem spaced_placed {afterSplice : Bool} (h : (t.placed afterSplice).spaced = some false) :
    afterSplice = false ∧ t.spaced = some false := by
  cases afterSplice with
  | false => exact ⟨rfl, h⟩
  | true =>
    simp only [placed, if_true, detached] at h
    split at h
    · cases h
    · contradiction

theorem Safe.withSpacing (h : t.Safe names u) (s : Option Bool) :
    (t.withSpacing s).Safe names u := h

theorem Safe.placed (h : t.Safe names u) (afterSplice : Bool) :
    (t.placed afterSplice).Safe names u := by
  simpa [Safe, Meets, Loose] using h

/-- What stands in the place of a name that was safe next to `t` is safe there. -/
theorem Safe.next (h : t.Safe names v) (ht : Plain t.kind t.text)
    (hu : u = v ∨ (v.kind = .identifier ∧ names v.text)) : t.Safe names u := by
  obtain rfl | ⟨hk, hv⟩ := hu
  · exact h
  · have hg : ¬Grows t.kind t.text := h.2 hk hv
    exact ⟨ht.1.leads_of_not_grows ht.2 hg u.text, fun _ _ => hg⟩

end Token

/-- Arguments are safe where they are put if no parameter touches what it could
be added to. -/
theorem substitute_safe {names : Text → Prop} {bs : Bindings} {body : List Token}
    (hp : Throughout Plain body) (hb : body.IsChain (Touching (Token.Safe names)))
    (ha : ∀ t a, bs.argument? t = some a → (t.kind = .identifier ∧ names t.text) ∧
      a.IsChain (Touching (Token.Safe names)))
    (afterArgument : Bool) (hfirst : afterArgument = true →
      ∀ t ∈ body.head?, t.spaced = some false → bs.argument? t = none) :
    (substitute bs afterArgument body).IsChain (Touching (Token.Safe names)) ∧
      ∀ u ∈ (substitute bs afterArgument body).head?, u.spaced = some false →
        afterArgument = false ∧ ∃ t ∈ body.head?, t.spaced = some false ∧
          (u = t ∨ (t.kind = .identifier ∧ names t.text)) := by
  induction body generalizing afterArgument with
  | nil => exact ⟨List.isChain_nil, by simp [substitute]⟩
  | cons t ts ih =>
    obtain ⟨ht, hts⟩ := throughout_cons.mp hp
    cases harg : bs.argument? t with
    | none =>
      obtain ⟨hchain, hhead⟩ := ih hts hb.tail false (by simp)
      have heq : substitute bs afterArgument (t :: ts) =
          t.placed afterArgument :: substitute bs false ts := by
        rw [substitute, harg]
        rfl
      rw [heq]
      constructor
      · apply hchain.cons
        intro u hu hs
        obtain ⟨-, v, hv, hvs, huv⟩ := hhead u hu hs
        exact ((hb.rel_head? hv hvs).next ht huv).placed afterArgument
      · intro u hu hs
        obtain rfl := Option.some.inj hu
        obtain ⟨rfl, hts⟩ := Token.spaced_placed hs
        exact ⟨rfl, t, rfl, hts, .inl rfl⟩
    | some a =>
      obtain ⟨⟨hk, hparam⟩, hachain⟩ := ha t a harg
      -- The next token cannot be a parameter that touches this one: both are names.
      have hnext : ∀ v ∈ ts.head?, v.spaced = some false → bs.argument? v = none := by
        intro v hv hvs
        cases hv' : bs.argument? v with
        | none => rfl
        | some b =>
          obtain ⟨⟨hvk, hvp⟩, -⟩ := ha v b hv'
          exact absurd (.inl hk) ((hb.rel_head? hv hvs).2 hvk hvp)
      obtain ⟨hchain, hhead⟩ := ih hts hb.tail true fun _ => hnext
      have heq : substitute bs afterArgument (t :: ts) =
          respace t.spaced a ++ substitute bs true ts := by
        rw [substitute, harg]
      have hseam : ∀ u ∈ (substitute bs true ts).head?, u.spaced ≠ some false :=
        fun u hu hs => absurd (hhead u hu hs).1 (by simp)
      rw [heq]
      constructor
      · refine (isChain_respace (fun _ _ s h hs => (h hs).withSpacing s) hachain t.spaced).append
          hchain ?_
        exact fun x _ u hu hs => absurd hs (hseam u hu)
      · intro u hu hs
        cases a with
        | nil => exact absurd hs (hseam u hu)
        | cons x a =>
          obtain rfl := Option.some.inj hu
          refine ⟨?_, t, rfl, hs, .inr ⟨hk, hparam⟩⟩
          cases afterArgument with
          | false => rfl
          | true =>
            rw [hfirst rfl t rfl hs] at harg
            cases harg

/-- The names that `m` binds: its own and those of its parameters. -/
def Macro.Binds (m : Macro) (name : Text) : Prop := name = m.name ∨ name ∈ m.parameters.getD []

/-- All that macros bind is among `names`, and in no body one of `names`
touches what it could be added to. -/
def Registry.Safe (names : Text → Prop) (r : Registry) : Prop :=
  ∀ key m, r.lookup key = some m →
    (∀ name, m.Binds name → names name) ∧ m.body.IsChain (Touching (Token.Safe names))

section
variable {names : Text → Prop} {r : Registry}

theorem Invocation.Found.safe (hr : r.Plain) (hs : r.Safe names) {t : Token} {rest : List Token}
    {i : Invocation} (h : Found r t rest i)
    (hrest : rest.IsChain (Neighbours (Token.Safe names))) :
    i.substitution.IsChain (Touching (Token.Safe names)) := by
  cases h with
  | object callee hl hp =>
    simp only [substitution, objectLike, hp]
    exact (hs _ _ hl).2
  | function callee parameters opening inner list hl hp hd ho hread hn =>
    have hinner : inner.IsChain (Neighbours (Token.Safe names)) := by
      have hdrop := hrest.drop (rest.takeWhile fun t => t.kind = .eol).length
      rw [hd] at hdrop
      exact hdrop.tail
    have hargs := ((ArgumentList.reads_of_read hread).touching (touching_withoutLayout hinner)).1
    obtain ⟨hbinds, hbody⟩ := hs _ _ hl
    have hparams : ∀ p ∈ parameters, names p := fun p hm => hbinds p (.inr (by simpa [hp] using hm))
    simp only [substitution, hp, Option.getD_some]
    refine (substitute_safe (hr _ _ hl) hbody (fun t a ha => ?_) false (by simp)).1
    obtain ⟨hk, hparam, hmem⟩ := Bindings.mem_of_argument? ha
    exact ⟨⟨hk, hparams _ hparam⟩, hargs a (mem_of_mem_fitArguments hmem)⟩

/-- Tokens that touch in an expansion do not merge. -/
theorem Expands.meets (hr : r.Plain) (hs : r.Safe names) {limit : Option Int} {depth : Int}
    {g : Guard} {afterSplice : Bool} {ts us : List Token}
    (h : Expands r limit depth g afterSplice ts (.ok us)) (hw : Throughout Writable ts)
    (hts : ts.IsChain (Neighbours (Token.Safe names))) :
    us.IsChain Token.Told ∧
      ∀ u ∈ us.head?, u.spaced = some false → afterSplice = false ∧
        ∃ t ∈ ts.head?, t.spaced = some false ∧
          (u = t ∨ (t.kind = .identifier ∧ names t.text)) := by
  generalize hx : Except.ok us = x at h
  induction h generalizing us with
  | done => cases hx; exact ⟨List.isChain_nil, by simp⟩
  | fault | tooDeep | abort => cases hx
  | @keep depth g afterSplice t rest x hi hrest ih =>
    obtain ⟨vs, rfl, rfl⟩ := map_eq_ok.mp hx.symm
    obtain ⟨ht, hwrest⟩ := throughout_cons.mp hw
    obtain ⟨hchain, hhead⟩ := ih hwrest hts.tail rfl
    constructor
    · apply hchain.cons
      intro u hu hlay hne hus
      obtain ⟨-, v, hv, hvs, huv⟩ := hhead u hu hus
      have hlay' : t.isLayout = false := by simpa [Token.isLayout] using hlay
      have hvne : v.kind ≠ .eol := by
        obtain rfl | ⟨hk, -⟩ := huv
        · exact hne
        · simp [hk]
      have hsafe : t.Safe names v := (hts.rel_head? hv).touching hlay' hvne hvs
      exact ((hsafe.next (ht.plain hlay') huv).placed afterSplice).1
    · intro u hu hus
      obtain rfl := Option.some.inj hu
      obtain ⟨rfl, htouch⟩ := Token.spaced_placed hus
      exact ⟨rfl, t, rfl, htouch, .inl rfl⟩
  | @splice depth g afterSplice t rest i body x hi hd hn hrest ihn ihr =>
    obtain ⟨vs, rfl, rfl⟩ := map_eq_ok.mp hx.symm
    obtain ⟨-, hwrest⟩ := throughout_cons.mp hw
    obtain ⟨hk, -, hf⟩ := found_of_invocation? hi
    have hplain : Throughout Plain i.substitution :=
      hf.throughout (hr _ _ hf.lookup) fun u hu hl => (hwrest u hu).plain hl
    have hwritable : Throughout Writable i.substitution := fun u hu => .inr (hplain u hu).1
    have hsub := neighbours_of_plain hplain (hf.safe hr hs hts.tail)
    obtain ⟨hbody, -⟩ := ihn hwritable hsub rfl
    obtain ⟨hchain, hhead⟩ := ihr (hwrest.drop _) (hts.tail.drop _) rfl
    -- The token after a replaced name has got a new neighbour and touches nothing.
    have hseam : ∀ u ∈ vs.head?, u.spaced ≠ some false :=
      fun u hu hus => absurd (hhead u hu hus).1 (by simp)
    constructor
    · apply (isChain_respace (fun _ _ s h => h) hbody _).append hchain
      exact fun x _ u hu _ _ hus => absurd hus (hseam u hu)
    · intro u hu hus
      cases body with
      | nil => exact absurd hus (hseam u hu)
      | cons b body =>
        obtain rfl := Option.some.inj hu
        obtain ⟨rfl, htouch⟩ := Token.spaced_placed hus
        have hname : names t.text :=
          (hs _ _ hf.lookup).1 t.text (.inl (Registry.name_of_lookup hf.lookup).symm)
        exact ⟨rfl, t, rfl, htouch, .inr ⟨hk, hname⟩⟩

end

end TextMacros
