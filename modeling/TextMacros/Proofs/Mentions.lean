import Mathlib
import TextMacros.Proofs.Contents

/-!
# Mentions

A macro mentions the macros whose names stand in its body. What an expansion
of a macro leaves over is mentioned by it, directly or through others, so a
macro without parameters that never comes back to itself is never left over.
-/

set_option autoImplicit false

namespace TextMacros

/-- The body of `a` holds the name `b`, and both are names of macros. -/
def Registry.Mentions (r : Registry) (a b : Text) : Prop :=
  ∃ m, r.lookup a = some m ∧ (r.lookup b).isSome ∧
    ∃ t ∈ m.body, t.kind = .identifier ∧ t.text = b

namespace Registry

/-- No identifier that names a macro, unless `a` leads to it. -/
def LedTo (r : Registry) (a : Text) (kind : TokenKind) (text : Text) : Prop :=
  kind = .identifier → (r.lookup text).isSome → Relation.TransGen r.Mentions a text

theorem ledTo_body {r : Registry} {a name : Text} {m : Macro} (hm : r.lookup name = some m)
    (h : name = a ∨ Relation.TransGen r.Mentions a name) : Throughout (r.LedTo a) m.body := by
  intro t ht hk hs
  have hmention : r.Mentions name t.text := ⟨m, hm, hs, t, ht, hk, rfl⟩
  rcases h with rfl | h
  · exact .single hmention
  · exact h.tail hmention

end Registry

/-- An object-like macro is an invocation wherever its name is not guarded. -/
theorem invocation?_object {r : Registry} {g : Guard} {t : Token} {rest : List Token} {m : Macro}
    (hk : t.kind = .identifier) (hg : t.text ∉ g) (hm : r.lookup t.text = some m)
    (hp : m.parameters = none) : invocation? r g t rest = .ok (some (.objectLike m)) := by
  simp [invocation?, Invocation.scan, hk, Guard.holds_eq_false.mpr hg, hm, hp]

/-- Everything left over inside the expansion of `name` is led to by it, itself excluded. -/
theorem Expands.not_left_inside {r : Registry} {limit : Option Int} {depth : Int} {g : Guard}
    {name : Text} {m : Macro} {us : List Token} (hm : r.lookup name = some m)
    (hn : ¬ Relation.TransGen r.Mentions name name)
    (h : Expands r limit depth g false m.body (.ok us)) :
    ∀ t ∈ us, t.kind = .identifier → t.text ≠ name := by
  have hled : Throughout (r.LedTo name) us := by
    refine h.throughout (fun other m' hother hm' => ?_) (Registry.ledTo_body hm (.inl rfl))
    exact Registry.ledTo_body hm' (.inr (hother rfl (by simp [hm'])))
  intro t ht hk he
  have := hled t ht hk (by simp [he, hm])
  exact hn (he ▸ this)

/-- Outside of its own expansion the name is always replaced, and inside it never comes up. -/
theorem Expands.not_left {r : Registry} {limit : Option Int} {depth : Int} {g : Guard}
    {afterSplice : Bool} {name : Text} {m : Macro} {ts us : List Token}
    (hm : r.lookup name = some m) (hp : m.parameters = none)
    (hn : ¬ Relation.TransGen r.Mentions name name) (hg : name ∉ g)
    (h : Expands r limit depth g afterSplice ts (.ok us)) :
    ∀ t ∈ us, t.kind = .identifier → t.text ≠ name := by
  generalize hx : Except.ok us = x at h
  induction h generalizing us with
  | done => cases hx; simp
  | fault | tooDeep | abort => cases hx
  | @keep depth g afterSplice t rest x hi hr ih =>
    obtain ⟨vs, hvs, rfl⟩ := map_eq_ok.mp hx.symm
    intro u hu
    rcases List.mem_cons.mp hu with rfl | hu
    · intro hk he
      rw [Token.kind_placed] at hk
      rw [Token.text_placed] at he
      rw [invocation?_object hk (he ▸ hg) (he ▸ hm) hp] at hi
      cases hi
    · exact ih hg hvs.symm u hu
  | @splice depth g afterSplice t rest i body x hi hd hn' hr ihn ihr =>
    obtain ⟨vs, hvs, rfl⟩ := map_eq_ok.mp hx.symm
    obtain ⟨hk, hgt, hf⟩ := found_of_invocation? hi
    have hbody : ∀ u ∈ body, u.kind = .identifier → u.text ≠ name := by
      by_cases ht : name = t.text
      · subst ht
        rw [invocation?_object hk hgt hm hp] at hi
        cases hi
        have hs : (Invocation.objectLike m).substitution = m.body := by
          simp [Invocation.substitution, Invocation.objectLike, hp]
        exact (hs ▸ hn').not_left_inside hm hn
      · exact ihn (by simp [ht, hg]) rfl
    have hspaced : ∀ u ∈ respace (t.placed afterSplice).spaced body,
        u.kind = .identifier → u.text ≠ name :=
      Throughout.respace (P := fun kind text => kind = .identifier → text ≠ name) hbody _
    intro u hu
    rcases List.mem_append.mp hu with hu | hu
    · exact hspaced u hu
    · exact ihr hg hvs.symm u hu

/-- No invocation of a macro without parameters is missed, wherever its name comes from. -/
theorem expand_leaves_no_object_like (r : Registry) (name : Text) (m : Macro)
    (hm : r.lookup name = some m) (hp : m.parameters = none)
    (hn : ¬ Relation.TransGen r.Mentions name name) (limit depth : Int) (g : Guard) (hg : name ∉ g)
    (ts us : List Token) (h : (expand r limit depth g ts).result = .ok us) :
    ∀ t ∈ us, ¬ (t.kind = .identifier ∧ t.text = name) := by
  have hrun : Expands r (some limit) depth g false ts (.ok us) := h ▸ expands_expand r limit depth g ts
  intro t ht ⟨hk, he⟩
  exact hrun.not_left hm hp hn hg t ht hk he

/-- `N` leads to `M`, which leads nowhere; `F` writes its argument before `N`. -/
def mentionSample : Registry :=
  let spaced (kind : TokenKind) (text : Text) : Token := ⟨kind, text, .definition, some true⟩
  ⟨[⟨"N", none, [spaced .identifier "M"], .definition⟩,
    ⟨"M", none, [spaced .number "1"], .definition⟩,
    ⟨"F", some ["x"], [spaced .identifier "x", spaced .identifier "N"], .definition⟩]⟩

theorem mentionSample_mentions {a b : Text} (h : mentionSample.Mentions a b) :
    a = "N" ∧ b = "M" ∨ a = "F" ∧ b = "N" := by
  obtain ⟨m, hm, hb, t, ht, hk, rfl⟩ := h
  have hmem : m ∈ mentionSample.macros := List.mem_of_find?_eq_some hm
  obtain rfl := Registry.name_of_lookup hm
  simp only [mentionSample, List.mem_cons, List.not_mem_nil, or_false] at hmem
  rcases hmem with rfl | rfl | rfl
  · simp_all
  · simp_all
  · simp only [List.mem_cons, List.not_mem_nil, or_false] at ht
    rcases ht with rfl | rfl
    · exact absurd hb (by decide)
    · exact .inr ⟨rfl, rfl⟩

/-- The name stands alone, in an argument of an argument, and in a body. -/
theorem expand_leaves_no_object_like_sample :
    mentionSample.lookup "N" = some ⟨"N", none, [⟨.identifier, "M", .definition, some true⟩],
        .definition⟩ ∧
      ¬ Relation.TransGen mentionSample.Mentions "N" "N" ∧
      ∃ us, (expand mentionSample 2 0 ["M"] (lexText .text "F(F(N)) N").tokens).result = .ok us ∧
        us ≠ [] ∧ ∀ t ∈ us, ¬ (t.kind = .identifier ∧ t.text = "N") := by
  have hm : mentionSample.lookup "N" =
      some ⟨"N", none, [⟨.identifier, "M", .definition, some true⟩], .definition⟩ := rfl
  have hn : ¬ Relation.TransGen mentionSample.Mentions "N" "N" := by
    intro h
    obtain ⟨b, hb, hrest⟩ := Relation.TransGen.head'_iff.mp h
    rcases mentionSample_mentions hb with ⟨-, rfl⟩ | ⟨hf, -⟩
    · rcases hrest.cases_head with he | ⟨c, hc, -⟩
      · exact absurd he (by decide)
      · rcases mentionSample_mentions hc with ⟨he, -⟩ | ⟨he, -⟩ <;> exact absurd he (by decide)
    · exact absurd hf (by decide)
  have hx : (expand mentionSample 2 0 ["M"] (lexText .text "F(F(N)) N").tokens).result =
      .ok [⟨.identifier, "F", ⟨0, 2, .text⟩, some false⟩, ⟨.lparen, "(", ⟨0, 3, .text⟩, some false⟩,
        ⟨.identifier, "M", .definition, some false⟩, ⟨.rparen, ")", ⟨0, 5, .text⟩, none⟩,
        ⟨.identifier, "M", .definition, some true⟩,
        ⟨.identifier, "M", .definition, some true⟩] := by cbv
  exact ⟨hm, hn, _, hx, by simp,
    expand_leaves_no_object_like mentionSample "N" _ hm rfl hn 2 0 ["M"] (by decide) _ _ hx⟩

end TextMacros
