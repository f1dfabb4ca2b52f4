/-!
# Cutting lists into pieces

A list is cut after each element at which a piece ends, which may depend on
what follows. The pieces concatenate to the list.
-/

set_option autoImplicit false

namespace TextMacros

variable {α : Type}

/-- Puts an element in front of the first piece. -/
def consPiece (a : α) : List (List α) → List (List α)
  | [] => [[a]]
  | piece :: rest => (a :: piece) :: rest

def cutAfter (ends : α → List α → Bool) : List α → List (List α)
  | [] => []
  | a :: rest =>
    if ends a rest then [a] :: cutAfter ends rest else consPiece a (cutAfter ends rest)

theorem flatten_consPiece (a : α) (pieces : List (List α)) :
    (consPiece a pieces).flatten = a :: pieces.flatten := by
  cases pieces <;> simp [consPiece]

theorem flatten_cutAfter (ends : α → List α → Bool) (xs : List α) :
    (cutAfter ends xs).flatten = xs := by
  induction xs with
  | nil => rfl
  | cons a rest ih =>
    simp only [cutAfter]
    split
    · simp [ih]
    · rw [flatten_consPiece, ih]

theorem cutAfter_append {p : α → Bool} {front : List α} (hf : ∀ a ∈ front, p a = false) {e : α}
    (he : p e = true) (rest : List α) :
    cutAfter (fun a _ => p a) (front ++ e :: rest) =
      (front ++ [e]) :: cutAfter (fun a _ => p a) rest := by
  induction front with
  | nil => simp [cutAfter, he]
  | cons a front ih =>
    rw [List.cons_append, cutAfter, ih fun b hb => hf b (by simp [hb])]
    simp [hf a (by simp), consPiece]

theorem cutAfter_of_none {p : α → Bool} {xs : List α} (hne : xs ≠ [])
    (h : ∀ a ∈ xs, p a = false) : cutAfter (fun a _ => p a) xs = [xs] := by
  induction xs with
  | nil => exact absurd rfl hne
  | cons a xs ih =>
    have ha := h a (by simp)
    cases xs with
    | nil => simp [cutAfter, ha, consPiece]
    | cons b xs =>
      rw [cutAfter, ih (by simp) fun c hc => h c (by simp [hc])]
      simp [ha, consPiece]

end TextMacros
