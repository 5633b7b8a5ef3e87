import Mathlib

/-! What a meter charges that adds up the rises of the readings it is given, and takes each reading as
    the next baseline whatever it is.

        readings   3   7   5   9        peak - first = 6
        rises        4   0   4          rises        = 8

    The rises add up to the distance from the first reading to the highest one exactly if no rise
    follows a drop (`rises_le_iff`). -/

namespace Honey.Schemes

/-- The rises of the readings after `x`, added up. -/
def rises : ℤ → List ℤ → ℤ
  | _, [] => 0
  | x, y :: l => max 0 (y - x) + rises y l

/-- The highest reading. -/
def peak (x : ℤ) (l : List ℤ) : ℤ := l.foldl max x

/-- No rise follows a drop: from the first drop on the readings only fall. -/
def RisesThenFalls : ℤ → List ℤ → Prop
  | _, [] => True
  | x, y :: l => if x ≤ y then RisesThenFalls y l else (y :: l).IsChain (· ≥ ·)

instance decidableRisesThenFalls : ∀ (x : ℤ) (l : List ℤ), Decidable (RisesThenFalls x l)
  | _, [] => isTrue trivial
  | x, y :: l =>
    if h : x ≤ y then
      match decidableRisesThenFalls y l with
      | isTrue hl => isTrue (by rw [RisesThenFalls, if_pos h]; exact hl)
      | isFalse hl => isFalse (by rw [RisesThenFalls, if_pos h]; exact hl)
    else if hc : (y :: l).IsChain (· ≥ ·) then isTrue (by rw [RisesThenFalls, if_neg h]; exact hc)
    else isFalse (by rw [RisesThenFalls, if_neg h]; exact hc)

theorem rises_nonneg : ∀ (x : ℤ) (l : List ℤ), 0 ≤ rises x l
  | _, [] => le_refl 0
  | x, y :: l => add_nonneg (le_max_left 0 (y - x)) (rises_nonneg y l)

theorem peak_cons (x y : ℤ) (l : List ℤ) : peak x (y :: l) = max x (peak y l) := by
  have h : ∀ (l : List ℤ) (a b : ℤ), l.foldl max (max a b) = max a (l.foldl max b) := by
    intro l
    induction l with
    | nil => intro a b; rfl
    | cons z l ih =>
      intro a b
      rw [List.foldl_cons, List.foldl_cons, max_assoc, ih]
  exact h l x y

theorem le_peak : ∀ (x : ℤ) (l : List ℤ), x ≤ peak x l
  | x, [] => le_refl x
  | x, y :: l => by rw [peak_cons]; exact le_max_left x (peak y l)

theorem peak_sub_le_rises : ∀ (x : ℤ) (l : List ℤ), peak x l - x ≤ rises x l
  | x, [] => by simp [peak, rises]
  | x, y :: l => by
    have ih := peak_sub_le_rises y l
    have hn := rises_nonneg y l
    rw [peak_cons, rises]
    rcases max_choice x (peak y l) with h | h <;> rw [h]
    · have := le_max_left 0 (y - x)
      linarith
    · have := le_max_right 0 (y - x)
      linarith

theorem rises_eq_zero_iff : ∀ (x : ℤ) (l : List ℤ), rises x l = 0 ↔ (x :: l).IsChain (· ≥ ·)
  | x, [] => by simp [rises]
  | x, y :: l => by
    have hn := rises_nonneg y l
    have hm := le_max_left 0 (y - x)
    rw [rises, List.isChain_cons_cons, ← rises_eq_zero_iff y l]
    constructor
    · intro h
      have := le_max_right 0 (y - x)
      exact ⟨by linarith, by linarith⟩
    · rintro ⟨hxy, h⟩
      rw [h, max_eq_left (by linarith), add_zero]

/-- The meter charges no more than the counter moved exactly if no rise follows a drop. -/
theorem rises_le_iff : ∀ (x : ℤ) (l : List ℤ), rises x l ≤ peak x l - x ↔ RisesThenFalls x l
  | x, [] => by simp [rises, peak, RisesThenFalls]
  | x, y :: l => by
    have hp := le_peak y l
    have hclimb := peak_sub_le_rises y l
    rw [rises, peak_cons, RisesThenFalls]
    by_cases hxy : x ≤ y
    · rw [if_pos hxy, ← rises_le_iff y l, max_eq_right (by linarith), max_eq_right (by linarith)]
      constructor <;> intro h <;> linarith
    rw [if_neg hxy, ← rises_eq_zero_iff, max_eq_left (by linarith)]
    constructor
    · intro h
      rcases max_choice x (peak y l) with hm | hm <;> rw [hm] at h <;> linarith
    · intro h
      have := le_max_left x (peak y l)
      linarith

end Honey.Schemes
