import Mathlib

/-! Splitting a list at every occurrence of a separator, leftmost first and without overlaps, as
    `strings.Split` does for a separator that is not empty.

    The scan is structural: after a match it skips the rest of the separator by counting down.

        x x > > > y      x is kept, `>>>` closes the piece, then two elements are skipped
        |   + match                                                                       -/

namespace Honey.Schemes
open List

variable {α : Type*} [DecidableEq α]

/-- The scan: elements still to skip, the piece read so far, the rest. -/
def splitGo (sep : List α) : ℕ → List α → List α → List (List α)
  | _, cur, [] => [cur]
  | k + 1, cur, _ :: cs => splitGo sep k cur cs
  | 0, cur, c :: cs =>
    if sep <+: c :: cs then cur :: splitGo sep (sep.length - 1) [] cs
    else splitGo sep 0 (cur ++ [c]) cs

def split (sep l : List α) : List (List α) := splitGo sep 0 [] l

variable {sep : List α}

theorem splitGo_skip : ∀ (k : ℕ) (cur l : List α), splitGo sep k cur l = splitGo sep 0 cur (l.drop k)
  | 0, _, _ => rfl
  | _ + 1, _, [] => rfl
  | k + 1, cur, _ :: cs => splitGo_skip k cur cs

theorem splitGo_sep (hsep : sep ≠ []) (cur l : List α) : splitGo sep 0 cur (sep ++ l) = cur :: splitGo sep 0 [] l := by
  obtain ⟨c, cs, rfl⟩ := exists_cons_of_ne_nil hsep
  rw [cons_append, splitGo, splitGo_skip]
  simp

theorem splitGo_cons {c : α} {cs : List α} (h : ¬ sep <+: c :: cs) (cur : List α) :
    splitGo sep 0 cur (c :: cs) = splitGo sep 0 (cur ++ [c]) cs := by
  rw [splitGo, if_neg h]

theorem splitGo_ne_nil (sep l : List α) : ∀ (k : ℕ) (cur : List α), splitGo sep k cur l ≠ [] := by
  induction l with
  | nil => simp [splitGo]
  | cons c cs ih =>
    intro k cur
    rcases k with _ | k
    · by_cases h : sep <+: c :: cs
      · simp [splitGo, h]
      · rw [splitGo_cons h]
        exact ih 0 _
    · exact ih k cur

/-- Nothing is lost: joining the pieces gives the list back. -/
theorem intercalate_splitGo (hsep : sep ≠ []) : ∀ (n : ℕ) (cur l : List α), l.length ≤ n →
    sep.intercalate (splitGo sep 0 cur l) = cur ++ l
  | _, cur, [], _ => by simp [splitGo]
  | n + 1, cur, c :: cs, hn => by
    by_cases h : sep <+: c :: cs
    · obtain ⟨rest, hrest⟩ := h
      have hlen := congrArg length hrest
      have hpos := length_pos_iff.mpr hsep
      simp only [length_append] at hlen hn
      have ih := intercalate_splitGo hsep n [] rest (by omega)
      obtain ⟨p, ps, hps⟩ := exists_cons_of_ne_nil (splitGo_ne_nil sep rest 0 [])
      rw [← hrest, splitGo_sep hsep, hps, intercalate_cons_cons, ← hps, ih, append_assoc, nil_append]
    · rw [length_cons] at hn
      rw [splitGo_cons h, intercalate_splitGo hsep n _ cs (by omega), append_assoc, singleton_append]

theorem intercalate_split (hsep : sep ≠ []) (l : List α) : sep.intercalate (split sep l) = l := by
  rw [split, intercalate_splitGo hsep l.length [] l (le_refl _), nil_append]

/-! ### Where the first separator is -/

omit [DecidableEq α] in
theorem not_prefix_drop {a : List α} (hsep : sep ≠ []) (h : ¬ sep <:+: a ++ sep.dropLast) (b : List α)
    {i : ℕ} (hi : i < a.length) : ¬ sep <+: (a ++ (sep ++ b)).drop i := by
  intro hpre
  refine h (List.IsInfix.trans (List.IsPrefix.isInfix ?_) (List.IsSuffix.isInfix (drop_suffix i (a ++ sep.dropLast))))
  have hpos := length_pos_iff.mpr hsep
  have hlast : a ++ (sep ++ b) = (a ++ sep.dropLast) ++ ([sep.getLast hsep] ++ b) := by
    rw [append_assoc, ← append_assoc sep.dropLast, dropLast_append_getLast hsep]
  have hlen : i ≤ (a ++ sep.dropLast).length := by
    rw [length_append]
    omega
  rw [hlast, drop_append_of_le_length hlen] at hpre
  refine prefix_of_prefix_length_le hpre (prefix_append _ _) ?_
  rw [length_drop, length_append, length_dropLast]
  omega

theorem splitGo_first (hsep : sep ≠ []) : ∀ (a cur b : List α), (∀ i < a.length, ¬ sep <+: (a ++ (sep ++ b)).drop i) →
    splitGo sep 0 cur (a ++ (sep ++ b)) = (cur ++ a) :: splitGo sep 0 [] b
  | [], cur, b, _ => by
    rw [nil_append, splitGo_sep hsep, append_nil]
  | c :: a, cur, b, h => by
    have hstart : ¬ sep <+: c :: (a ++ (sep ++ b)) := h 0 (Nat.succ_pos _)
    rw [cons_append, splitGo_cons hstart, splitGo_first hsep a (cur ++ [c]) b fun i hi =>
      h (i + 1) (Nat.succ_lt_succ hi), append_assoc, singleton_append]

/-- The first piece ends at the first separator. -/
theorem split_append (hsep : sep ≠ []) {a : List α} (h : ¬ sep <:+: a ++ sep.dropLast) (b : List α) :
    split sep (a ++ (sep ++ b)) = a :: split sep b :=
  splitGo_first hsep a [] b fun _ hi => not_prefix_drop hsep h b hi

theorem split_plain {l : List α} (h : ¬ sep <:+: l) : split sep l = [l] := by
  have hgo : ∀ (l cur : List α), ¬ sep <:+: l → splitGo sep 0 cur l = [cur ++ l] := by
    intro l
    induction l with
    | nil =>
      intro cur _
      rw [splitGo, append_nil]
    | cons c cs ih =>
      intro cur hno
      have hrest : ¬ sep <:+: cs := fun hin => hno (hin.trans (suffix_cons c cs).isInfix)
      rw [splitGo_cons fun hpre => hno hpre.isInfix, ih _ hrest, append_assoc, singleton_append]
  exact hgo l [] h

theorem splitGo_head (hsep : sep ≠ []) {p q : List α} {rest : List (List α)} : ∀ (l cur : List α),
    (∀ i < cur.length, ¬ sep <+: (cur ++ l).drop i) → splitGo sep 0 cur l = p :: q :: rest →
    ¬ sep <:+: p ++ sep.dropLast
  | [], cur, _, h => by cases (cons.inj h).2
  | c :: cs, cur, hcur, h => by
    by_cases hc : sep <+: c :: cs
    · obtain ⟨l, hl⟩ := hc
      rw [← hl, splitGo_sep hsep] at h
      obtain rfl := (cons.inj h).1
      rintro ⟨s, t, hst⟩
      have hlen := congrArg length hst
      have hpos := length_pos_iff.mpr hsep
      simp only [length_append, length_dropLast] at hlen
      refine hcur s.length (by omega) ?_
      rw [← hl, ← dropLast_append_getLast hsep, append_assoc, ← append_assoc cur, ← hst,
        append_assoc, append_assoc, drop_left, dropLast_append_getLast hsep]
      exact prefix_append _ _
    · rw [splitGo_cons hc] at h
      refine splitGo_head hsep cs (cur ++ [c]) (fun i hi => ?_) h
      rw [append_assoc]
      rw [length_append, length_singleton, Nat.lt_succ_iff] at hi
      rcases Nat.lt_or_eq_of_le hi with hlt | rfl
      · exact hcur i hlt
      · rw [drop_left]
        exact hc

theorem split_head (hsep : sep ≠ []) {l p q : List α} {rest : List (List α)}
    (h : split sep l = p :: q :: rest) : ¬ sep <:+: p ++ sep.dropLast :=
  splitGo_head hsep l [] (fun i hi => absurd hi (Nat.not_lt_zero i)) h

end Honey.Schemes
