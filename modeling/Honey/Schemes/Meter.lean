import Honey.Schemes.Rise

/-! A counter that wraps, with a copy in memory and a copy on disk, read by someone who adds up rises.

    The counter `c` lives modulo `2 * B`; only values below `B` can be read. Now and then it is copied
    to `s` and from there to `f`, and a crash takes it back to `f`. With `l` the last readable value,
    `V` the rises of the readable values so far and `T` what was really counted:

        grow      c + d (mod 2 * B), T + d
        copy      s := c            save   f := s            crash   c, s := f

    A copy that is above `l` is a rise waiting to happen, so it is paid for in advance (`Metered`), and
    the rises never get ahead of what was counted. The other half is the reader: it takes some of the
    readable values, late and in order, and what it has added up stays below `V` (`owed`). -/

namespace Honey.Schemes
open List Int Option

/-- The rise a restored copy would make. -/
def jump (B l v : ℤ) : ℤ := if v < B then max 0 (v - l) else 0

/-- A copy is paid for. Above `B`, where nothing is read, so is the way back down. -/
structure Paid (B c l V T v : ℤ) : Prop where
  rise : V + jump B l v ≤ T
  descent : B ≤ c → v < B → V + jump B l v + (c - l) ≤ T

/-- The rises so far and both copies are covered by what was counted. -/
structure Metered (B c f s l V T : ℤ) : Prop where
  c_range : 0 ≤ c ∧ c < 2 * B
  f_range : 0 ≤ f ∧ f < 2 * B
  s_range : 0 ≤ s ∧ s < 2 * B
  l_range : 0 ≤ l ∧ l < B
  below : c < B → l = c
  disk : Paid B c l V T f
  memory : Paid B c l V T s

/-- The readable value moved from `l` to `l'`, and the rises with it. -/
def Moved (l V l' V' : ℤ) : Prop := V' = V + max 0 (l' - l)

variable {B c f s l V T v : ℤ}

theorem jump_of_lt (h : v < B) : jump B l v = max 0 (v - l) := if_pos h

theorem jump_of_ge (h : B ≤ v) : jump B l v = 0 := if_neg (not_lt.mpr h)

theorem jump_nonneg (B l v : ℤ) : 0 ≤ jump B l v := by
  rw [jump]
  split
  · exact le_max_left 0 (v - l)
  · exact le_refl 0

theorem le_of_metered (h : Metered B c f s l V T) : V ≤ T := by
  have := h.disk.rise
  have := jump_nonneg B l f
  linarith

theorem paid_self (hbelow : c < B → l = c) (hVT : V ≤ T) : Paid B c l V T c := by
  have hj : jump B l c = 0 := by
    by_cases hlt : c < B
    · rw [jump_of_lt hlt, hbelow hlt]; simp
    · exact jump_of_ge (not_lt.mp hlt)
  refine ⟨by linarith, ?_⟩
  exact fun hge hlt => absurd hlt (not_lt.mpr hge)

theorem metered_start (hB : 0 < B) (hc : 0 ≤ c ∧ c < 2 * B) : ∃ l, Metered B c c c l 0 0 := by
  by_cases hlt : c < B
  · have hself : Paid B c c 0 0 c := paid_self (fun _ => rfl) (le_refl 0)
    exact ⟨c, hc, hc, hc, ⟨hc.1, hlt⟩, fun _ => rfl, hself, hself⟩
  · have hself : Paid B c 0 0 0 c := paid_self (fun h => absurd h hlt) (le_refl 0)
    exact ⟨0, hc, hc, hc, ⟨le_refl 0, hB⟩, fun h => absurd h hlt, hself, hself⟩

theorem metered_copy (h : Metered B c f s l V T) : Metered B c f c l V T :=
  ⟨h.c_range, h.f_range, h.c_range, h.l_range, h.below, h.disk, paid_self h.below (le_of_metered h)⟩

theorem metered_save (h : Metered B c f s l V T) : Metered B c s s l V T :=
  ⟨h.c_range, h.s_range, h.s_range, h.l_range, h.below, h.memory, h.memory⟩

theorem metered_crash (h : Metered B c f s l V T) : ∃ l' V', Metered B f f f l' V' T ∧ Moved l V l' V' := by
  by_cases hlt : f < B
  · -- the waiting rise happens, and it is paid for
    have hpaid := h.disk.rise
    rw [jump_of_lt hlt] at hpaid
    have hself : Paid B f f (V + max 0 (f - l)) T f := paid_self (fun _ => rfl) hpaid
    exact ⟨f, V + max 0 (f - l), ⟨h.f_range, h.f_range, h.f_range, ⟨h.f_range.1, hlt⟩, fun _ => rfl, hself, hself⟩, rfl⟩
  · have hself : Paid B f l V T f := paid_self (fun hc => absurd hc hlt) (le_of_metered h)
    exact ⟨l, V, ⟨h.f_range, h.f_range, h.f_range, h.l_range, fun hc => absurd hc hlt, hself, hself⟩, by simp [Moved]⟩

theorem paid_grow_low {c' d : ℤ} (hc : 0 ≤ c ∧ c < 2 * B) (hv : 0 ≤ v) (hl : 0 ≤ l ∧ l < B)
    (hbelow : c < B → l = c) (hd : 0 ≤ d) (hc' : 0 ≤ c' ∧ c' < B)
    (hstep : c' = c + d ∨ c' = c + d - 2 * B) (hp : Paid B c l V T v) :
    Paid B c' c' (V + max 0 (c' - l)) (T + d) v := by
  obtain ⟨hrise, hdescent⟩ := hp
  refine ⟨?_, fun hge => absurd hc'.2 (not_lt.mpr hge)⟩
  by_cases hvB : v < B
  · rw [jump_of_lt hvB] at hrise hdescent ⊢
    by_cases hcB : c < B
    · omega
    · omega
  · rw [jump_of_ge (not_lt.mp hvB)] at hrise ⊢
    by_cases hcB : c < B
    · omega
    · omega

/-- Counting up to a value of `B` or more leaves the last readable one. -/
theorem paid_grow_high {c' d : ℤ} (hbelow : c < B → l = c)
    (hd : 0 ≤ d ∧ d < 2 * B) (hc' : B ≤ c') (hstep : c' = c + d ∨ c' = c + d - 2 * B)
    (hp : Paid B c l V T v) : Paid B c' l V (T + d) v := by
  obtain ⟨hrise, hdescent⟩ := hp
  refine ⟨by linarith, fun _ hvB => ?_⟩
  by_cases hcB : c < B
  · omega
  · omega

theorem metered_grow {d : ℤ} (h : Metered B c f s l V T) (hd : 0 ≤ d ∧ d < 2 * B) :
    ∃ l' V', Metered B ((c + d) % (2 * B)) f s l' V' (T + d) ∧ Moved l V l' V' := by
  obtain ⟨hc, hf, hs, hl, hbelow, hdisk, hmemory⟩ := h
  set c' := (c + d) % (2 * B) with hdef
  have hrange : 0 ≤ c' ∧ c' < 2 * B := ⟨emod_nonneg _ (by omega), emod_lt_of_pos _ (by omega)⟩
  have hstep : c' = c + d ∨ c' = c + d - 2 * B := by
    rcases lt_or_ge (c + d) (2 * B) with hlt | hge
    · exact Or.inl (emod_eq_of_lt (by omega) hlt)
    · right
      rw [hdef, ← sub_emod_right, emod_eq_of_lt (by omega) (by omega)]
  by_cases hlow : c' < B
  · exact ⟨c', V + max 0 (c' - l), ⟨hrange, hf, hs, ⟨hrange.1, hlow⟩, fun _ => rfl,
      paid_grow_low hc hf.1 hl hbelow hd.1 ⟨hrange.1, hlow⟩ hstep hdisk,
      paid_grow_low hc hs.1 hl hbelow hd.1 ⟨hrange.1, hlow⟩ hstep hmemory⟩, rfl⟩
  · have hhigh := not_lt.mp hlow
    exact ⟨l, V, ⟨hrange, hf, hs, hl, fun hc => absurd hc hlow, paid_grow_high hbelow hd hhigh hstep hdisk,
      paid_grow_high hbelow hd hhigh hstep hmemory⟩, by simp [Moved]⟩

/-! ### The reader -/

/-- What a reader with baseline `d` still adds if it takes all of `q`; without a baseline the first
    value becomes one. -/
def owed : Option ℤ → List ℤ → ℤ
  | some d, q => rises d q
  | none, [] => 0
  | none, v :: q => rises v q

/-- A reader that has added up `R`, and has yet to see the values `q` before the current one. -/
def Behind (R : ℤ) (d : Option ℤ) (q : List ℤ) (l V : ℤ) : Prop := R + owed d (q ++ [l]) ≤ V

theorem rises_skip (d v : ℤ) : ∀ q : List ℤ, rises d q ≤ rises d (v :: q)
  | [] => rises_nonneg d [v]
  | w :: q => by
    simp only [rises]
    have : max 0 (w - d) ≤ max 0 (v - d) + max 0 (w - v) := by omega
    linarith

theorem rises_move (l l' : ℤ) : ∀ (d : ℤ) (q : List ℤ), rises d (q ++ [l']) ≤ rises d (q ++ [l]) + max 0 (l' - l)
  | d, [] => by
    simp only [nil_append, rises]
    omega
  | d, v :: q => by
    have ih := rises_move l l' v q
    simp only [cons_append, rises]
    linarith

theorem rises_stay (l : ℤ) : ∀ (d : ℤ) (q : List ℤ), rises d (q ++ [l] ++ [l]) = rises d (q ++ [l])
  | d, [] => by simp [rises]
  | d, v :: q => by
    have ih := rises_stay l v q
    simp only [cons_append, rises, ih]

variable {R : ℤ} {d : Option ℤ} {q : List ℤ}

theorem behind_start (l : ℤ) : Behind 0 none [] l 0 := by simp [Behind, owed, rises]

theorem behind_move {l' V' : ℤ} (h : Behind R d q l V) (hm : Moved l V l' V') : Behind R d q l' V' := by
  rw [Behind] at h ⊢
  rw [Moved] at hm
  rcases d with _ | d
  · rcases q with _ | ⟨v, q⟩
    · have := le_max_left 0 (l' - l)
      simp only [nil_append, owed, rises] at h ⊢
      linarith
    · have := rises_move l l' v q
      simp only [cons_append, owed] at h ⊢
      linarith
  · have := rises_move l l' d q
    simp only [owed] at h ⊢
    linarith

theorem behind_send (h : Behind R d q l V) : Behind R d (q ++ [l]) l V := by
  rw [Behind] at h ⊢
  rcases d with _ | d
  · rcases q with _ | ⟨v, q⟩
    · simpa [owed, rises] using h
    · simp only [cons_append, owed, rises_stay] at h ⊢
      exact h
  · simp only [owed, rises_stay] at h ⊢
    exact h

theorem behind_lose (h : Behind R d (v :: q) l V) : Behind R d q l V := by
  rw [Behind] at h ⊢
  rcases d with _ | d
  · rcases q with _ | ⟨w, q⟩
    · have := rises_nonneg v [l]
      simp only [nil_append, cons_append, owed, rises] at h this ⊢
      linarith
    · have := le_max_left 0 (w - v)
      simp only [cons_append, owed, rises] at h ⊢
      linarith
  · have := rises_skip d v (q ++ [l])
    simp only [cons_append, owed] at h ⊢
    linarith

/-- A value is read and adds at most its rise over the baseline. -/
theorem behind_read {R' : ℤ} (h : Behind R d (v :: q) l V)
    (hR : R' ≤ R + (d.map fun b => max 0 (v - b)).getD 0) : Behind R' (some v) q l V := by
  rw [Behind] at h ⊢
  rcases d with _ | d
  · simp only [cons_append, owed, map_none, getD_none] at h hR ⊢
    linarith
  · simp only [cons_append, owed, rises, map_some, getD_some] at h hR ⊢
    linarith

/-! ### Meter and reader together -/

/-- A reader that has added up `R`, with the baseline `d` and the values `q` still to come, is covered
    by what was counted. -/
def Accounted (B c f s R : ℤ) (d : Option ℤ) (q : List ℤ) (T : ℤ) : Prop :=
  ∃ l V, Metered B c f s l V T ∧ Behind R d q l V

theorem accounted_start (hB : 0 < B) (hc : 0 ≤ c ∧ c < 2 * B) : Accounted B c c c 0 none [] 0 := by
  obtain ⟨l, hm⟩ := metered_start hB hc
  exact ⟨l, 0, hm, behind_start l⟩

section

variable (h : Accounted B c f s R d q T)
include h

theorem accounted_mono {T' : ℤ} (hT : T ≤ T') : Accounted B c f s R d q T' := by
  obtain ⟨l, V, ⟨hc, hf, hs, hl, hbelow, hdisk, hmemory⟩, hb⟩ := h
  exact ⟨l, V, ⟨hc, hf, hs, hl, hbelow, ⟨hdisk.rise.trans hT, fun h₁ h₂ => (hdisk.descent h₁ h₂).trans hT⟩,
    ⟨hmemory.rise.trans hT, fun h₁ h₂ => (hmemory.descent h₁ h₂).trans hT⟩⟩, hb⟩

theorem accounted_grow {e : ℤ} (he : 0 ≤ e) : Accounted B ((c + e) % (2 * B)) f s R d q (T + e) := by
  obtain ⟨l, V, hm, hb⟩ := h
  have hB : 0 < 2 * B := hm.1.1.trans_lt hm.1.2
  obtain ⟨l', V', hm', hmoved⟩ := metered_grow hm ⟨emod_nonneg e hB.ne', emod_lt_of_pos e hB⟩
  rw [add_emod_emod] at hm'
  have hle : e % (2 * B) ≤ e := by
    rw [emod_def]
    exact sub_le_self e (mul_nonneg hB.le (ediv_nonneg he hB.le))
  exact accounted_mono ⟨l', V', hm', behind_move hb hmoved⟩ (by omega)

theorem accounted_copy : Accounted B c f c R d q T := by
  obtain ⟨l, V, hm, hb⟩ := h
  exact ⟨l, V, metered_copy hm, hb⟩

theorem accounted_save : Accounted B c s s R d q T := by
  obtain ⟨l, V, hm, hb⟩ := h
  exact ⟨l, V, metered_save hm, hb⟩

theorem accounted_crash : Accounted B f f f R d q T := by
  obtain ⟨l, V, hm, hb⟩ := h
  obtain ⟨l', V', hm', hmoved⟩ := metered_crash hm
  exact ⟨l', V', hm', behind_move hb hmoved⟩

theorem accounted_send : ∀ vs : List ℤ, (∀ v ∈ vs, v = c ∧ v < B) → Accounted B c f s R d (q ++ vs) T := by
  obtain ⟨l, V, hm, hb⟩ := h
  intro vs hvs
  refine ⟨l, V, hm, ?_⟩
  induction vs generalizing q with
  | nil => rwa [append_nil]
  | cons v vs ih =>
    obtain ⟨hvc, hlt⟩ := hvs v mem_cons_self
    have hvl : v = l := by rw [hm.below (hvc ▸ hlt), hvc]
    rw [hvl, append_cons]
    exact ih (behind_send hb) fun w hw => hvs w (mem_cons_of_mem v hw)

omit h in
theorem accounted_lose : ∀ {vs : List ℤ}, Accounted B c f s R d (vs ++ q) T → Accounted B c f s R d q T
  | [], h => h
  | _ :: _, ⟨l, V, hm, hb⟩ => accounted_lose ⟨l, V, hm, behind_lose hb⟩

omit h in
theorem accounted_read {R' : ℤ} (h : Accounted B c f s R d (v :: q) T)
    (hR : R' ≤ R + (d.map fun b => max 0 (v - b)).getD 0) : Accounted B c f s R' (some v) q T := by
  obtain ⟨l, V, hm, hb⟩ := h
  exact ⟨l, V, hm, behind_read hb hR⟩

theorem accounted_le : R ≤ T := by
  obtain ⟨l, V, hm, hb⟩ := h
  have hVT := le_of_metered hm
  have howed : 0 ≤ owed d (q ++ [l]) := by
    rcases d with _ | d
    · rcases q with _ | ⟨v, q⟩
      · simp [owed, rises]
      · exact rises_nonneg v (q ++ [l])
    · exact rises_nonneg d (q ++ [l])
  rw [Behind] at hb
  linarith

end

end Honey.Schemes
