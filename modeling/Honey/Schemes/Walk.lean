import Mathlib

/-! Walks along a partial function: `walk next n a` is where `n` steps from `a` lead, if that many are
    defined. The results are about one point whose step is redirected.

        a --> … --> x --> next x --> …
                    ╎
                    +--> w --> …          `Redirects next next' x w`

    A walk of the new function is a walk of the old one, or it goes to `x`, takes the new step and goes on
    from `w` as the old one does (`Redirects.walk_cases`). -/

namespace Honey.Schemes
open Nat Option

variable {α : Type*} {next next' : α → Option α} {a b x w : α} {m n d : ℕ}

/-- `n` steps from a point. -/
def walk (next : α → Option α) : ℕ → α → Option α
  | 0, a => some a
  | n + 1, a => (next a).bind (walk next n)

theorem walk_add : ∀ (m n : ℕ) (a : α), walk next (m + n) a = (walk next m a).bind (walk next n)
  | 0, n, a => by rw [zero_add, walk, bind_some]
  | m + 1, n, a => by
    rw [add_right_comm, walk, walk, bind_assoc]
    congr 1
    funext b
    exact walk_add m n b

theorem walk_add_of_eq (h : walk next m a = some b) (n : ℕ) : walk next (m + n) a = walk next n b := by
  rw [walk_add, h, bind_some]

theorem walk_succ_eq_some : walk next (n + 1) a = some b ↔ ∃ c, walk next n a = some c ∧ next c = some b := by
  have hone : walk next 1 = next := by
    simp [walk]
  rw [walk_add, bind_eq_some_iff, hone]

theorem isSome_walk_of_le (h : (walk next n a).isSome) (hmn : m ≤ n) : (walk next m a).isSome := by
  obtain ⟨k, rfl⟩ := Nat.exists_eq_add_of_le hmn
  rw [walk_add] at h
  exact isSome_of_isSome_bind h

theorem transGen_iff_walk : Relation.TransGen (fun a b => next a = some b) a b ↔ ∃ n, walk next (n + 1) a = some b := by
  constructor
  · intro h
    induction h with
    | single hab => exact ⟨0, walk_succ_eq_some.mpr ⟨a, rfl, hab⟩⟩
    | tail _ hbc ih =>
      obtain ⟨n, hn⟩ := ih
      exact ⟨n + 1, walk_succ_eq_some.mpr ⟨_, hn, hbc⟩⟩
  · rintro ⟨n, hn⟩
    induction n generalizing b with
    | zero =>
      obtain ⟨c, hc, hcb⟩ := walk_succ_eq_some.mp hn
      obtain rfl := some.inj hc
      exact .single hcb
    | succ n ih =>
      obtain ⟨c, hc, hcb⟩ := walk_succ_eq_some.mp hn
      exact (ih hc).tail hcb

/-- No walk comes back. -/
def Loopless (next : α → Option α) : Prop := ∀ n a, walk next (n + 1) a ≠ some a

/-- No walk takes `d` steps. -/
def Ends (next : α → Option α) (d : ℕ) : Prop := ∀ a, walk next d a = none

/-- A walk visits a point once. -/
theorem Loopless.walk_injective (h : Loopless next) (hm : walk next m a = some x) (hn : walk next n a = some x) :
    m = n := by
  rcases lt_trichotomy m n with hlt | heq | hlt
  · obtain ⟨k, rfl⟩ := Nat.exists_eq_add_of_lt hlt
    rw [add_assoc, walk_add_of_eq hm] at hn
    exact absurd hn (h k x)
  · exact heq
  · obtain ⟨k, rfl⟩ := Nat.exists_eq_add_of_lt hlt
    rw [add_assoc, walk_add_of_eq hn] at hm
    exact absurd hm (h k x)

/-! ### Fewer steps -/

theorem walk_mono (hsub : ∀ a b, next' a = some b → next a = some b) (h : walk next' n a = some b) :
    walk next n a = some b := by
  induction n generalizing b with
  | zero => exact h
  | succ n ih =>
    obtain ⟨c, hc, hcb⟩ := walk_succ_eq_some.mp h
    exact walk_succ_eq_some.mpr ⟨c, ih hc, hsub c b hcb⟩

theorem Loopless.mono (hsub : ∀ a b, next' a = some b → next a = some b) (h : Loopless next) : Loopless next' :=
  fun n a hloop => h n a (walk_mono hsub hloop)

theorem Ends.mono (hsub : ∀ a b, next' a = some b → next a = some b) (h : Ends next d) : Ends next' d := by
  intro a
  cases hwalk : walk next' d a with
  | none => rfl
  | some b => exact absurd (walk_mono hsub hwalk) (by simp [h a])

/-! ### One step redirected -/

/-- `next'` goes from `x` to `w`, and elsewhere as `next`, which does not lead from `w` to `x`. -/
structure Redirects (next next' : α → Option α) (x w : α) : Prop where
  other : ∀ a, a ≠ x → next' a = next a
  at_x : next' x = some w
  back : ∀ n, walk next n w ≠ some x

theorem walk_agree (hother : ∀ a, a ≠ x → next' a = next a) :
    ∀ {n : ℕ} {a : α}, (∀ m < n, walk next m a ≠ some x) → walk next' n a = walk next n a
  | 0, _, _ => rfl
  | n + 1, a, hpass => by
    have ha : a ≠ x := fun h => hpass 0 (succ_pos n) (congrArg some h)
    rw [walk, walk, hother a ha]
    cases hb : next a with
    | none => rfl
    | some b =>
      refine walk_agree hother fun m hm hmx => hpass (m + 1) (succ_lt_succ hm) ?_
      rwa [walk, hb]

theorem Redirects.walk_cases (h : Redirects next next' x w) (n : ℕ) (a : α) :
    ((∀ m < n, walk next m a ≠ some x) ∧ walk next' n a = walk next n a) ∨
      ∃ m k, n = m + 1 + k ∧ walk next m a = some x ∧ walk next' n a = walk next k w := by
  classical
  by_cases hpass : ∀ m < n, walk next m a ≠ some x
  · exact .inl ⟨hpass, walk_agree h.other hpass⟩
  right
  push Not at hpass
  -- the first time that the walk is at `x`
  obtain ⟨hlt, hx⟩ := Nat.find_spec hpass
  have hbefore : ∀ i < Nat.find hpass, walk next i a ≠ some x :=
    fun i hi hix => Nat.find_min hpass hi ⟨hi.trans hlt, hix⟩
  have hx' : walk next' (Nat.find hpass) a = some x := (walk_agree h.other hbefore).trans hx
  obtain ⟨k, hk⟩ := Nat.exists_eq_add_of_lt hlt
  refine ⟨Nat.find hpass, k, by omega, hx, ?_⟩
  have hn : n = Nat.find hpass + (k + 1) := by omega
  rw [hn, walk_add_of_eq hx', walk, h.at_x]
  exact walk_agree h.other fun i _ => h.back i

theorem Redirects.loopless (h : Redirects next next' x w) (hl : Loopless next) : Loopless next' := by
  intro n a hloop
  rcases h.walk_cases (n + 1) a with ⟨-, hold⟩ | ⟨m, k, -, hm, hnew⟩
  · exact hl n a (hold.symm.trans hloop)
  -- from `w` back to `a`, and on to `x`
  refine h.back (k + m) ?_
  rw [walk_add_of_eq (hnew.symm.trans hloop)]
  exact hm

/-- The walks stay short exactly if those through the new step are. -/
theorem Redirects.ends_iff (h : Redirects next next' x w) (hl : Loopless next) (hd : Ends next d) :
    Ends next' d ↔ ∀ a m k, walk next m a = some x → (walk next k w).isSome → m + 1 + k < d := by
  constructor
  · intro hends a m k hm hk
    by_contra hge
    have hfar : (walk next' (m + 1 + k) a).isSome := by
      rcases h.walk_cases (m + 1 + k) a with ⟨hpass, -⟩ | ⟨i, j, hij, hi, hnew⟩
      · exact absurd hm (hpass m (by omega))
      · obtain rfl := hl.walk_injective hm hi
        obtain rfl : k = j := by omega
        rwa [hnew]
    have := isSome_walk_of_le hfar (Nat.le_of_not_lt hge)
    simp [hends a] at this
  · intro hshort a
    rcases h.walk_cases d a with ⟨-, hold⟩ | ⟨m, k, hmk, hm, hnew⟩
    · rw [hold, hd a]
    rw [hnew, ← not_isSome_iff_eq_none]
    intro hk
    have := hshort a m k hm hk
    omega

end Honey.Schemes
