import Mathlib

/-! Hash chains: every entry is stamped with a hash of itself and of the stamp before it. Lists are newest first.

        a₃, h₃ --> a₂, h₂ --> a₁, h₁ --> ∎            hᵢ = link hᵢ₋₁ aᵢ,   h₁ = link ∅ a₁

    Two chains with the same newest stamp agree entry by entry, as long as no two of the links that
    they hold collide. -/

namespace Honey.Schemes
open List

variable {α H : Type}

/-- The newest stamp. -/
def newest (chain : List (α × H)) : Option H := chain.head?.map (·.2)

/-- Every stamp is the hash of its entry and the stamp before. -/
def ChainLinked (link : Option H → α → H) : List (α × H) → Prop
  | [] => True
  | (a, h) :: rest => h = link (newest rest) a ∧ ChainLinked link rest

/-- What was hashed for the stamps. -/
def links : List (α × H) → List (Option H × α)
  | [] => []
  | (a, _) :: rest => (newest rest, a) :: links rest

/-- Chains with the same newest stamp agree, where the links of the two do not collide. -/
theorem linked_agree {link : Option H → α → H} {R : α → α → Prop} :
    ∀ {xs ys : List (α × H)}, ChainLinked link xs → ChainLinked link ys → newest xs = newest ys →
    (∀ p ∈ links xs, ∀ q ∈ links ys, link p.1 p.2 = link q.1 q.2 → p.1 = q.1 ∧ R p.2 q.2) →
    List.Forall₂ (fun x y => R x.1 y.1 ∧ x.2 = y.2) xs ys
  | [], [], _, _, _, _ => .nil
  | [], (b, k) :: ys, _, _, hnew, _ => by cases hnew
  | (a, h) :: xs, [], _, _, hnew, _ => by cases hnew
  | (a, h) :: xs, (b, k) :: ys, hx, hy, hnew, hfree => by
    -- the stamps are the hashes of the two links, so the links agree and the tails go on
    have hstamp : link (newest xs) a = link (newest ys) b := by
      rw [← hx.1, ← hy.1]
      exact Option.some.inj hnew
    obtain ⟨htail, hab⟩ := hfree _ mem_cons_self _ mem_cons_self hstamp
    refine .cons ⟨hab, Option.some.inj hnew⟩ (linked_agree hx.2 hy.2 htail fun p hp q hq => ?_)
    exact hfree p (mem_cons_of_mem _ hp) q (mem_cons_of_mem _ hq)

theorem links_entries : ∀ chain : List (α × H), (links chain).map (·.2) = chain.map (·.1)
  | [] => rfl
  | (a, _) :: rest => congrArg (a :: ·) (links_entries rest)

theorem links_stamps {link : Option H → α → H} {P : H → Prop} (hlink : ∀ prev a, P (link prev a)) :
    ∀ {chain : List (α × H)}, ChainLinked link chain → ∀ p ∈ links chain, ∀ h, p.1 = some h → P h
  | [], _, p, hp, _, _ => by cases hp
  | (a, h) :: rest, hlinked, p, hp, k, hk => by
    rcases mem_cons.mp hp with rfl | hp
    · cases rest with
      | nil => cases hk
      | cons x rest =>
        obtain rfl : x.2 = k := Option.some.inj hk
        rw [hlinked.2.1]
        exact hlink _ _
    · exact links_stamps hlink hlinked.2 p hp k hk

theorem append_mark_inj {mark : α} {a b x y : List α} (hx : mark ∉ x) (hy : mark ∉ y)
    (h : a ++ mark :: x = b ++ mark :: y) : a = b ∧ x = y := by
  rcases append_eq_append_iff.mp h with ⟨m, rfl, hm⟩ | ⟨m, rfl, hm⟩
  · cases m with
    | nil => simpa using hm
    | cons c m =>
      rw [cons_append, cons.injEq] at hm
      exact absurd (hm.2 ▸ mem_append_right m mem_cons_self) hx
  · cases m with
    | nil => simpa using hm.symm
    | cons c m =>
      rw [cons_append, cons.injEq] at hm
      exact absurd (hm.2 ▸ mem_append_right m mem_cons_self) hy

end Honey.Schemes
