import Mathlib

/-! Results that may be missing: fallible computations without the texts of their errors, loops over a
    list, and lists gathered from parts each of which may be missing.

        two loops over one list agree     --> they agree in every round, unless both fail
        two lists that differ in one part --> they gather to the same exactly if the part is the same -/

namespace Honey.Schemes
open List Option

variable {ε α β γ : Type}

/-! ### Errors without texts -/

theorem toOption_map (x : Except ε α) (f : α → β) : (x.map f).toOption = x.toOption.map f := by
  cases x with
  | error e => rfl
  | ok a => rfl

theorem toOption_eq_some {x : Except ε α} {a : α} : x.toOption = some a ↔ x = .ok a := by
  cases x with
  | error e | ok b => simp [Except.toOption]

theorem toOption_mapM (f : α → Except ε β) : ∀ l : List α, (l.mapM f).toOption = l.mapM fun a => (f a).toOption
  | [] => rfl
  | a :: l => by
    rw [mapM_cons, mapM_cons, ← toOption_mapM f l]
    rcases f a with e | b
    · rfl
    cases l.mapM f with
    | error e => rfl
    | ok bs => rfl

/-! ### Two parts -/

theorem pair_isSome {f : α → β → γ} {x : Option α} {y : Option β} :
    (x.bind fun a => y.map (f a)).isSome ↔ x.isSome ∧ y.isSome := by
  cases x <;> cases y <;> simp

theorem pair_eq_iff {f : α → β → γ} (hf : ∀ {a a' b b'}, f a b = f a' b' → a = a' ∧ b = b')
    {x x' : Option α} {y y' : Option β}
    (h : (x.bind fun a => y.map (f a)).isSome ∨ (x'.bind fun a => y'.map (f a)).isSome) :
    (x'.bind fun a => y'.map (f a)) = (x.bind fun a => y.map (f a)) ↔ x' = x ∧ y' = y := by
  constructor
  · intro heq
    have hsome : (x.bind fun a => y.map (f a)).isSome := h.elim id fun h' => heq ▸ h'
    rcases hx : x with _ | a
    · simp [hx] at hsome
    rcases hy : y with _ | b
    · simp [hy] at hsome
    rcases hx' : x' with _ | a'
    · simp [hx, hy, hx'] at heq
    rcases hy' : y' with _ | b'
    · simp [hx, hy, hy'] at heq
    simp only [hx, hy, hx', hy', bind_some, map_some, some.injEq] at heq
    obtain ⟨rfl, rfl⟩ := hf heq
    exact ⟨rfl, rfl⟩
  · rintro ⟨rfl, rfl⟩
    rfl

/-! ### Loops -/

theorem mapM_some_iff {f : α → Option β} : ∀ {l : List α}, (l.mapM f).isSome ↔ ∀ a ∈ l, (f a).isSome
  | [] => by simp
  | a :: l => by
    rw [mapM_cons, forall_mem_cons, ← mapM_some_iff]
    cases f a with
    | none => simp
    | some b => cases l.mapM f <;> simp

theorem mapM_congr {f g : α → Option β} : ∀ {l : List α}, (∀ a ∈ l, f a = g a) → l.mapM f = l.mapM g
  | [], _ => rfl
  | a :: l, h => by
    rw [mapM_cons, mapM_cons, h a mem_cons_self, mapM_congr fun b hb => h b (mem_cons_of_mem a hb)]

theorem mapM_results {f : α → Option β} {g : β → γ} : ∀ l : List α,
    (l.mapM fun a => (f a).map g) = (l.mapM f).map (map g)
  | [] => rfl
  | a :: l => by
    rw [mapM_cons, mapM_cons, mapM_results l]
    cases f a with
    | none => rfl
    | some b => cases l.mapM f <;> rfl

theorem mapM_injective {f g : α → Option β} : ∀ {l : List α} {bs : List β}, l.mapM f = some bs →
    l.mapM g = some bs → ∀ a ∈ l, f a = g a
  | [], _, _, _, _, ha => by cases ha
  | a :: l, bs, hf, hg, x, hx => by
    rw [mapM_cons] at hf hg
    obtain ⟨b, hb, hf⟩ := bind_eq_some_iff.mp hf
    obtain ⟨bs', hbs', hf⟩ := bind_eq_some_iff.mp hf
    obtain ⟨c, hc, hg⟩ := bind_eq_some_iff.mp hg
    obtain ⟨cs', hcs', hg⟩ := bind_eq_some_iff.mp hg
    obtain ⟨rfl, rfl⟩ := cons.inj (some.inj (hf.trans hg.symm))
    rcases mem_cons.mp hx with rfl | hx
    · rw [hb, hc]
    · exact mapM_injective hbs' hcs' x hx

theorem mapM_eq_iff {f g : α → Option β} {l : List α} (h : (l.mapM f).isSome ∨ (l.mapM g).isSome) :
    l.mapM f = l.mapM g ↔ ∀ a ∈ l, f a = g a := by
  refine ⟨fun heq => ?_, mapM_congr⟩
  have hsome : (l.mapM f).isSome := h.elim id fun hg => heq ▸ hg
  obtain ⟨bs, hbs⟩ := isSome_iff_exists.mp hsome
  exact mapM_injective hbs (heq ▸ hbs)

/-! ### Gathering -/

/-- All the parts, one after the other. -/
def gather : List (Option (List α)) → Option (List α)
  | [] => some []
  | x :: xs => x.bind fun a => (gather xs).map (a ++ ·)

theorem gather_append : ∀ xs ys : List (Option (List α)),
    gather (xs ++ ys) = (gather xs).bind fun a => (gather ys).map (a ++ ·)
  | [], ys => by simp [gather]
  | x :: xs, ys => by
    rw [cons_append, gather, gather, gather_append xs ys]
    rcases x with _ | a
    · rfl
    cases gather xs with
    | none => rfl
    | some b => cases gather ys <;> simp

theorem gather_skip (pre post : List (Option (List α))) : gather (pre ++ some [] :: post) = gather (pre ++ post) := by
  have hpost : gather (some [] :: post) = gather post := by
    rw [gather]
    cases gather post <;> rfl
  rw [gather_append, gather_append, hpost]

/-- Where one part is replaced, the whole stays the same exactly if the part does, unless the others
    are not all there. -/
theorem gather_eq_iff {pre post : List (Option (List α))} {x y : Option (List α)}
    (h : (gather (pre ++ x :: post)).isSome ∨ (gather (pre ++ y :: post)).isSome) :
    gather (pre ++ x :: post) = gather (pre ++ y :: post) ↔ x = y := by
  refine ⟨fun heq => ?_, fun hxy => by rw [hxy]⟩
  rw [gather_append, gather_append, gather, gather] at h heq
  rcases hpre : gather pre with _ | a
  · simp [hpre] at h
  rcases hpost : gather post with _ | b
  · cases x <;> cases y <;> simp [hpost] at h
  simp only [hpre, hpost] at h heq
  cases x with
  | none =>
    cases y with
    | none => rfl
    | some c => simp at heq
  | some d =>
    rcases y with _ | c
    · simp at heq
    have hlists := some.inj heq
    have hright := append_cancel_left hlists
    rw [append_cancel_right hright]

end Honey.Schemes
