import Mathlib

/-! Fallible computations: when a sequence of steps, or a loop over a list, succeeds, and where a loop
    stops that does not. -/

namespace Honey.Schemes
open List

variable {ε α β : Type}

variable {x : Except ε α} {f : α → Except ε β} {b : β} {l : List α} {bs : List β}

/-- A sequence of fallible steps succeeds exactly if each of them does. -/
theorem bind_eq_ok : (x >>= f) = .ok b ↔ ∃ a, x = .ok a ∧ f a = .ok b := by
  cases x with
  | error e | ok a => simp [bind, Except.bind]

theorem then_eq_ok {x : Except ε Unit} {y : Except ε β} : (x >>= fun _ => y) = .ok b ↔ x = .ok () ∧ y = .ok b := by
  rw [bind_eq_ok]
  constructor
  · rintro ⟨⟨⟩, hx, hy⟩
    exact ⟨hx, hy⟩
  · rintro ⟨hx, hy⟩
    exact ⟨(), hx, hy⟩

theorem pure_eq_ok {a b : α} : (pure a : Except ε α) = .ok b ↔ a = b := by
  simp [pure, Except.pure]

theorem guard_eq_ok {c : Prop} [Decidable c] {e : ε} {x : Except ε β} :
    (if c then throw e >>= f else x) = .ok b ↔ ¬ c ∧ x = .ok b := by
  split <;> simp_all [bind, Except.bind]

/-- An error with a text before it. -/
def withPrefix (text : String) : Except String α → Except String α
  | .error e => .error (text ++ e)
  | .ok a => .ok a

theorem withPrefix_eq_ok {text : String} {x : Except String α} {a : α} : withPrefix text x = .ok a ↔ x = .ok a := by
  cases x with
  | error e | ok b => simp [withPrefix]

theorem map_eq_ok {f : α → β} : x.map f = .ok b ↔ ∃ a, x = .ok a ∧ f a = b := by
  cases x with
  | error e | ok a => simp [Except.map]

theorem exists_ok_iff {a : α} (h : x = .ok a) {p : α → Prop} : (∃ b, x = .ok b ∧ p b) ↔ p a := by
  simp [h]

theorem map_bind {γ : Type} (x : Except ε α) (f : α → Except ε β) (g : β → γ) :
    (x >>= f).map g = x >>= fun a => (f a).map g := by
  cases x <;> rfl

/-- Statements one after the other, without a transaction: what was done before a failure stays. -/
def statements {σ : Type} : List (σ → Except ε σ) → σ → σ × Except ε Unit
  | [], s => (s, .ok ())
  | f :: fs, s => match f s with
    | .error e => (s, .error e)
    | .ok s' => statements fs s'

/-- What every statement keeps, the sequence does. -/
theorem statements_inv {σ : Type} {Inv : σ → Prop} : ∀ {fs : List (σ → Except ε σ)} {s : σ},
    (∀ f ∈ fs, ∀ s s', f s = .ok s' → Inv s → Inv s') → Inv s → Inv (statements fs s).1
  | [], _, _, hs => hs
  | f :: fs, s, h, hs => by
    rw [statements]
    cases hf : f s with
    | error e => exact hs
    | ok s' =>
      exact statements_inv (fun g hg => h g (mem_cons_of_mem f hg)) (h f mem_cons_self s s' hf hs)

theorem statements_append {σ : Type} {gs : List (σ → Except ε σ)} {s' : σ} :
    ∀ {fs : List (σ → Except ε σ)} {s : σ}, statements fs s = (s', .ok ()) →
    statements (fs ++ gs) s = statements gs s'
  | [], s, h => by
    rw [statements, Prod.mk.injEq] at h
    rw [h.1, nil_append]
  | f :: fs, s, h => by
    rw [statements] at h
    rw [cons_append, statements]
    cases hf : f s with
    | error e =>
      rw [hf, Prod.mk.injEq] at h
      cases h.2
    | ok s₁ =>
      rw [hf] at h
      exact statements_append h

theorem mapM_forall₂ : ∀ {l : List α} {bs : List β}, l.mapM f = .ok bs → List.Forall₂ (fun a b => f a = .ok b) l bs
  | [], bs, hl => by
    rw [← Except.ok.inj hl]
    exact .nil
  | a :: l, bs, hl => by
    rw [mapM_cons] at hl
    obtain ⟨b, hb, hl⟩ := bind_eq_ok.mp hl
    obtain ⟨bs', hbs', hl⟩ := bind_eq_ok.mp hl
    rw [← Except.ok.inj hl]
    exact .cons hb (mapM_forall₂ hbs')

theorem forall₂_mem {R : α → β → Prop} (h : List.Forall₂ R l bs) : ∀ b ∈ bs, ∃ a ∈ l, R a b := by
  induction h with
  | nil => simp
  | cons hab _ ih =>
    refine forall_mem_cons.mpr ⟨⟨_, mem_cons_self, hab⟩, fun b hb => ?_⟩
    obtain ⟨a, ha, h⟩ := ih b hb
    exact ⟨a, mem_cons_of_mem _ ha, h⟩

section

variable {f : α → Except ε β} {l : List α} {bs : List β} (hl : l.mapM f = .ok bs)
include hl

theorem mapM_mem : ∀ b ∈ bs, ∃ a ∈ l, f a = .ok b := forall₂_mem (mapM_forall₂ hl)

theorem mem_mapM : ∀ a ∈ l, ∃ b ∈ bs, f a = .ok b := forall₂_mem (mapM_forall₂ hl).flip

theorem mem_zip_mapM {a : α} {b : β} : (a, b) ∈ l.zip bs ↔ a ∈ l ∧ f a = .ok b := by
  replace hl := mapM_forall₂ hl
  induction hl with
  | nil => simp
  | cons hab _ ih =>
    rw [zip_cons_cons, mem_cons, mem_cons, Prod.mk.injEq]
    refine (or_congr_right ih).trans ?_
    constructor
    · rintro (⟨rfl, rfl⟩ | ⟨ha, hab⟩)
      · exact ⟨.inl rfl, hab⟩
      · exact ⟨.inr ha, hab⟩
    · rintro ⟨rfl | ha, h⟩
      · exact .inl ⟨rfl, Except.ok.inj (h.symm.trans hab)⟩
      · exact .inr ⟨ha, h⟩

end

theorem mapM_keeps {κ : Type} {p : α → κ} {q : β → κ} (h : ∀ a b, f a = .ok b → q b = p a) (hl : l.mapM f = .ok bs) :
    bs.map q = l.map p := by
  replace hl := mapM_forall₂ hl
  induction hl with
  | nil => rfl
  | cons hab _ ih => rw [map_cons, map_cons, h _ _ hab, ih]

theorem mapM_filter {p : β → Bool} {q : α → Bool} (h : ∀ a b, f a = .ok b → p b = q a) (hl : l.mapM f = .ok bs) :
    (l.filter q).mapM f = .ok (bs.filter p) := by
  replace hl := mapM_forall₂ hl
  induction hl with
  | nil => rfl
  | @cons a b _ _ hab _ ih =>
    have hpq := h a b hab
    cases hq : q a with
    | true =>
      rw [filter_cons_of_pos hq, filter_cons_of_pos (hpq.trans hq), mapM_cons, hab, ih]
      rfl
    | false => rw [filter_cons_of_neg (by simp [hq]), filter_cons_of_neg (by simp [hpq, hq]), ih]

theorem mapM_map {f' : α → Except ε β} {g : α → α} {g' : β → β} (h : ∀ a, f' (g a) = (f a).map g') : ∀ l : List α,
    (l.map g).mapM f' = (l.mapM f).map (map g')
  | [] => rfl
  | a :: l => by
    rw [map_cons, mapM_cons, mapM_cons, h a, mapM_map h l]
    rcases f a with e | b
    · rfl
    · rcases l.mapM f with e | bs
      · rfl
      · rfl

theorem mapM_zipWith {f' : α → Except ε β} {g : α → β → β} (h : ∀ a, f' a = (f a).map (g a)) :
    ∀ l : List α, l.mapM f' = (l.mapM f).map (zipWith g l)
  | [] => rfl
  | a :: l => by
    rw [mapM_cons, mapM_cons, h a, mapM_zipWith h l]
    rcases f a with e | b
    · rfl
    · rcases l.mapM f with e | bs
      · rfl
      · rfl

theorem mapM_ok_iff : ∀ {l : List α}, (∃ bs, l.mapM f = .ok bs) ↔ ∀ a ∈ l, ∃ b, f a = .ok b
  | [] => by simp [pure, Except.pure]
  | a :: l => by
    rw [forall_mem_cons, ← mapM_ok_iff]
    constructor
    · rintro ⟨bs, h⟩
      rw [mapM_cons] at h
      obtain ⟨b, hb, h⟩ := bind_eq_ok.mp h
      obtain ⟨bs', hbs', -⟩ := bind_eq_ok.mp h
      exact ⟨⟨b, hb⟩, bs', hbs'⟩
    · rintro ⟨⟨b, hb⟩, bs, hbs⟩
      refine ⟨b :: bs, ?_⟩
      rw [mapM_cons, hb, hbs]
      rfl

theorem mapM_eq_ok_map {g : α → β} : ∀ {l : List α}, (∀ a ∈ l, f a = .ok (g a)) → l.mapM f = .ok (l.map g)
  | [], _ => rfl
  | a :: l, h => by
    rw [forall_mem_cons] at h
    rw [mapM_cons, h.1, mapM_eq_ok_map h.2]
    rfl

theorem mapM_error {e : ε} : ∀ {l : List α}, l.mapM f = .error e → ∃ a ∈ l, f a = .error e
  | [], h => by cases h
  | a :: l, h => by
    rw [mapM_cons] at h
    cases ha : f a with
    | error e' =>
      rw [ha] at h
      cases h
      exact ⟨a, mem_cons_self, ha⟩
    | ok b =>
      cases hl : l.mapM f with
      | error e' =>
        rw [ha, hl] at h
        cases h
        obtain ⟨a', ha', hf⟩ := mapM_error hl
        exact ⟨a', mem_cons_of_mem a ha', hf⟩
      | ok bs =>
        rw [ha, hl] at h
        cases h

/-! ### The first item that fails -/

section

variable {ι : Type*} {ok : ι → Prop} {P : List ι → ι → Prop} {l : List ι}

/-- `P` holds of the first item that is not `ok` and of the items before it, if there is one. -/
def AtFirst (ok : ι → Prop) (P : List ι → ι → Prop) (l : List ι) : Prop :=
  ∀ before x after, l = before ++ x :: after → (∀ y ∈ before, ok y) → ¬ ok x → P before x

theorem all_or_first (ok : ι → Prop) : ∀ l : List ι, (∀ x ∈ l, ok x) ∨
    ∃ before x after, l = before ++ x :: after ∧ (∀ y ∈ before, ok y) ∧ ¬ ok x
  | [] => .inl fun x hx => by cases hx
  | a :: l => by
    by_cases ha : ok a
    · rcases all_or_first ok l with hall | ⟨before, x, after, rfl, hb, hx⟩
      · exact .inl (forall_mem_cons.mpr ⟨ha, hall⟩)
      · exact .inr ⟨a :: before, x, after, rfl, forall_mem_cons.mpr ⟨ha, hb⟩, hx⟩
    · exact .inr ⟨[], a, l, rfl, fun y hy => (by cases hy), ha⟩

theorem first_unique : ∀ {b₁ b₂ a₁ a₂ : List ι} {x₁ x₂ : ι}, b₁ ++ x₁ :: a₁ = b₂ ++ x₂ :: a₂ →
    (∀ y ∈ b₁, ok y) → ¬ ok x₁ → (∀ y ∈ b₂, ok y) → ¬ ok x₂ → b₁ = b₂ ∧ x₁ = x₂
  | [], [], _, _, _, _, h, _, _, _, _ => ⟨rfl, (cons.inj h).1⟩
  | [], y :: b₂, _, _, x₁, x₂, h, _, hx, hb, _ =>
    absurd ((cons.inj h).1 ▸ hb y mem_cons_self) hx
  | y :: b₁, [], _, _, x₁, x₂, h, hb, _, _, hx =>
    absurd ((cons.inj h).1 ▸ hb y mem_cons_self) hx
  | y₁ :: b₁, y₂ :: b₂, _, _, _, _, h, h₁, hx₁, h₂, hx₂ => by
    obtain ⟨hy, htail⟩ := cons.inj h
    obtain ⟨hb, hx⟩ := first_unique htail (forall_mem_cons.mp h₁).2 hx₁ (forall_mem_cons.mp h₂).2 hx₂
    exact ⟨by rw [hy, hb], hx⟩

theorem atFirst_of_all (h : ∀ x ∈ l, ok x) : AtFirst ok P l := by
  rintro before x after rfl - hx
  exact absurd (h x (mem_append_right before mem_cons_self)) hx

theorem atFirst_iff {before after : List ι} {x : ι} (hb : ∀ y ∈ before, ok y) (hx : ¬ ok x) :
    AtFirst ok P (before ++ x :: after) ↔ P before x := by
  constructor
  · intro h
    exact h before x after rfl hb hx
  · intro h b y a hl hb' hy
    obtain ⟨rfl, rfl⟩ := first_unique hl hb hx hb' hy
    exact h

end

end Honey.Schemes
