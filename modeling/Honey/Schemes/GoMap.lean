import Mathlib

/-! Go maps.

    A lookup of an absent key gives the zero value of the element type, and `range` visits the keys in
    an order the runtime picks anew for every loop. The order is therefore an argument (`MapOrder`) of
    whatever ranges over a map, and a result is about the code only when it holds for every order. -/

namespace Honey.Schemes
open Function List

/-- The order in which a `range` loop visits keys. -/
structure MapOrder (κ : Type*) where
  visit : List κ → List κ
  perm : ∀ l, (visit l).Perm l

/-- A map with its keys in order of insertion. `default` is the zero value of the elements. -/
structure GoMap (κ ν : Type*) [Inhabited ν] where
  keys : List κ
  get : κ → ν
  nodup : keys.Nodup
  get_absent : ∀ k, k ∉ keys → get k = default

namespace MapOrder

variable {κ : Type*}

instance : Inhabited (MapOrder κ) := ⟨⟨id, fun l => List.Perm.refl l⟩⟩

/-- The order that visits `k` first, if it is there at all. -/
def first [DecidableEq κ] (k : κ) : MapOrder κ where
  visit l := if k ∈ l then k :: l.erase k else l
  perm l := by
    split
    · exact (perm_cons_erase ‹_›).symm
    · exact List.Perm.refl l

theorem visit_first [DecidableEq κ] {k : κ} {l : List κ} (hk : k ∈ l) :
    (first k).visit l = k :: l.erase k := if_pos hk

theorem mem_visit (ω : MapOrder κ) {k : κ} {l : List κ} : k ∈ ω.visit l ↔ k ∈ l := (ω.perm l).mem_iff

end MapOrder

namespace GoMap

variable {κ ν : Type*} [Inhabited ν] [DecidableEq κ]

/-- `map[K]V{}`. -/
def empty : GoMap κ ν := ⟨[], fun _ => default, nodup_nil, fun _ _ => rfl⟩

instance : Inhabited (GoMap κ ν) := ⟨empty⟩

/-- `m[k] = v`. -/
def set (m : GoMap κ ν) (k : κ) (v : ν) : GoMap κ ν where
  keys := if k ∈ m.keys then m.keys else m.keys ++ [k]
  get := update m.get k v
  nodup := by
    split
    · exact m.nodup
    · exact m.nodup.append (nodup_singleton k) (by simpa using ‹_›)
  get_absent j hj := by
    have hjk : j ≠ k := by
      rintro rfl
      split at hj
      · exact hj ‹_›
      · simp at hj
    rw [update_of_ne hjk]
    refine m.get_absent j fun h => hj ?_
    split
    · exact h
    · exact mem_append_left _ h

/-- `delete(m, k)` for every `k` of a list. -/
def delAll (m : GoMap κ ν) (ks : List κ) : GoMap κ ν where
  keys := m.keys.filter (· ∉ ks)
  get k := if k ∈ ks then default else m.get k
  nodup := m.nodup.filter _
  get_absent k hk := by
    split
    · rfl
    · refine m.get_absent k fun h => hk ?_
      simpa using ⟨h, ‹_›⟩

variable (m : GoMap κ ν) {k j : κ} {v : ν}

omit [DecidableEq κ] in
@[simp] theorem keys_empty : (empty : GoMap κ ν).keys = [] := rfl

omit [DecidableEq κ] in
@[simp] theorem get_empty : (empty : GoMap κ ν).get k = default := rfl

@[simp] theorem get_set_self : (m.set k v).get k = v := update_self ..

theorem get_set_of_ne (h : j ≠ k) : (m.set k v).get j = m.get j := update_of_ne h ..

theorem get_set : (m.set k v).get j = if j = k then v else m.get j := update_apply ..

@[simp] theorem mem_keys_set : j ∈ (m.set k v).keys ↔ j = k ∨ j ∈ m.keys := by
  simp only [set]
  split
  · constructor
    · exact Or.inr
    · rintro (rfl | h)
      · exact ‹_›
      · exact h
  · simp [or_comm]

/-- The map with every value replaced, where the zero value goes to the zero value. -/
def mapVal {μ : Type*} [Inhabited μ] (f : ν → μ) (h : f default = default) : GoMap κ μ where
  keys := m.keys
  get k := f (m.get k)
  nodup := m.nodup
  get_absent k hk := by rw [m.get_absent k hk, h]

theorem get_foldl_set (f : κ → ν → ν) : ∀ (ks : List κ) (m : GoMap κ ν), ks.Nodup →
    ∀ k, (ks.foldl (fun m n => m.set n (f n (m.get n))) m).get k =
      if k ∈ ks then f k (m.get k) else m.get k
  | [], m, _, k => by simp
  | n :: ks, m, hnd, k => by
    rw [nodup_cons] at hnd
    rw [foldl_cons, get_foldl_set f ks _ hnd.2, get_set]
    rcases eq_or_ne k n with rfl | hne
    · simp [hnd.1]
    · simp [hne]

theorem get_foldl_mark (p : κ → Bool) : ∀ (ks : List κ) (m : GoMap κ Bool) (k : κ),
    (ks.foldl (fun m k => if p k then m.set k true else m) m).get k = true ↔ m.get k = true ∨ k ∈ ks ∧ p k = true
  | [], m, k => by simp
  | j :: ks, m, k => by
    rw [foldl_cons, get_foldl_mark p ks]
    by_cases hj : p j = true
    · rw [if_pos hj, get_set]
      by_cases hk : k = j
      · simp [hk, hj]
      · simp [hk]
    · rw [if_neg hj]
      by_cases hk : k = j
      · simp [hk, hj]
      · simp [hk]

omit [DecidableEq κ] in
theorem range_nodup (ω : MapOrder κ) : (ω.visit m.keys).Nodup := (ω.perm m.keys).nodup_iff.mpr m.nodup

end GoMap

/-! ### The last write

    A loop that writes one place again and again leaves there what it wrote last. -/

section

variable {α β : Type*} {read : β → Option α} {zero : α}

/-- What is left of the writes of a loop; a step may write nothing. -/
def lastWrite (read : β → Option α) (zero : α) (l : List β) : α :=
  l.foldl (fun acc b => (read b).getD acc) zero

theorem lastWrite_cons (b : β) (l : List β) :
    lastWrite read zero (b :: l) = lastWrite read ((read b).getD zero) l := rfl

theorem lastWrite_append (l₁ l₂ : List β) :
    lastWrite read zero (l₁ ++ l₂) = lastWrite read (lastWrite read zero l₁) l₂ :=
  foldl_append

theorem lastWrite_eq_zero : ∀ {l : List β} {zero : α}, (∀ b ∈ l, read b = none) → lastWrite read zero l = zero
  | [], _, _ => rfl
  | b :: l, zero, h => by
    rw [lastWrite_cons, h b mem_cons_self]
    exact lastWrite_eq_zero fun c hc => h c (mem_cons_of_mem b hc)

theorem lastWrite_eq_last {before after : List β} {b : β} {x : α} (hb : read b = some x)
    (hafter : ∀ c ∈ after, read c = none) : lastWrite read zero (before ++ b :: after) = x := by
  rw [lastWrite_append, lastWrite_cons, hb]
  exact lastWrite_eq_zero hafter

theorem exists_last (read : β → Option α) (l : List β) :
    (∀ b ∈ l, read b = none) ∨ ∃ before b x after, l = before ++ b :: after ∧ read b = some x ∧
      ∀ c ∈ after, read c = none := by
  induction l with
  | nil => exact .inl fun b hb => by cases hb
  | cons b l ih =>
    rcases ih with hnone | ⟨before, c, x, after, rfl, h⟩
    · rcases hb : read b with _ | x
      · exact .inl (forall_mem_cons.mpr ⟨hb, hnone⟩)
      · exact .inr ⟨[], b, x, l, rfl, hb, hnone⟩
    · exact .inr ⟨b :: before, c, x, after, rfl, h⟩

theorem lastWrite_eq_iff (l : List β) : lastWrite read zero l = zero ↔
    ∀ before b x after, l = before ++ b :: after → read b = some x → (∀ c ∈ after, read c = none) → x = zero := by
  constructor
  · rintro h before b x after rfl hb hafter
    rw [← h, lastWrite_eq_last hb hafter]
  · intro h
    rcases exists_last read l with hnone | ⟨before, b, x, after, rfl, hb, hafter⟩
    · exact lastWrite_eq_zero hnone
    · rw [lastWrite_eq_last hb hafter]
      exact h before b x after rfl hb hafter

end

/-! ### Places under keys -/

section

variable {σ α β κ : Type*} [DecidableEq κ] {look : σ → κ → α} {step : σ → β → σ} {write : β → Option (κ × α)}

/-- What a write leaves under a key. -/
def writeAt (write : β → Option (κ × α)) (k : κ) (b : β) : Option α :=
  (write b).bind fun w => if w.1 = k then some w.2 else none

theorem writeAt_eq_some {k : κ} {b : β} {v : α} : writeAt write k b = some v ↔ write b = some (k, v) := by
  rw [writeAt, Option.bind_eq_some_iff]
  constructor
  · rintro ⟨⟨k', v'⟩, hw, h⟩
    rw [hw]
    split at h
    · rename_i hk
      rw [← Option.some.inj h, ← hk]
    · cases h
  · intro h
    exact ⟨(k, v), h, if_pos rfl⟩

theorem look_foldl (hstep : ∀ s b k, look (step s b) k = (writeAt write k b).getD (look s k)) (k : κ) :
    ∀ (l : List β) (s : σ), look (l.foldl step s) k = lastWrite (writeAt write k) (look s k) l
  | [], _ => rfl
  | b :: l, s => by rw [foldl_cons, look_foldl hstep k l, lastWrite_cons, hstep]

/-- A loop of writes leaves every place as it was exactly if the last write under each key wrote what was there. -/
theorem foldl_kept_iff (hstep : ∀ s b k, look (step s b) k = (writeAt write k b).getD (look s k))
    (l : List β) (s : σ) : (∀ k, look (l.foldl step s) k = look s k) ↔
      ∀ before b k v after, l = before ++ b :: after → write b = some (k, v) →
        (∀ c ∈ after, ∀ v', write c ≠ some (k, v')) → v = look s k := by
  simp only [look_foldl hstep, lastWrite_eq_iff, writeAt_eq_some]
  have hnone : ∀ k c, writeAt write k c = none ↔ ∀ v', write c ≠ some (k, v') := by
    intro k c
    rw [Option.eq_none_iff_forall_ne_some]
    exact forall_congr' fun v' => not_congr writeAt_eq_some
  simp only [hnone]
  constructor
  · intro h before b k v after
    exact h k before b v after
  · intro h k before b v after
    exact h before b k v after

/-- One update after another, each of the place of its item. -/
def updateAll (key : β → κ) (f : β → α → α) (l : List β) (g : κ → α) : κ → α :=
  l.foldl (fun g b => update g (key b) (f b (g (key b)))) g

variable {key : β → κ} {f : β → α → α}

@[simp] theorem updateAll_nil (g : κ → α) : updateAll key f [] g = g := rfl

theorem updateAll_cons (b : β) (l : List β) (g : κ → α) :
    updateAll key f (b :: l) g = updateAll key f l (update g (key b) (f b (g (key b)))) := rfl

theorem updateAll_of_not_mem {k : κ} : ∀ {l : List β} (g : κ → α), k ∉ l.map key → updateAll key f l g k = g k
  | [], _, _ => rfl
  | b :: l, g, h => by
    rw [map_cons, mem_cons, not_or] at h
    rw [updateAll_cons, updateAll_of_not_mem _ h.2, update_of_ne h.1]

theorem updateAll_congr {k : κ} : ∀ (l : List β) {g g' : κ → α}, g k = g' k →
    updateAll key f l g k = updateAll key f l g' k
  | [], _, _, h => h
  | b :: l, g, g', h => by
    rw [updateAll_cons, updateAll_cons]
    refine updateAll_congr l ?_
    by_cases hk : k = key b
    · rw [hk, update_self, update_self, ← hk, h]
    · rw [update_of_ne hk, update_of_ne hk, h]

/-- With a place of its own for each item, every item finds its place untouched. -/
theorem updateAll_of_mem {b : β} : ∀ {l : List β} (g : κ → α), (l.map key).Nodup → b ∈ l →
    updateAll key f l g (key b) = f b (g (key b))
  | c :: l, g, hnd, hb => by
    rw [map_cons, nodup_cons] at hnd
    rw [updateAll_cons]
    rcases mem_cons.mp hb with rfl | hb
    · rw [updateAll_of_not_mem _ hnd.1, update_self]
    · have hne : key b ≠ key c := fun h => hnd.1 (h ▸ mem_map_of_mem hb)
      rw [updateAll_of_mem _ hnd.2 hb, update_of_ne hne]

theorem updateAll_id {f : κ → α → α} {l : List κ} (hnd : l.Nodup) (g : κ → α) (k : κ) :
    updateAll id f l g k = if k ∈ l then f k (g k) else g k := by
  split
  · rename_i h
    have hmem : updateAll id f l g (id k) = f k (g (id k)) := updateAll_of_mem g (by rwa [map_id]) h
    exact hmem
  · exact updateAll_of_not_mem g (by rwa [map_id])

end

end Honey.Schemes
