import Mathlib

/-! Go slices over an explicit memory.

    A slice is a header `(ptr, len, cap)` over a backing buffer, and copying the header shares the
    buffer. `append` writes in place while the length is below the capacity and moves to a fresh
    buffer once it is not, so a caller that still holds the old header sees the first `cap` writes
    and none of the later ones (`appendAll_buf`, `appendAll_over`).

        len < cap :  buf[len] := x                    same ptr, len + 1
        len = cap :  fresh buffer, copy, then x       new ptr, old buffer left as it is -/

namespace Honey.Schemes
open List Function Nat Prod

variable {α : Type*}

/-- Memory: the contents of every buffer by address, and the first address never handed out. -/
structure Heap (α : Type*) where
  buf : ℕ → List α
  next : ℕ

/-- A slice header. The offset is always the start of the buffer here. -/
structure Slice where
  (ptr len cap : ℕ)
  deriving DecidableEq, Repr

/-- The empty memory; address `0` stands for the nil pointer. -/
def Heap.empty : Heap α := ⟨fun _ => [], 1⟩

def Slice.nil : Slice := ⟨0, 0, 0⟩

def Heap.write (h : Heap α) (p : ℕ) (l : List α) : Heap α :=
  { h with buf := update h.buf p l }

/-- The elements a holder of the header sees. -/
def Slice.read (h : Heap α) (s : Slice) : List α := (h.buf s.ptr).take s.len

/-- `s[:0]`: same buffer and capacity, no elements. -/
def Slice.clear (s : Slice) : Slice := { s with len := 0 }

/-- The header points at allocated memory that holds its capacity. -/
structure Slice.Valid (h : Heap α) (s : Slice) : Prop where
  ptr_lt : s.ptr < h.next
  len_le : s.len ≤ s.cap
  cap_le : s.cap ≤ (h.buf s.ptr).length

theorem nil_valid : Slice.nil.Valid (Heap.empty : Heap α) := by
  constructor <;> simp [Slice.nil, Heap.empty]

/-- Overwrite `l` from index `i` on with `ys`. -/
def splice (i : ℕ) (ys l : List α) : List α := l.take i ++ ys ++ l.drop (i + ys.length)

@[simp] theorem splice_nil (i : ℕ) (l : List α) : splice i [] l = l := by simp [splice]

theorem splice_cons {i : ℕ} {l : List α} (hi : i < l.length) (x : α) (ys : List α) :
    splice i (x :: ys) l = splice (i + 1) ys (l.set i x) := by
  have htake : (l.set i x).take (i + 1) = l.take i ++ [x] := by
    rw [take_add_one, take_set_of_le (le_refl i), getElem?_set_self hi]
    rfl
  have hdrop : (l.set i x).drop (i + 1 + ys.length) = l.drop (i + 1 + ys.length) := drop_set_of_lt (by omega)
  simp only [splice, htake, hdrop, length_cons, append_assoc, cons_append, nil_append]
  rw [show i + (ys.length + 1) = i + 1 + ys.length by omega]

theorem length_splice {i : ℕ} {ys l : List α} (h : i + ys.length ≤ l.length) : (splice i ys l).length = l.length := by
  simp only [splice, length_append, length_take, length_drop]
  omega

section Append

variable [Inhabited α] (grow : ℕ → ℕ)

/-- `append(s, x)`. The runtime picks the new capacity, `grow cap` or more. -/
def append (m : Heap α × Slice) (x : α) : Heap α × Slice :=
  let (h, s) := m
  if s.len < s.cap then
    (h.write s.ptr ((h.buf s.ptr).set s.len x), { s with len := s.len + 1 })
  else
    let old := s.read h ++ [x]
    let fresh := old ++ replicate (grow s.cap - old.length) default
    ({ h.write h.next fresh with next := h.next + 1 }, ⟨h.next, old.length, fresh.length⟩)

/-- The loop `for _, x := range xs { s = append(s, x) }`. -/
def appendAll (m : Heap α × Slice) (xs : List α) : Heap α × Slice := xs.foldl (append grow) m

/-- `make([]T, 0, cap)`. -/
def make (h : Heap α) (cap : ℕ) : Heap α × Slice :=
  ({ h.write h.next (replicate cap default) with next := h.next + 1 }, ⟨h.next, 0, cap⟩)

/-- `sort.Slice` over the elements of the header, in place. -/
def sortInPlace (le : α → α → Prop) [DecidableRel le] (m : Heap α × Slice) : Heap α × Slice :=
  let (h, s) := m
  (h.write s.ptr (splice 0 ((s.read h).insertionSort le) (h.buf s.ptr)), s)

/-! ### One append -/

variable {h : Heap α} {s : Slice}

attribute [local simp] Heap.write Slice.clear

omit [Inhabited α] in
theorem length_read (hv : s.Valid h) : (s.read h).length = s.len := by
  have := hv.len_le
  have := hv.cap_le
  simp only [Slice.read, length_take]
  omega

theorem append_of_lt (x : α) (hlt : s.len < s.cap) : append grow (h, s) x =
      (h.write s.ptr ((h.buf s.ptr).set s.len x), { s with len := s.len + 1 }) := by
  simp [append, hlt]

theorem append_of_ge (x : α) (hge : ¬ s.len < s.cap) : append grow (h, s) x = ({ h.write h.next ((s.read h ++ [x]) ++
            replicate (grow s.cap - (s.read h ++ [x]).length) default) with
          next := h.next + 1 },
        ⟨h.next, (s.read h ++ [x]).length, ((s.read h ++ [x]) ++
            replicate (grow s.cap - (s.read h ++ [x]).length) default).length⟩) := by
  simp [append, if_neg hge]

theorem append_ptr (x : α) : (append grow (h, s) x).2.ptr = if s.len < s.cap then s.ptr else h.next := by
  by_cases hlt : s.len < s.cap <;> simp [append, hlt]

theorem next_le_append (x : α) : h.next ≤ (append grow (h, s) x).1.next := by
  by_cases hlt : s.len < s.cap <;> simp [append, hlt]

variable {p : ℕ}

theorem append_frame (x : α) (hp : p < h.next) (hne : p ≠ s.ptr) : (append grow (h, s) x).1.buf p = h.buf p := by
  by_cases hlt : s.len < s.cap
  · simp [append, hlt, update_of_ne hne]
  · simp [append, hlt, update_of_ne (Nat.ne_of_lt hp)]

theorem append_buf_full {x : α} (hv : s.Valid h) (hge : ¬ s.len < s.cap) :
    (append grow (h, s) x).1.buf s.ptr = h.buf s.ptr := by
  simp [append, hge, update_of_ne (Nat.ne_of_lt hv.ptr_lt)]

theorem append_valid (x : α) (hv : s.Valid h) : (append grow (h, s) x).2.Valid (append grow (h, s) x).1 := by
  have hcap := hv.cap_le
  by_cases hlt : s.len < s.cap
  · rw [append_of_lt grow x hlt]
    refine ⟨hv.ptr_lt, hlt, ?_⟩
    simpa using hcap
  · refine ⟨?_, ?_, ?_⟩ <;> simp [append, hlt]

theorem append_read (x : α) (hv : s.Valid h) :
    (append grow (h, s) x).2.read (append grow (h, s) x).1 = s.read h ++ [x] := by
  have hcap := hv.cap_le
  by_cases hlt : s.len < s.cap
  · rw [append_of_lt grow x hlt]
    simp only [Slice.read, Heap.write, update_self]
    rw [take_add_one, take_set_of_le (le_refl s.len), getElem?_set_self (by omega)]
    rfl
  · rw [append_of_ge grow x hlt, Slice.read]
    simp only [Heap.write, update_self]
    rw [take_left]

/-! ### A loop of appends -/

@[simp] theorem appendAll_nil (m : Heap α × Slice) : appendAll grow m [] = m := rfl

theorem appendAll_cons (m : Heap α × Slice) (x : α) (xs : List α) :
    appendAll grow m (x :: xs) = appendAll grow (append grow m x) xs := rfl

theorem appendAll_valid : ∀ (xs : List α) (m : Heap α × Slice), m.2.Valid m.1 →
    (appendAll grow m xs).2.Valid (appendAll grow m xs).1
  | [], _, hv => hv
  | x :: xs, _, hv => appendAll_valid xs _ (append_valid grow x hv)

theorem appendAll_read : ∀ (xs : List α) (m : Heap α × Slice), m.2.Valid m.1 →
    (appendAll grow m xs).2.read (appendAll grow m xs).1 = m.2.read m.1 ++ xs
  | [], m, _ => by simp
  | x :: xs, m, hv => by
    rw [appendAll_cons, appendAll_read xs _ (append_valid grow x hv), append_read grow x hv,
      append_assoc, singleton_append]

theorem next_le_appendAll : ∀ (xs : List α) (m : Heap α × Slice), m.1.next ≤ (appendAll grow m xs).1.next
  | [], _ => le_refl _
  | x :: xs, _ => le_trans (next_le_append grow x) (next_le_appendAll xs _)

theorem appendAll_frame : ∀ (xs : List α) (m : Heap α × Slice), p < m.1.next →
    p ≠ m.2.ptr → (appendAll grow m xs).1.buf p = m.1.buf p
  | [], _, _, _ => rfl
  | x :: xs, (h, s), hp, hne => by
    have hne' : p ≠ (append grow (h, s) x).2.ptr := by
      rw [append_ptr]
      split
      · exact hne
      · exact Nat.ne_of_lt hp
    rw [appendAll_cons, appendAll_frame xs _ (lt_of_lt_of_le hp (next_le_append grow x)) hne',
      append_frame grow x hp hne]

theorem appendAll_fit : ∀ (xs : List α) (h : Heap α) (s : Slice), s.len + xs.length ≤ s.cap →
    (appendAll grow (h, s) xs).2 = { s with len := s.len + xs.length }
  | [], _, _, _ => rfl
  | x :: xs, h, s, hfit => by
    rw [length_cons] at hfit
    rw [appendAll_cons, append_of_lt grow x (by omega), appendAll_fit xs _ _ (by simp only; omega), length_cons]
    simp only [Slice.mk.injEq, true_and, and_true]
    omega

/-- Once something does not fit the result lives in a fresh buffer. -/
theorem appendAll_over : ∀ (xs : List α) (h : Heap α) (s : Slice), s.Valid h →
    s.cap < s.len + xs.length → h.next ≤ (appendAll grow (h, s) xs).2.ptr
  | [], _, _, hv, hlt => absurd hv.len_le (by simpa using hlt)
  | x :: xs, h, s, hv, hlt => by
    have hv' := append_valid grow x hv
    rw [length_cons] at hlt
    rw [appendAll_cons]
    by_cases hroom : s.len < s.cap
    · rw [append_of_lt grow x hroom] at hv' ⊢
      exact appendAll_over xs _ _ hv' (by simp only; omega)
    -- the buffer is already full, so the first append moves and the rest may move again
    · rcases lt_or_ge (append grow (h, s) x).2.cap ((append grow (h, s) x).2.len + xs.length) with hov | hfit
      · exact le_trans (next_le_append grow x) (appendAll_over xs _ _ hv' hov)
      · rw [appendAll_fit grow xs _ _ hfit]
        simp [append_ptr, if_neg hroom]

/-- What the loop leaves in the buffer it started in: the elements that fitted, and nothing of those that did not. -/
theorem appendAll_buf : ∀ (xs : List α) (h : Heap α) (s : Slice), s.Valid h → (appendAll grow (h, s) xs).1.buf s.ptr =
      splice s.len (xs.take (s.cap - s.len)) (h.buf s.ptr)
  | [], _, _, _ => by simp
  | x :: xs, h, s, hv => by
    rw [appendAll_cons]
    by_cases hlt : s.len < s.cap
    · have ih := appendAll_buf xs (append grow _ x).1 (append grow _ x).2 (append_valid grow x hv)
      rw [append_of_lt grow x hlt] at ih ⊢
      have hbuf : (h.write s.ptr ((h.buf s.ptr).set s.len x)).buf s.ptr = (h.buf s.ptr).set s.len x := update_self ..
      have hcap := hv.cap_le
      simp only [hbuf] at ih
      rw [ih, show s.cap - s.len = (s.cap - (s.len + 1)) + 1 by omega, take_succ_cons, splice_cons (by omega)]
    · have hne : s.ptr ≠ (append grow (h, s) x).2.ptr := by
        rw [append_ptr, if_neg hlt]
        exact Nat.ne_of_lt hv.ptr_lt
      rw [appendAll_frame grow xs _ (lt_of_lt_of_le hv.ptr_lt (next_le_append grow x)) hne,
        append_buf_full grow hv hlt, Nat.sub_eq_zero_of_le (not_lt.mp hlt)]
      simp

/-! ### Filling a fresh slice -/

/-- `make([]T, 0, len(xs))` followed by a loop of appends. -/
def build (h : Heap α) (xs : List α) : Heap α × Slice := appendAll grow (make h xs.length) xs

theorem make_valid (h : Heap α) (cap : ℕ) : (make h cap).2.Valid (make h cap).1 := by
  constructor <;> simp [make]

theorem build_valid (h : Heap α) (xs : List α) : (build grow h xs).2.Valid (build grow h xs).1 :=
  appendAll_valid grow xs _ (make_valid h xs.length)

theorem build_read (h : Heap α) (xs : List α) : (build grow h xs).2.read (build grow h xs).1 = xs := by
  rw [build, appendAll_read grow xs _ (make_valid h xs.length)]
  simp [make, Slice.read]

theorem build_header (h : Heap α) (xs : List α) : (build grow h xs).2 = ⟨h.next, xs.length, xs.length⟩ := by
  rw [build, make, appendAll_fit grow xs _ _ (by simp)]
  simp

theorem build_frame (xs : List α) (hp : p < h.next) : (build grow h xs).1.buf p = h.buf p := by
  have hne : p ≠ h.next := Nat.ne_of_lt hp
  rw [build, appendAll_frame grow xs _ (by simp only [make]; omega) (by simpa [make] using hne)]
  simp [make, update_of_ne hne]

theorem next_le_build (h : Heap α) (xs : List α) : h.next ≤ (build grow h xs).1.next :=
  le_trans (by simp [make]) (next_le_appendAll grow xs _)

/-! ### Refilling a slice in place -/

/-- `s = s[:0]`, a loop of appends, then `sort.Slice`: the header's buffer is reused. -/
def refill (le : α → α → Prop) [DecidableRel le] (h : Heap α) (s : Slice) (xs : List α) :
    Heap α × Slice := sortInPlace le (appendAll grow (h, s.clear) xs)

variable (le : α → α → Prop) [DecidableRel le]

omit [Inhabited α] in
theorem splice_zero (ys l : List α) : splice 0 ys l = ys ++ l.drop ys.length := by simp [splice]

omit [Inhabited α] in
theorem clear_valid (hv : s.Valid h) : s.clear.Valid h := ⟨hv.ptr_lt, zero_le _, hv.cap_le⟩

omit [Inhabited α] in
theorem sortInPlace_read (hv : s.Valid h) :
    (sortInPlace le (h, s)).2.read (sortInPlace le (h, s)).1 = (s.read h).insertionSort le := by
  have hlen := length_read hv
  simp only [sortInPlace, Slice.read, Heap.write, update_self, splice_zero]
  rw [take_append_of_le_length (by rw [length_insertionSort]; exact hlen.ge)]
  refine take_of_length_le ?_
  rw [length_insertionSort]
  exact hlen.le

omit [Inhabited α] in
theorem sortInPlace_frame (hne : p ≠ s.ptr) : (sortInPlace le (h, s)).1.buf p = h.buf p := by
  simp [sortInPlace, update_of_ne hne]

theorem refill_read (xs : List α) (hv : s.Valid h) :
    (refill grow le h s xs).2.read (refill grow le h s xs).1 = xs.insertionSort le := by
  have hv' := clear_valid hv
  rw [refill, sortInPlace_read le (appendAll_valid grow xs _ hv'), appendAll_read grow xs _ hv']
  simp [Slice.read]

theorem refill_next (xs : List α) : h.next ≤ (refill grow le h s xs).1.next := next_le_appendAll grow xs (h, s.clear)

theorem refill_frame (xs : List α) (hv : s.Valid h) (hp : p < h.next) (hout : s.cap = 0 ∨ p ≠ s.ptr) :
    (refill grow le h s xs).1.buf p = h.buf p := by
  have hv' := clear_valid hv
  have hkeep : (appendAll grow (h, s.clear) xs).1.buf p = h.buf p := by
    rcases eq_or_ne p s.ptr with rfl | hne
    · have hbuf := appendAll_buf grow xs h s.clear hv'
      have hcap : s.cap = 0 := hout.resolve_right (absurd rfl)
      simpa [hcap] using hbuf
    · exact appendAll_frame grow xs _ hp hne
  rcases lt_or_ge s.cap xs.length with hov | hfit
  · have hptr : p ≠ (appendAll grow (h, s.clear) xs).2.ptr := by
      have := appendAll_over grow xs h s.clear hv' (by simpa using hov)
      omega
    rw [refill, sortInPlace_frame le hptr, hkeep]
  rcases hout with hcap | hne
  · obtain rfl : xs = [] := length_eq_zero_iff.mp (by omega)
    simp [refill, sortInPlace, Slice.read]
  have hptr : p ≠ (appendAll grow (h, s.clear) xs).2.ptr := by
    rw [appendAll_fit grow xs h s.clear (by simpa using hfit)]
    exact hne
  rw [refill, sortInPlace_frame le hptr, hkeep]

/-- What the buffer of the refilled slice holds afterwards: everything, sorted, if it fitted, and
    otherwise the first elements in the order of the loop. -/
theorem refill_buf (xs : List α) (hv : s.Valid h) : (refill grow le h s xs).1.buf s.ptr =
      splice 0 (if xs.length ≤ s.cap then xs.insertionSort le else xs.take s.cap) (h.buf s.ptr) := by
  have hv' := clear_valid hv
  have hbuf := appendAll_buf grow xs h s.clear hv'
  simp only [Slice.clear, Nat.sub_zero] at hbuf
  split
  · rename_i hfit
    rw [take_of_length_le hfit] at hbuf
    have hhead := appendAll_fit grow xs h s.clear (by simpa using hfit)
    have hread := appendAll_read grow xs (h, s.clear) hv'
    simp only [refill, sortInPlace]
    rw [show (appendAll grow (h, s.clear) xs).2.ptr = s.ptr by rw [hhead]; rfl, hread]
    simp only [Heap.write, update_self, Slice.read, Slice.clear, take_zero, nil_append]
    rw [hbuf]
    simp [splice_zero]
  · rename_i hov
    have hover := appendAll_over grow xs h s.clear hv' (by simpa using hov)
    have hptr : s.ptr ≠ (appendAll grow (h, s.clear) xs).2.ptr := by
      have := hv.ptr_lt
      omega
    rw [refill, sortInPlace_frame le hptr]
    exact hbuf

theorem refill_valid (xs : List α) (hv : s.Valid h) : s.Valid (refill grow le h s xs).1 := by
  have hcap := hv.cap_le
  refine ⟨lt_of_lt_of_le hv.ptr_lt (refill_next grow le xs), hv.len_le, ?_⟩
  rw [refill_buf grow le xs hv, length_splice]
  · exact hcap
  split
  · rw [length_insertionSort]
    omega
  · rw [length_take]
    omega

end Append

end Honey.Schemes
