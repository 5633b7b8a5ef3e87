import Mathlib

/-! Tables with a primary key: lists of rows no two of which share a key. `put` is an upsert and `keep`
    a deletion of the rows that fail a test; a total over the rows moves by the difference between the
    row that was there and the row that is (`total_put`). -/

namespace Honey.Schemes
open List Function

variable {ρ κ : Type*} {key : ρ → κ}

/-- Rows with pairwise distinct keys. -/
structure Table (key : ρ → κ) where
  rows : List ρ
  nodup : (rows.map key).Nodup

namespace Table

variable {t : Table key} {p : ρ → Bool} {old : ρ}

theorem ext {t' : Table key} (h : t.rows = t'.rows) : t = t' := by
  cases t
  cases t'
  simpa using h

def empty : Table key := ⟨[], nodup_nil⟩

instance : Inhabited (Table key) := ⟨empty⟩

/-- The rows that pass. -/
def keep (t : Table key) (p : ρ → Bool) : Table key where
  rows := t.rows.filter p
  nodup := (filter_sublist.map key).nodup t.nodup

@[simp] theorem mem_keep {r : ρ} : r ∈ (t.keep p).rows ↔ r ∈ t.rows ∧ p r = true := by simp [keep]

theorem keep_keep (t : Table key) (p q : ρ → Bool) : (t.keep p).keep q = t.keep fun r => p r && q r :=
  ext (filter_filter.trans (filter_congr fun r _ => Bool.and_comm (q r) (p r)))

/-- The sum of a column. -/
def total (t : Table key) (f : ρ → ℤ) : ℤ := (t.rows.map f).sum

theorem total_keep (t : Table key) (p : ρ → Bool) (f : ρ → ℤ) :
    (t.keep p).total f = t.total fun r => if p r then f r else 0 := by
  simp only [total, keep]
  induction t.rows with
  | nil => rfl
  | cons r l ih =>
    by_cases hp : p r
    · simp [hp, ih]
    · simp [hp, ih]

theorem total_congr {f g : ρ → ℤ} (h : ∀ r ∈ t.rows, f r = g r) : t.total f = t.total g := by
  rw [total, map_congr_left h, total]

theorem total_zero (t : Table key) : (t.total fun _ => 0) = 0 := by simp [total]

theorem total_mono {f g : ρ → ℤ} (h : ∀ r ∈ t.rows, f r ≤ g r) : t.total f ≤ t.total g := sum_le_sum h

theorem total_nonneg {f : ρ → ℤ} (h : ∀ r ∈ t.rows, 0 ≤ f r) : 0 ≤ t.total f := by
  refine sum_nonneg fun x hx => ?_
  obtain ⟨r, hr, rfl⟩ := mem_map.mp hx
  exact h r hr

/-- Change rows in place; none may change its key. -/
def alter (t : Table key) (f : ρ → ρ) (hf : ∀ r, key (f r) = key r) : Table key where
  rows := t.rows.map f
  nodup := by
    have hkeys : (t.rows.map f).map key = t.rows.map key := by
      rw [map_map]
      exact map_congr_left fun r _ => hf r
    rw [hkeys]
    exact t.nodup

variable [DecidableEq κ]

/-- The row under a key. -/
def find? (t : Table key) (k : κ) : Option ρ := t.rows.find? (key · = k)

/-- Insert a row, or replace the one under its key. -/
def put (t : Table key) (r : ρ) : Table key where
  rows := if key r ∈ t.rows.map key then t.rows.map (fun x => if key x = key r then r else x)
    else t.rows ++ [r]
  nodup := by
    split
    · have hkeys : (t.rows.map fun x => if key x = key r then r else x).map key = t.rows.map key := by
        rw [map_map]
        refine map_congr_left fun x _ => ?_
        by_cases hx : key x = key r <;> simp [hx]
      rw [hkeys]
      exact t.nodup
    · rw [map_append]
      exact t.nodup.append (nodup_singleton _) (disjoint_singleton.mpr ‹_›)

variable {t : Table key} {r : ρ} {k : κ}

theorem find?_eq_some : t.find? k = some r ↔ r ∈ t.rows ∧ key r = k := by
  constructor
  · intro h
    exact ⟨mem_of_find?_eq_some h, by simpa using find?_some h⟩
  · rintro ⟨hr, rfl⟩
    rcases h : t.find? (key r) with _ | r'
    · simpa using find?_eq_none.mp h r hr
    · have hr' := mem_of_find?_eq_some h
      have hk : key r' = key r := by simpa using find?_some h
      rw [inj_on_of_nodup_map t.nodup hr' hr hk]

theorem find?_eq_none : t.find? k = none ↔ k ∉ t.rows.map key := by
  simp [find?]

theorem mem_put {x : ρ} : x ∈ (t.put r).rows ↔ x = r ∨ x ∈ t.rows ∧ key x ≠ key r := by
  simp only [put]
  split
  · rename_i hk
    obtain ⟨old, hold, holdk⟩ := mem_map.mp hk
    rw [mem_map]
    constructor
    · rintro ⟨y, hy, rfl⟩
      by_cases hyk : key y = key r
      · simp [hyk]
      · simp [hyk, hy]
    · rintro (rfl | ⟨hx, hxk⟩)
      · exact ⟨old, hold, by simp [holdk]⟩
      · exact ⟨x, hx, by simp [hxk]⟩
  · rename_i hk
    rw [mem_append, mem_singleton, or_comm]
    refine or_congr_right (iff_self_and.mpr fun hx hxk => hk ?_)
    exact mem_map.mpr ⟨x, hx, hxk⟩

theorem forall_put {q : ρ → Prop} (hr : q r) (h : ∀ x ∈ t.rows, q x) : ∀ x ∈ (t.put r).rows, q x := by
  intro x hx
  rcases mem_put.mp hx with rfl | ⟨hx, -⟩
  · exact hr
  · exact h x hx

theorem forall_put_pair {q : ρ → ρ → Prop} (hr : q r r) (hnew : ∀ x ∈ t.rows, key x ≠ key r → q x r ∧ q r x)
    (h : ∀ x ∈ t.rows, ∀ y ∈ t.rows, q x y) : ∀ x ∈ (t.put r).rows, ∀ y ∈ (t.put r).rows, q x y := by
  intro x hx y hy
  rcases mem_put.mp hx with rfl | ⟨hold, hxr⟩ <;> rcases mem_put.mp hy with rfl | ⟨hold', hyr⟩
  · exact hr
  · exact (hnew y hold' hyr).2
  · exact (hnew x hold hxr).1
  · exact h x hold y hold'

theorem rows_put_new (h : t.find? (key r) = none) : (t.put r).rows = t.rows ++ [r] := if_neg (find?_eq_none.mp h)

theorem rows_around (h : t.find? k = some old) : ∃ pre post, t.rows = pre ++ old :: post ∧
    (t.keep (key · ≠ k)).rows = pre ++ post ∧ ∀ r, key r = k → (t.put r).rows = pre ++ r :: post := by
  obtain ⟨hmem, rfl⟩ := find?_eq_some.mp h
  obtain ⟨pre, post, hrows⟩ := append_of_mem hmem
  have hnd := t.nodup
  rw [hrows, map_append, map_cons, nodup_middle, nodup_cons, mem_append] at hnd
  have hpre : ∀ x ∈ pre, key x ≠ key old := fun x hx heq => hnd.1 (.inl (heq ▸ mem_map_of_mem hx))
  have hpost : ∀ x ∈ post, key x ≠ key old := fun x hx heq => hnd.1 (.inr (heq ▸ mem_map_of_mem hx))
  refine ⟨pre, post, hrows, ?_, fun r hr => ?_⟩
  · show t.rows.filter _ = pre ++ post
    rw [hrows, filter_append, filter_cons_of_neg (by simp),
      filter_eq_self.mpr (by simpa using hpre), filter_eq_self.mpr (by simpa using hpost)]
  · have hkey : key r ∈ t.rows.map key := hr ▸ mem_map_of_mem hmem
    have hother : ∀ l : List ρ, (∀ x ∈ l, key x ≠ key old) → (l.map fun x => if key x = key r then r else x) = l := by
      intro l hl
      conv_rhs => rw [← map_id l]
      refine map_congr_left fun x hx => ?_
      rw [if_neg (hr ▸ hl x hx), id]
    have hput : (t.put r).rows = t.rows.map fun x => if key x = key r then r else x := if_pos hkey
    rw [hput, hrows, map_append, map_cons, hother pre hpre, hother post hpost, if_pos hr.symm]

theorem forall_found {p : ρ → Prop} (h : t.find? k = some old) (hp : p old) : ∀ x, t.find? k = some x → p x :=
  fun _ hx => Option.some.inj (h.symm.trans hx) ▸ hp

theorem filter_put (hold : ∀ old, t.find? (key r) = some old → p old = false) (hr : p r = false) :
    (t.put r).rows.filter p = t.rows.filter p := by
  cases hfind : t.find? (key r) with
  | none =>
    rw [rows_put_new hfind]
    simp [hr]
  | some old =>
    obtain ⟨pre, post, hrows, -, hput⟩ := rows_around hfind
    rw [hput r rfl, hrows]
    simp [hold old hfind, hr]

theorem filter_keep_ne (hold : ∀ old, t.find? k = some old → p old = false) :
    (t.keep (key · ≠ k)).rows.filter p = t.rows.filter p := by
  rw [keep, filter_filter]
  refine filter_congr fun x hx => ?_
  by_cases hk : key x = k
  · rw [hold x (find?_eq_some.mpr ⟨hx, hk⟩), Bool.false_and]
  · simp [hk]

theorem rows_put_old (h : t.find? (key r) = some old) :
    (t.put r).rows = t.rows.map fun x => if key x = key r then r else x := by
  obtain ⟨hmem, hkey⟩ := find?_eq_some.mp h
  exact if_pos (mem_map.mpr ⟨old, hmem, hkey⟩)

@[simp] theorem find?_put_self : (t.put r).find? (key r) = some r :=
  find?_eq_some.mpr ⟨mem_put.mpr (Or.inl rfl), rfl⟩

theorem find?_put_of_ne (h : k ≠ key r) : (t.put r).find? k = t.find? k := by
  rcases hf : t.find? k with _ | x
  · rw [find?_eq_none] at hf ⊢
    intro hk
    obtain ⟨y, hy, rfl⟩ := mem_map.mp hk
    rcases mem_put.mp hy with rfl | ⟨hy, -⟩
    · exact h rfl
    · exact hf (mem_map_of_mem hy)
  · rw [find?_eq_some] at hf ⊢
    obtain ⟨hx, rfl⟩ := hf
    exact ⟨mem_put.mpr (Or.inr ⟨hx, h⟩), rfl⟩

theorem find?_put : (t.put r).find? k = if k = key r then some r else t.find? k := by
  split
  · rename_i h
    rw [h, find?_put_self]
  · rename_i h
    rw [find?_put_of_ne h]

theorem find?_alter {f : ρ → ρ} {hf : ∀ r, key (f r) = key r} : (t.alter f hf).find? k = (t.find? k).map f := by
  rw [find?, alter, find?_map]
  congr 2
  funext r
  simp [hf]

theorem find?_alter_at {f : ρ → ρ} {c : κ} {hf : ∀ r, key (if key r = c then f r else r) = key r} :
    (t.alter (fun r => if key r = c then f r else r) hf).find? k = if k = c then (t.find? k).map f else t.find? k := by
  rw [find?_alter]
  cases hfind : t.find? k with
  | none => simp
  | some r =>
    obtain ⟨-, rfl⟩ := find?_eq_some.mp hfind
    split <;> simp [*]

theorem find?_keep : (t.keep p).find? k = (t.find? k).filter p := by
  ext r
  rw [Option.filter_eq_some_iff, find?_eq_some, find?_eq_some, mem_keep]
  tauto

theorem find?_keep_of (h : ∀ r, t.find? k = some r → p r = true) : (t.keep p).find? k = t.find? k := by
  rw [find?_keep]
  cases hf : t.find? k with
  | none => rfl
  | some r => exact if_pos (h r hf)

theorem keep_put (q : κ → Bool) (t : Table key) (r : ρ) : (t.put r).keep (fun x => q (key x)) =
    if q (key r) then (t.keep fun x => q (key x)).put r else t.keep fun x => q (key x) := by
  refine Table.ext ?_
  cases hf : t.find? (key r) with
  | none =>
    have hnew : (t.keep fun x => q (key x)).find? (key r) = none := by rw [find?_keep, hf]; rfl
    split
    · rename_i hq
      rw [rows_put_new hnew]
      simp [keep, rows_put_new hf, hq]
    · rename_i hq
      simp [keep, rows_put_new hf, hq]
  | some old =>
    obtain ⟨-, hold⟩ := find?_eq_some.mp hf
    have hcomm : (t.rows.map fun x => if key x = key r then r else x).filter (fun x => q (key x)) =
        (t.rows.filter fun x => q (key x)).map fun x => if key x = key r then r else x := by
      rw [filter_map]
      congr 1
      refine filter_congr fun x _ => ?_
      by_cases hx : key x = key r <;> simp [hx]
    split
    · rename_i hq
      have hkept : (t.keep fun x => q (key x)).find? (key r) = some old := by
        rw [find?_keep, hf, Option.filter_some, hold, if_pos hq]
      rw [rows_put_old hkept]
      simp [keep, rows_put_old hf, hcomm]
    rename_i hq
    simp only [keep, rows_put_old hf, hcomm]
    conv_rhs => rw [← map_id (filter _ _)]
    refine map_congr_left fun x hx => ?_
    have hxq := (mem_filter.mp hx).2
    have hne : key x ≠ key r := by
      intro h
      exact hq (h ▸ hxq)
    rw [if_neg hne, id]

theorem find?_keep_ne {k' : κ} : (t.keep (key · ≠ k)).find? k' = if k' = k then none else t.find? k' := by
  rw [find?_keep]
  cases hf : t.find? k' with
  | none => simp
  | some x =>
    obtain ⟨-, rfl⟩ := find?_eq_some.mp hf
    by_cases h : key x = k <;> simp [h]

theorem keep_ne_of_find?_none (h : t.find? k = none) : t.keep (key · ≠ k) = t := by
  have hrows : t.rows.filter (key · ≠ k) = t.rows := by
    refine filter_eq_self.mpr fun r hr => ?_
    simpa using fun hk => find?_eq_none.mp h (mem_map.mpr ⟨r, hr, hk⟩)
  exact ext hrows

theorem nodup_map_put {β : Type*} {g : ρ → β} (hnd : (t.rows.map g).Nodup)
    (h : ∀ x ∈ t.rows, key x ≠ key r → g x ≠ g r) : ((t.put r).rows.map g).Nodup := by
  simp only [put]
  split
  · rw [map_map]
    refine (nodup_map_iff_inj_on t.nodup.of_map).mpr fun x hx y hy hxy => ?_
    by_cases hxk : key x = key r
    · by_cases hyk : key y = key r
      · exact inj_on_of_nodup_map t.nodup hx hy (hxk.trans hyk.symm)
      · simp only [comp_apply, if_pos hxk, if_neg hyk] at hxy
        exact absurd hxy.symm (h y hy hyk)
    · by_cases hyk : key y = key r
      · simp only [comp_apply, if_neg hxk, if_pos hyk] at hxy
        exact absurd hxy (h x hx hxk)
      · simp only [comp_apply, if_neg hxk, if_neg hyk] at hxy
        exact inj_on_of_nodup_map hnd hx hy hxy
  · rename_i hnew
    rw [map_append]
    refine hnd.append (nodup_singleton _) (disjoint_singleton.mpr fun hmem => ?_)
    obtain ⟨x, hx, hxg⟩ := mem_map.mp hmem
    exact h x hx (fun hk => hnew (hk ▸ mem_map_of_mem hx)) hxg

theorem map_put_same {β : Type*} {g : ρ → β} (h : t.find? (key r) = some old) (hg : g r = g old) :
    (t.put r).rows.map g = t.rows.map g := by
  obtain ⟨hold, holdk⟩ := find?_eq_some.mp h
  rw [rows_put_old h, map_map]
  refine map_congr_left fun x hx => ?_
  by_cases hxk : key x = key r
  · rw [comp_apply, if_pos hxk, hg, inj_on_of_nodup_map t.nodup hx hold (hxk.trans holdk.symm)]
  · rw [comp_apply, if_neg hxk]

theorem rows_perm_cons (h : t.find? k = some r) : t.rows.Perm (r :: (t.keep (key · ≠ k)).rows) := by
  obtain ⟨hr, rfl⟩ := find?_eq_some.mp h
  have hnd : (r :: (t.keep (key · ≠ key r)).rows).Nodup := by
    refine nodup_cons.mpr ⟨fun hmem => ?_, ((t.keep _).nodup).of_map⟩
    simpa using (mem_keep.mp hmem).2
  refine (perm_ext_iff_of_nodup t.nodup.of_map hnd).mpr fun x => ?_
  rw [mem_cons, mem_keep]
  constructor
  · intro hx
    by_cases hk : key x = key r
    · exact .inl (inj_on_of_nodup_map t.nodup hx hr hk)
    · exact .inr ⟨hx, by simpa using hk⟩
  · rintro (rfl | ⟨hx, -⟩)
    · exact hr
    · exact hx

/-- Take the row under a key away and put another one at the end. -/
def replace (t : Table key) (r : ρ) : Table key := (t.keep (key · ≠ key r)).put r

theorem rows_replace (t : Table key) (r : ρ) : (t.replace r).rows = t.rows.filter (key · ≠ key r) ++ [r] := by
  rw [replace, rows_put_new (by rw [find?_keep_ne, if_pos rfl]), keep]

/-- After a row for every key of a list, the table has these rows at its end and no other row under their keys. -/
theorem rows_foldl_replace : ∀ (l : List ρ) (t : Table key), (l.map key).Nodup →
    (l.foldl replace t).rows = t.rows.filter (key · ∉ l.map key) ++ l
  | [], t, _ => by simp
  | r :: l, t, h => by
    rw [map_cons, nodup_cons] at h
    rw [foldl_cons, rows_foldl_replace l _ h.2, rows_replace, filter_append,
      filter_filter, filter_cons_of_pos (by simpa using h.1), filter_nil,
      append_assoc, singleton_append]
    simp [Bool.and_comm]

theorem sum_replace (f : ρ → ℤ) : ∀ l : List ρ, (l.map key).Nodup → old ∈ l → key old = key r →
    ((l.map fun x => if key x = key r then r else x).map f).sum + f old = (l.map f).sum + f r
  | y :: l, hnd, hmem, hk => by
    rw [map_cons, nodup_cons] at hnd
    simp only [map_cons, sum_cons]
    by_cases hy : key y = key r
    · -- the row to replace comes first, and the rest has another key each
      have hrest : (l.map fun x => if key x = key r then r else x) = l := by
        conv_rhs => rw [← map_id l]
        refine map_congr_left fun x hx => ?_
        have hxk : key x ≠ key r := fun h => hnd.1 (hy.trans h.symm ▸ mem_map_of_mem hx)
        rw [if_neg hxk, id]
      have hold : old = y := by
        rcases mem_cons.mp hmem with rfl | hold
        · rfl
        · exact absurd (hy.trans hk.symm ▸ mem_map_of_mem hold) hnd.1
      rw [if_pos hy, hrest, hold]
      ring
    · have hold : old ∈ l := by
        rcases mem_cons.mp hmem with rfl | hold
        · exact absurd hk hy
        · exact hold
      rw [if_neg hy]
      linarith [sum_replace f l hnd.2 hold hk]

/-- An upsert moves a total from the old row's value to the new one's. -/
theorem total_put (t : Table key) (r : ρ) (f : ρ → ℤ) :
    (t.put r).total f + ((t.find? (key r)).map f).getD 0 = t.total f + f r := by
  rcases hf : t.find? (key r) with _ | old
  · have hk := find?_eq_none.mp hf
    simp [total, put, hk]
  obtain ⟨hold, holdk⟩ := find?_eq_some.mp hf
  have hk : key r ∈ t.rows.map key := mem_map.mpr ⟨old, hold, holdk⟩
  simp only [put, if_pos hk]
  exact sum_replace f t.rows t.nodup hold holdk

theorem total_entry {entry : Option ρ} {f : ρ → ℤ} {d : ℤ} (hnone : entry = none → d = 0)
    (hsome : ∀ r, entry = some r → key r = k ∧ f r = (t.find? k).elim 0 f + d) (p : κ → Bool) :
    (entry.elim t t.put).total (fun r => if p (key r) then f r else 0) =
      t.total (fun r => if p (key r) then f r else 0) + if p k then d else 0 := by
  rcases entry with _ | r
  · simp [hnone rfl]
  obtain ⟨rfl, hr⟩ := hsome r rfl
  have htotal := t.total_put r fun x => if p (key x) then f x else 0
  change (t.put r).total _ = _
  cases hfind : t.find? (key r) with
  | none =>
    rw [hfind] at htotal hr
    simp only [Option.map_none, Option.getD_none, add_zero] at htotal
    simp only [Option.elim_none, zero_add] at hr
    rw [htotal, hr]
  | some old =>
    obtain ⟨-, hold⟩ := find?_eq_some.mp hfind
    rw [hfind] at htotal hr
    simp only [Option.map_some, Option.getD_some, hold] at htotal
    simp only [Option.elim_some] at hr
    by_cases hp : p (key r) = true
    · rw [if_pos hp, if_pos hp] at htotal
      rw [if_pos hp]
      linarith
    · rw [if_neg hp, if_neg hp] at htotal
      rw [if_neg hp]
      linarith

end Table

theorem sum_groups {α κ : Type*} [DecidableEq κ] {ks : List κ} (hnodup : ks.Nodup) (key : α → κ) (f : α → ℤ) :
    ∀ rows : List α, (∀ x ∈ rows, key x ∈ ks) →
      (ks.map fun k => ((rows.filter (key · = k)).map f).sum).sum = (rows.map f).sum
  | [], _ => by simp
  | x :: rows, h => by
    have hsplit : ∀ k, (((x :: rows).filter (key · = k)).map f).sum =
        (if key x = k then f x else 0) + ((rows.filter (key · = k)).map f).sum := by
      intro k
      by_cases hk : key x = k <;> simp [hk]
    have hone : (ks.map fun k => if key x = k then f x else 0).sum = f x := by
      rw [← sum_toFinset _ hnodup, Finset.sum_ite_eq, if_pos]
      exact mem_toFinset.mpr (h x mem_cons_self)
    simp only [hsplit, sum_map_add, map_cons, sum_cons, hone]
    rw [sum_groups hnodup key f rows fun y hy => h y (mem_cons_of_mem x hy)]

end Honey.Schemes
