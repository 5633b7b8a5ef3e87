import Honey.Schemes.Run
import Honey.Schemes.Table

/-! Transactions on one store that take their locks statement by statement and hold them until they end.

        start -- statement --> t -- statement --> t' -- … --> commit: the store changes, the locks are free
                     |
                     +-- its lock is held by another: it waits

    A statement reads what is committed. What a transaction computed from rows that it holds is good still, as nobody
    else commits a change of them meanwhile: `Sound` is what has to be shown of the statements, and `consistent_run` is
    what follows for every interleaving. -/

namespace Honey.Schemes
open Table

/-- What a statement does: the transaction goes on, or ends with a new store or without. -/
inductive Move (σ τ : Type) where
  | go (t : τ)
  | commit (s : σ)
  | abort

/-- Transactions of the kinds `κ`: the locks that one holds, the lock that its next statement needs, and what the
    statement does. It takes no other lock. -/
structure Locking (σ κ τ ρ : Type) where
  start : κ → τ
  locks : τ → List ρ
  wants : σ → τ → Option ρ
  next : σ → τ → Move σ τ
  starts : ∀ k, locks (start k) = []
  takes : ∀ {s t t'}, next s t = .go t' → ∀ r ∈ locks t', r ∈ locks t ∨ wants s t = some r

/-- The store as it is committed, and the transactions that are running. -/
structure LockServer (σ τ : Type) where
  store : σ
  running : Table (Prod.fst : ℕ × τ → ℕ)

inductive LockEvent (κ : Type) where
  | begin (p : ℕ) (k : κ)
  | next (p : ℕ)
  | abort (p : ℕ)

namespace Locking

variable {σ κ τ ρ : Type} [DecidableEq ρ] (L : Locking σ κ τ ρ)

/-- The next statement needs a lock that another transaction holds. -/
def blocked (s : LockServer σ τ) (p : ℕ) (t : τ) : Bool :=
  (L.wants s.store t).any fun r => s.running.rows.any fun x => x.1 ≠ p ∧ r ∈ L.locks x.2

def step (s : LockServer σ τ) : LockEvent κ → LockServer σ τ
  | .begin p k => match s.running.find? p with
    | some _ => s
    | none => { s with running := s.running.put (p, L.start k) }
  | .next p => match s.running.find? p with
    | none => s
    | some x =>
      if L.blocked s p x.2 then s
      else match L.next s.store x.2 with
        | .go t => { s with running := s.running.put (p, t) }
        | .commit store => ⟨store, s.running.keep (·.1 ≠ p)⟩
        | .abort => { s with running := s.running.keep (·.1 ≠ p) }
  | .abort p => { s with running := s.running.keep (·.1 ≠ p) }

/-- Nothing is running. -/
def idle (store : σ) : LockServer σ τ := ⟨store, empty⟩

/-- The transaction that a step commits, and the store after it. -/
def committing (s : LockServer σ τ) : LockEvent κ → Option (τ × σ)
  | .next p => match s.running.find? p with
    | none => none
    | some x =>
      if L.blocked s p x.2 then none
      else match L.next s.store x.2 with
        | .commit store => some (x.2, store)
        | _ => none
  | _ => none

/-! ### What a step can do -/

/-- The ways a step can end. -/
inductive Stepped (s : LockServer σ τ) : LockEvent κ → LockServer σ τ → Prop where
  | stay (e : LockEvent κ) : Stepped s e s
  | begin (p : ℕ) (k : κ) : s.running.find? p = none →
      Stepped s (.begin p k) { s with running := s.running.put (p, L.start k) }
  | drop (e : LockEvent κ) (p : ℕ) : Stepped s e { s with running := s.running.keep (·.1 ≠ p) }
  | go (p : ℕ) (t t' : τ) : (p, t) ∈ s.running.rows → L.blocked s p t = false → L.next s.store t = .go t' →
      Stepped s (.next p) { s with running := s.running.put (p, t') }
  | commit (p : ℕ) (t : τ) (store : σ) : (p, t) ∈ s.running.rows → L.next s.store t = .commit store →
      L.committing s (.next p) = some (t, store) → Stepped s (.next p) ⟨store, s.running.keep (·.1 ≠ p)⟩

theorem stepped (s : LockServer σ τ) (e : LockEvent κ) : L.Stepped s e (L.step s e) := by
  cases e with
  | begin p k =>
    rw [step]
    split
    · exact .stay _
    · rename_i hnone
      exact .begin p k hnone
  | abort p => exact .drop _ p
  | next p =>
    rw [step]
    split
    · exact .stay _
    rename_i x hfind
    obtain ⟨hmem, rfl⟩ := find?_eq_some.mp hfind
    split
    · exact .stay _
    rename_i hfree
    split
    · rename_i t hgo
      exact .go x.1 x.2 t hmem (Bool.eq_false_iff.mpr hfree) hgo
    · rename_i store hcommit
      refine .commit x.1 x.2 store hmem hcommit ?_
      simp only [committing, hfind, if_neg hfree, hcommit]
    · exact .drop _ x.1

variable {L} {s : LockServer σ τ} {e : LockEvent κ}

theorem committing_eq_some {t : τ} {store : σ} (h : L.committing s e = some (t, store)) :
    (∃ p, (p, t) ∈ s.running.rows) ∧ L.next s.store t = .commit store ∧ (L.step s e).store = store := by
  cases e with
  | next p =>
    rw [committing] at h
    rw [step]
    split at h
    · cases h
    rename_i x hfind
    split at h
    · cases h
    rename_i hfree
    split at h
    · rename_i hcommit
      obtain ⟨rfl, rfl⟩ := Prod.mk.inj (Option.some.inj h)
      refine ⟨⟨x.1, (find?_eq_some.mp hfind).1⟩, hcommit, ?_⟩
      simp only [if_neg hfree, hcommit]
    · cases h
  | begin p k => cases h
  | abort p => cases h

theorem store_of_none (h : L.committing s e = none) : (L.step s e).store = s.store := by
  have hstep := L.stepped s e
  generalize L.step s e = s' at hstep
  cases hstep with
  | commit p t store hmem hnext hcommitting => cases hcommitting.symm.trans h
  | _ => rfl

/-! ### Locks are exclusive -/

/-- No two transactions hold the same lock. -/
def Exclusive (L : Locking σ κ τ ρ) (s : LockServer σ τ) : Prop :=
  ∀ x ∈ s.running.rows, ∀ y ∈ s.running.rows, x.1 ≠ y.1 → ∀ r ∈ L.locks x.2, r ∉ L.locks y.2

omit [DecidableEq ρ] in
theorem Exclusive.put (h : L.Exclusive s) {p : ℕ} {t : τ}
    (ht : ∀ y ∈ s.running.rows, y.1 ≠ p → ∀ r ∈ L.locks t, r ∉ L.locks y.2) :
    L.Exclusive { s with running := s.running.put (p, t) } :=
  forall_put_pair (fun hne => absurd rfl hne)
    (fun x hx hxp => ⟨fun _ r hr hr' => ht x hx hxp r hr' hr, fun _ => ht x hx hxp⟩) h

omit [DecidableEq ρ] in
theorem Exclusive.keep (h : L.Exclusive s) (store : σ) (p : ℕ) : L.Exclusive ⟨store, s.running.keep (·.1 ≠ p)⟩ :=
  fun x hx y hy => h x (mem_keep.mp hx).1 y (mem_keep.mp hy).1

theorem exclusive_step (h : L.Exclusive s) (e : LockEvent κ) : L.Exclusive (L.step s e) := by
  have hstep := L.stepped s e
  generalize L.step s e = s' at hstep
  cases hstep with
  | stay => exact h
  | begin p k hnone =>
    refine h.put fun y _ _ r hr => ?_
    rw [L.starts k] at hr
    cases hr
  | drop _ p => exact h.keep s.store p
  | go p t t' hmem hfree hgo =>
    refine h.put fun y hy hne r hr hr' => ?_
    rcases L.takes hgo r hr with hheld | hwants
    · exact h (p, t) hmem y hy (Ne.symm hne) r hheld hr'
    · -- the lock was free when it was taken
      rw [blocked, hwants, Option.any_some, List.any_eq_false] at hfree
      exact hfree y hy (decide_eq_true ⟨hne, hr'⟩)
  | commit p t store hmem hnext hcommitting => exact h.keep store p

/-! ### What transactions rely on -/

/-- `Fits s t`: what the transaction has computed so far agrees with the store. It holds at the start, the statements
    keep it, and so does every commit of a transaction that holds none of its locks. -/
structure Sound (L : Locking σ κ τ ρ) (Fits : σ → τ → Prop) : Prop where
  start : ∀ s k, Fits s (L.start k)
  go : ∀ {s t t'}, Fits s t → L.next s t = .go t' → Fits s t'
  commit : ∀ {s s' t u}, Fits s t → L.next s t = .commit s' → Fits s u → (∀ r ∈ L.locks t, r ∉ L.locks u) → Fits s' u

structure Consistent (L : Locking σ κ τ ρ) (Fits : σ → τ → Prop) (s : LockServer σ τ) : Prop where
  exclusive : L.Exclusive s
  fits : ∀ x ∈ s.running.rows, Fits s.store x.2

variable {Fits : σ → τ → Prop}

omit [DecidableEq ρ] in
theorem consistent_idle (store : σ) : L.Consistent Fits (idle store) where
  exclusive _ h := by cases h
  fits _ h := by cases h

theorem consistent_step (hsound : L.Sound Fits) (s : LockServer σ τ) (e : LockEvent κ) (h : L.Consistent Fits s) :
    L.Consistent Fits (L.step s e) := by
  refine ⟨exclusive_step h.exclusive e, ?_⟩
  have hput : ∀ p t, Fits s.store t → ∀ x ∈ (s.running.put (p, t)).rows, Fits s.store x.2 :=
    fun _ _ ht => forall_put ht h.fits
  have hstep := L.stepped s e
  generalize L.step s e = s' at hstep
  cases hstep with
  | stay => exact h.fits
  | begin p k hnone => exact hput p _ (hsound.start s.store k)
  | drop _ p => exact fun x hx => h.fits x (mem_keep.mp hx).1
  | go p t t' hmem hfree hgo => exact hput p t' (hsound.go (h.fits (p, t) hmem) hgo)
  | commit p t store hmem hnext hcommitting =>
    intro x hx
    obtain ⟨hx, hxp⟩ := mem_keep.mp hx
    have hne : p ≠ x.1 := fun heq => of_decide_eq_true hxp heq.symm
    exact hsound.commit (h.fits (p, t) hmem) hnext (h.fits x hx) (h.exclusive (p, t) hmem x hx hne)

theorem consistent_run (hsound : L.Sound Fits) (store : σ) (es : List (LockEvent κ)) :
    L.Consistent Fits (es.foldl L.step (idle store)) :=
  inv_foldl (consistent_step hsound) es _ (consistent_idle store)

/-- Every commit of every interleaving is one of a transaction that agrees with the store. -/
theorem commits_fit (hsound : L.Sound Fits) (store : σ) (es : List (LockEvent κ)) :
    Always L.step (fun s e => ∀ t s', L.committing s e = some (t, s') → Fits s.store t ∧ L.next s.store t = .commit s')
      (idle store) es := by
  rw [always_iff_prefixes]
  intro pre e suf _ t s' hcommit
  obtain ⟨⟨p, hmem⟩, hnext, -⟩ := committing_eq_some hcommit
  exact ⟨(consistent_run hsound store pre).fits (p, t) hmem, hnext⟩

theorem store_run (hsound : L.Sound Fits) {Inv : σ → Prop}
    (hcommit : ∀ {s t s'}, Inv s → Fits s t → L.next s t = .commit s' → Inv s') {store : σ} (hstart : Inv store)
    (es : List (LockEvent κ)) : Inv (es.foldl L.step (idle store)).store := by
  have hboth : L.Consistent Fits (es.foldl L.step (idle store)) ∧ Inv (es.foldl L.step (idle store)).store := by
    refine @inv_foldl _ _ L.step (fun s => L.Consistent Fits s ∧ Inv s.store) (fun s e h => ?_) es _
      ⟨consistent_idle store, hstart⟩
    refine ⟨consistent_step hsound s e h.1, ?_⟩
    cases hcase : L.committing s e with
    | none => exact store_of_none hcase ▸ h.2
    | some x =>
      obtain ⟨⟨p, hmem⟩, hnext, hstore⟩ := committing_eq_some hcase
      exact hstore ▸ hcommit h.2 (h.1.fits (p, x.1) hmem) hnext
  exact hboth.2

/-- The transactions that a run commits, in the order of their commits. -/
def commits (L : Locking σ κ τ ρ) : LockServer σ τ → List (LockEvent κ) → List τ
  | _, [] => []
  | s, e :: es => ((L.committing s e).map Prod.fst).toList ++ commits L (L.step s e) es

/-- What a run leaves is what its commits leave one after another. -/
theorem store_serial (hsound : L.Sound Fits) {δ : Type} {view : σ → δ} {apply : δ → τ → δ}
    (happly : ∀ s t s', Fits s t → L.next s t = .commit s' → view s' = apply (view s) t) :
    ∀ (es : List (LockEvent κ)) {s : LockServer σ τ}, L.Consistent Fits s →
      view (es.foldl L.step s).store = (L.commits s es).foldl apply (view s.store)
  | [], _, _ => rfl
  | e :: es, s, h => by
    rw [List.foldl_cons, store_serial hsound happly es (consistent_step hsound s e h), commits, List.foldl_append]
    cases hcase : L.committing s e with
    | none =>
      rw [store_of_none hcase]
      rfl
    | some x =>
      obtain ⟨⟨p, hmem⟩, hnext, hstore⟩ := committing_eq_some hcase
      rw [hstore, happly _ _ _ (h.fits _ hmem) hnext]
      rfl

/-! ### Deadlocks -/

/-- `p` waits for a lock that `q` holds. -/
def WaitsFor (L : Locking σ κ τ ρ) (s : LockServer σ τ) (p q : ℕ) : Prop :=
  p ≠ q ∧ ∃ t u r, (p, t) ∈ s.running.rows ∧ (q, u) ∈ s.running.rows ∧ L.wants s.store t = some r ∧ r ∈ L.locks u

/-- A cycle of transactions that wait for each other. -/
def Deadlocked (L : Locking σ κ τ ρ) (s : LockServer σ τ) : Prop := ∃ p, Relation.TransGen (L.WaitsFor s) p p

omit [DecidableEq ρ] in
/-- Where nobody waits for one who waits there is no cycle. -/
theorem not_deadlocked (h : ∀ p q r, L.WaitsFor s p q → ¬ L.WaitsFor s q r) : ¬ L.Deadlocked s := by
  rintro ⟨p, hcycle⟩
  obtain ⟨q, hfirst, -⟩ := Relation.TransGen.head'_iff.mp hcycle
  obtain ⟨r, -, hlast⟩ := Relation.TransGen.tail'_iff.mp hcycle
  exact h r p q hlast hfirst

end Locking

end Honey.Schemes
