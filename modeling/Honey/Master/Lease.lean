import Honey.Master.Db
import Honey.Schemes.Run

/-! The leader election of the masters (`ha.rs`): one lease row in the database, and in every instance a
    flag that changes only when the reply to a lease statement arrives.

        instance    tick --> sent ----------> replied --> flag := held
        database              | execute: upsert, now()
                              v
                     lease (holder, expires_at)

    The statement is atomic, so the row has one holder. The flag is another matter: nothing takes it down
    when the lease expires, so it follows the row (`one_leader`) in the runs in which an expired lease is
    taken over only after its holder has stepped down (`StepsDown`). -/

namespace Honey.Master
open Honey.Schemes Function

/-- `ha_leader`. Times are microseconds of the database's clock. -/
structure Lease where
  holder : Uuid
  (acquiredAt renewedAt expiresAt : ℤ)
  deriving DecidableEq, Repr

/-- `ha_try_acquire`: the row after the upsert, and whether it returned the holder. -/
def haTryAcquire (row : Option Lease) (holder : Uuid) (ttlSecs now : ℤ) : Option Lease × Bool :=
  match row with
  | none => (some ⟨holder, now, now, now + ttlSecs * 1000000⟩, true)
  | some r =>
    if r.holder = holder ∨ r.expiresAt < now then
      (some ⟨holder, if r.holder = holder then r.acquiredAt else now, now, now + ttlSecs * 1000000⟩, true)
    else (some r, false)

/-- Where the election loop of an instance is: between two statements, waiting for one to execute, or
    waiting for its reply. -/
inductive Phase where
  | idle
  | sent
  | replied (held : Bool)
  deriving DecidableEq, Repr

/-- The database and the instances. `adrift` lists statements that their instance has given up and the
    database may still execute. -/
structure Election where
  now : ℤ
  row : Option Lease
  phase : Uuid → Phase
  isLeader : Uuid → Bool
  adrift : List Uuid

/-- Instances that have just booted, with whatever row is there. -/
def Election.start (now : ℤ) (row : Option Lease) : Election :=
  ⟨now, row, fun _ => .idle, fun _ => false, []⟩

inductive HaEv where
  | wait (micros : ℕ)
  | tick (i : Uuid)
  | execute (i : Uuid)
  | reply (i : Uuid)
  | error (i : Uuid)
  | late (i : Uuid)

/-- `ttl.as_secs().max(3)`. -/
def ttlSecs (ttl : ℕ) : ℤ := max ttl 3

/-- One event, with the lease time every instance is configured with. -/
def Election.step (ttl : Uuid → ℕ) (s : Election) : HaEv → Election
  | .wait micros => { s with now := s.now + micros }
  | .tick i =>
    if s.phase i = .idle then { s with phase := update s.phase i .sent } else s
  | .execute i =>
    if s.phase i = .sent then
      let (row, held) := haTryAcquire s.row i (ttlSecs (ttl i)) s.now
      { s with row := row, phase := update s.phase i (.replied held) }
    else s
  | .reply i => match s.phase i with
    | .replied held =>
      { s with
        phase := update s.phase i .idle
        isLeader := update s.isLeader i held }
    | _ => s
  | .error i => match s.phase i with
    | .idle => s
    | .sent =>
      { s with
        phase := update s.phase i .idle
        isLeader := update s.isLeader i false
        adrift := i :: s.adrift }
    | .replied _ =>
      { s with
        phase := update s.phase i .idle
        isLeader := update s.isLeader i false }
  | .late i =>
    if i ∈ s.adrift then
      { s with
        row := (haTryAcquire s.row i (ttlSecs (ttl i)) s.now).1
        adrift := s.adrift.erase i }
    else s

/-- At most one instance takes itself for the leader. -/
def Election.Exclusive (s : Election) : Prop :=
  ∀ i j, s.isLeader i = true → s.isLeader j = true → i = j

/-- The instance has the flag up, or a grant on its way that will put it up. -/
def Election.Acts (s : Election) (i : Uuid) : Prop :=
  s.isLeader i = true ∨ s.phase i = .replied true

/-- A statement that takes an expired lease from another instance executes after that instance has stepped down. -/
def StepsDown (s : Election) : HaEv → Prop
  | .execute i | .late i =>
    ∀ r, s.row = some r → r.holder ≠ i → r.expiresAt < s.now → ¬ s.Acts r.holder
  | _ => True

/-! ### The flag follows the row -/

/-- Whoever acts holds the lease. -/
def Election.Held (s : Election) : Prop := ∀ i, s.Acts i → s.row.map (·.holder) = some i

variable {s : Election} {i : Uuid}

theorem exclusive_of_held (h : s.Held) : s.Exclusive := by
  intro i j hi hj
  have hij := (h i (Or.inl hi)).symm.trans (h j (Or.inl hj))
  exact Option.some.inj hij

theorem held_start (now : ℤ) (row : Option Lease) : (Election.start now row).Held := by
  rintro i (h | h) <;> cases h

/-- What an upsert does: it grants a lease that is free, the instance's own or expired, and leaves any other alone. -/
theorem haTryAcquire_cases (row : Option Lease) (holder : Uuid) (ttlSecs now : ℤ) :
    ((haTryAcquire row holder ttlSecs now).2 = true ∧
        (haTryAcquire row holder ttlSecs now).1.map (·.holder) = some holder ∧
        ∀ r, row = some r → r.holder = holder ∨ r.expiresAt < now) ∨
      haTryAcquire row holder ttlSecs now = (row, false) := by
  rcases row with _ | r
  · exact Or.inl ⟨rfl, rfl, fun r hr => by cases hr⟩
  rw [haTryAcquire]
  by_cases hfree : r.holder = holder ∨ r.expiresAt < now
  · refine Or.inl ?_
    simp only [if_pos hfree]
    exact ⟨trivial, rfl, fun r' hr' => Option.some.inj hr' ▸ hfree⟩
  · refine Or.inr ?_
    simp only [if_neg hfree]

/-- After a statement of `i`, executed in time or late, the row is still with whoever acts; and with `i`
    if it was granted. -/
theorem held_upsert (ttlSecs : ℤ) (h : s.Held) (hd : StepsDown s (.execute i)) :
    (∀ j, s.Acts j → (haTryAcquire s.row i ttlSecs s.now).1.map (·.holder) = some j) ∧
      ((haTryAcquire s.row i ttlSecs s.now).2 = true →
        (haTryAcquire s.row i ttlSecs s.now).1.map (·.holder) = some i) := by
  rcases haTryAcquire_cases s.row i ttlSecs s.now with ⟨-, hrow, hfree⟩ | hkept
  · refine ⟨fun j hj => ?_, fun _ => hrow⟩
    obtain ⟨r, hr, rfl⟩ := Option.map_eq_some_iff.mp (h j hj)
    rcases hfree r hr with hown | hexpired
    · rw [hrow, hown]
    · by_cases hown : r.holder = i
      · rw [hrow, hown]
      · exact absurd hj (hd r hr hown hexpired)
  · rw [hkept]
    exact ⟨h, fun hc => by cases hc⟩

theorem acts_update {phase : Phase} {flag : Bool} {j : Uuid} {s' : Election} (hj : s'.Acts j)
    (hphase : s'.phase = update s.phase i phase) (hflag : s'.isLeader = update s.isLeader i flag) :
    (j = i ∧ (flag = true ∨ phase = .replied true)) ∨ (j ≠ i ∧ s.Acts j) := by
  rw [Election.Acts, hphase, hflag] at hj
  rcases eq_or_ne j i with rfl | hne
  · rw [update_self, update_self] at hj
    exact Or.inl ⟨rfl, hj⟩
  · rw [update_of_ne hne, update_of_ne hne] at hj
    exact Or.inr ⟨hne, hj⟩

theorem held_step (ttl : Uuid → ℕ) (s : Election) (e : HaEv) (h : s.Held) (hd : StepsDown s e) :
    (s.step ttl e).Held := by
  cases e with
  | wait micros => exact h
  | tick i =>
    rw [Election.step]
    split
    · intro j hj
      rcases acts_update hj rfl (update_eq_self i s.isLeader).symm with
        ⟨rfl, hflag | hphase⟩ | ⟨-, hj⟩
      · exact h j (Or.inl hflag)
      · cases hphase
      · exact h j hj
    · exact h
  | execute i =>
    rw [Election.step]
    split
    · obtain ⟨hothers, hown⟩ := held_upsert (ttlSecs (ttl i)) h hd
      intro j hj
      rcases acts_update hj rfl (update_eq_self i s.isLeader).symm with
        ⟨rfl, hflag | hphase⟩ | ⟨-, hj⟩
      · exact hothers j (Or.inl hflag)
      · exact hown (Phase.replied.inj hphase)
      · exact hothers j hj
    · exact h
  | reply i =>
    rw [Election.step]
    split
    · rename_i held hphase
      intro j hj
      rcases acts_update hj rfl rfl with ⟨rfl, hflag | hidle⟩ | ⟨-, hj⟩
      · exact h j (Or.inr (by rw [hphase, hflag]))
      · cases hidle
      · exact h j hj
    · exact h
  | error i =>
    rw [Election.step]
    split
    · exact h
    all_goals
      intro j hj
      rcases acts_update hj rfl rfl with ⟨-, hflag | hidle⟩ | ⟨-, hj⟩
      · cases hflag
      · cases hidle
      · exact h j hj
  | late i =>
    rw [Election.step]
    split
    · exact (held_upsert (ttlSecs (ttl i)) h hd).1
    · exact h

/-- In every run whose takeovers wait for the old holder to step down, at most one instance at a time
    takes itself for the leader, whatever the delays and errors. -/
theorem one_leader (ttl : Uuid → ℕ) (now : ℤ) (row : Option Lease) (es : List HaEv)
    (h : Always (Election.step ttl) StepsDown (Election.start now row) es) :
    ∀ pre, pre <+: es → (pre.foldl (Election.step ttl) (Election.start now row)).Exclusive := by
  rintro pre ⟨suf, rfl⟩
  rw [always_append] at h
  exact exclusive_of_held (inv_run (held_step ttl) pre _ (held_start now row) h.1)

/-- Instance 1 leads, its renewal fails, and instance 2 takes the lease over when it has expired. -/
def failover : List HaEv :=
  [.tick 1, .execute 1, .reply 1, .wait 5000000, .tick 1, .error 1, .wait 11000000, .tick 2, .execute 2, .reply 2]

theorem failover_one_leader : (failover.foldl (Election.step fun _ => 15) (Election.start 0 none)).isLeader 2 = true ∧
      (failover.foldl (Election.step fun _ => 15) (Election.start 0 none)).Exclusive := by
  refine ⟨by decide, one_leader (fun _ => 15) 0 none failover ?_ failover (List.prefix_refl _)⟩
  refine ⟨trivial, fun _ hr => (by cases hr), trivial, trivial, trivial, trivial, trivial,
    trivial, ?_, trivial, trivial⟩
  rintro r hr - - (hflag | hphase)
  · cases hr
    revert hflag
    decide
  · cases hr
    revert hphase
    decide

/-- The renewal of instance 1 hangs on its way to the database: instance 2 takes the expired lease, and both act. -/
theorem hanging_renewal_two_leaders :
    let s := [HaEv.tick 1, .execute 1, .reply 1, .wait 5000000, .tick 1, .wait 11000000, .tick 2,
      .execute 2, .reply 2].foldl (Election.step fun _ => 15) (Election.start 0 none)
    s.isLeader 1 = true ∧ s.isLeader 2 = true ∧ ¬ s.Exclusive := by
  refine ⟨by decide, by decide, fun h => ?_⟩
  exact absurd (h 1 2 (by decide) (by decide)) (by decide)

end Honey.Master
