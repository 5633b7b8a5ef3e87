import Honey.Master.Push
import Honey.Schemes.Locks

/-! `record_traffic` and `reset_user_traffic` as transactions that run at the same time, statement by statement and
    row lock by row lock (read committed).

        record   users row --> traffic row --> upsert --> hourly row --> users row := sum --> commit
        reset    traffic row --> … --> traffic row --> users row := 0 --> commit

    A recording holds the row of its user from its first statement on, so what it has read and computed holds of the
    committed rows still (`Fits`), and its commit is a call of `record_traffic` in one piece (`commit_record`). The two
    take their locks in opposite orders: a recording and a reset of one user may wait for each other (`crossed_locks`),
    and nothing else can (`no_deadlock`). -/

namespace Honey.Master
open Honey.Schemes List Option Table

/-! ### Transactions -/

/-- The rows that are locked. -/
inductive RowId where
  | user (id : Uuid)
  | traffic (k : Uuid × Uuid × Core)
  | hourly (k : ℤ × Uuid × Uuid × Core)
  deriving DecidableEq

/-- What a recording added to its row. -/
structure Increment where
  hour : ℤ
  key : Uuid × Uuid × Core
  bytes : ℤ × ℤ

/-- The committed tables, with a record of the increments that were committed. -/
structure TrafficStore where
  db : Db
  log : List Increment

/-- Where a recording is, named after its next statement, with what it has read and written so far. -/
inductive RecordStage where
  | user
  | previous (before : User)
  | upsert (before : User) (previous : Option TrafficRow)
  | hourly (before : User) (delta : ℤ × ℤ) (row : TrafficRow)
  | total (before : User) (row : TrafficRow) (entry : Option HourlyRow)
  | commit (before : User) (row : TrafficRow) (entry : Option HourlyRow) (after : ℤ)

/-- Where a reset is: the rows that its `DELETE` has still to lock, and those it has. -/
inductive ResetStage where
  | scan (order : List (Uuid × Uuid × Core))
  | delete (todo deleted : List (Uuid × Uuid × Core))
  | commit (deleted : List (Uuid × Uuid × Core)) (locked : Bool)

inductive TrafficTx where
  | record (x : Sample) (stage : RecordStage)
  | reset (user : Uuid) (stage : ResetStage)

/-- A call; the order in which a `DELETE` comes to the rows is up to the database. -/
inductive TrafficCall where
  | record (x : Sample)
  | reset (user : Uuid) (order : List (Uuid × Uuid × Core))

def TrafficTx.user : TrafficTx → Uuid
  | .record x _ => x.user
  | .reset user _ => user

def TrafficCall.tx : TrafficCall → TrafficTx
  | .record x => .record x .user
  | .reset user order => .reset user (.scan order)

variable (db : Db) (user : Uuid)

/-- The rows of a user, those of `order` first. -/
def Db.scan (order : List (Uuid × Uuid × Core)) : List (Uuid × Uuid × Core) :=
  let keys := (db.traffic.rows.filter (·.userId = user)).map (·.key)
  order.dedup.filter (· ∈ keys) ++ keys.filter (· ∉ order)

/-! ### Locks -/

/-- The locks of the rows that a recording has written. -/
def written (x : Sample) (entry : Option HourlyRow) : List RowId :=
  [.user x.user, .traffic x.key] ++ if entry.isSome then [.hourly (x.hour, x.key)] else []

def RecordStage.locks (x : Sample) : RecordStage → List RowId
  | .user => []
  | .previous _ => [.user x.user]
  | .upsert _ prev => .user x.user :: if prev.isSome then [.traffic x.key] else []
  | .hourly _ _ _ => [.user x.user, .traffic x.key]
  | .total _ _ entry | .commit _ _ entry _ => written x entry

def RecordStage.wants (x : Sample) : RecordStage → Option RowId
  | .user => if (db.users.find? x.user).isSome then some (.user x.user) else none
  | .previous _ => if (db.traffic.find? x.key).isSome then some (.traffic x.key) else none
  | .upsert _ _ => some (.traffic x.key)
  | .hourly _ delta _ => if 0 < delta.1 ∨ 0 < delta.2 then some (.hourly (x.hour, x.key)) else none
  | .total _ _ _ => some (.user x.user)
  | .commit _ _ _ _ => none

def ResetStage.locks : ResetStage → List RowId
  | .scan _ => []
  | .delete _ deleted => deleted.map .traffic
  | .commit deleted locked => (if locked then [.user user] else []) ++ deleted.map .traffic

def ResetStage.wants : ResetStage → Option RowId
  | .scan _ | .commit _ _ => none
  | .delete (k :: _) _ => if (db.traffic.find? k).isSome then some (.traffic k) else none
  | .delete [] _ => if (db.users.find? user).isSome then some (.user user) else none

/-! ### Statements -/

/-- The next stage, or the end on an error of the database. -/
def stage {α : Type} (x : Except DbError α) (f : α → TrafficTx) : Move TrafficStore TrafficTx :=
  match x with
  | .ok a => .go (f a)
  | .error _ => .abort

/-- The tables that a recording commits; its user is locked since it was read. -/
def Db.recorded (before : User) (row : TrafficRow) (entry : Option HourlyRow) (after : ℤ) : Db :=
  { db with
    traffic := db.traffic.put row
    hourly := entry.elim db.hourly db.hourly.put
    users := db.users.put { before with usedTrafficBytes := after } }

/-- The tables that a reset commits. -/
def Db.resetRows (deleted : List (Uuid × Uuid × Core)) : Db :=
  { db with
    traffic := db.traffic.keep (·.key ∉ deleted)
    users := match db.users.find? user with
      | some u => db.users.put { u with usedTrafficBytes := 0 }
      | none => db.users }

def RecordStage.next (s : TrafficStore) (x : Sample) : RecordStage → Move TrafficStore TrafficTx
  | .user => match s.db.users.find? x.user with
    | none => .abort
    | some u => .go (.record x (.previous u))
  | .previous u => .go (.record x (.upsert u (s.db.traffic.find? x.key)))
  | .upsert u prev => stage (upsertRow s.db x) fun row => .record x (.hourly u (x.delta prev) row)
  | .hourly u delta row => stage (hourlyRow s.db x delta) fun entry => .record x (.total u row entry)
  | .total u row entry =>
    stage (sumTraffic (s.db.traffic.put row) x.user) fun after => .record x (.commit u row entry after)
  | .commit u row entry after =>
    .commit ⟨s.db.recorded u row entry after,
      s.log ++ [⟨x.hour, x.key, (row.upBytes, row.downBytes) - s.db.bytes x.key⟩]⟩

def ResetStage.next (s : TrafficStore) (user : Uuid) : ResetStage → Move TrafficStore TrafficTx
  | .scan order => .go (.reset user (.delete (s.db.scan user order) []))
  | .delete (k :: todo) deleted =>
    .go (.reset user (.delete todo (if (s.db.traffic.find? k).isSome then k :: deleted else deleted)))
  | .delete [] deleted => .go (.reset user (.commit deleted (s.db.users.find? user).isSome))
  | .commit deleted _ => .commit ⟨s.db.resetRows user deleted, s.log⟩

namespace TrafficTx

def locks : TrafficTx → List RowId
  | .record x st => st.locks x
  | .reset user st => st.locks user

def wants (s : TrafficStore) : TrafficTx → Option RowId
  | .record x st => st.wants s.db x
  | .reset user st => st.wants s.db user

def next (s : TrafficStore) : TrafficTx → Move TrafficStore TrafficTx
  | .record x st => st.next s x
  | .reset user st => st.next s user

theorem stage_eq_go {α : Type} {x : Except DbError α} {f : α → TrafficTx} {t : TrafficTx} (h : stage x f = .go t) :
    ∃ a, x = .ok a ∧ f a = t := by
  cases x with
  | error e => cases h
  | ok a => exact ⟨a, rfl, Move.go.inj h⟩

variable {s : TrafficStore}

theorem stage_ne_commit {α : Type} {x : Except DbError α} {f : α → TrafficTx} : stage x f ≠ .commit s := by
  cases x <;> exact nofun

theorem takes_record {x : Sample} {st : RecordStage} {t' : TrafficTx} (h : st.next s x = .go t') :
    ∀ r ∈ t'.locks, r ∈ st.locks x ∨ st.wants s.db x = some r := by
  intro r hr
  cases st with
  | user =>
    rw [RecordStage.next] at h
    split at h
    · cases h
    rename_i hu
    obtain rfl := Move.go.inj h
    obtain rfl := mem_singleton.mp hr
    simp [RecordStage.wants, hu]
  | previous u =>
    obtain rfl := Move.go.inj h
    rcases mem_cons.mp hr with rfl | hrow
    · exact .inl (mem_singleton.mpr rfl)
    cases hfind : s.db.traffic.find? x.key with
    | none =>
      rw [hfind] at hrow
      cases hrow
    | some row =>
      rw [hfind] at hrow
      obtain rfl := mem_singleton.mp hrow
      simp [RecordStage.wants, hfind]
  | upsert u prev =>
    obtain ⟨row, -, rfl⟩ := stage_eq_go h
    rcases mem_cons.mp hr with rfl | hrow
    · exact .inl mem_cons_self
    · obtain rfl := mem_singleton.mp hrow
      exact .inr rfl
  | hourly u delta row =>
    obtain ⟨entry, hentry, rfl⟩ := stage_eq_go h
    rcases mem_append.mp hr with hold | hnew
    · exact .inl hold
    rcases entry with _ | entry
    · cases hnew
    have hrises : 0 < delta.1 ∨ 0 < delta.2 := by
      by_contra hnot
      rw [hourlyRow, if_neg hnot] at hentry
      cases hentry
    obtain rfl := mem_singleton.mp hnew
    exact .inr (if_pos hrises)
  | total u row entry =>
    obtain ⟨after, -, rfl⟩ := stage_eq_go h
    exact .inl hr
  | commit u row entry after => cases h

theorem takes_reset {user : Uuid} {st : ResetStage} {t' : TrafficTx} (h : st.next s user = .go t') :
    ∀ r ∈ t'.locks, r ∈ st.locks user ∨ st.wants s.db user = some r := by
  intro r hr
  cases st with
  | scan order =>
    obtain rfl := Move.go.inj h
    cases hr
  | commit deleted locked => cases h
  | delete todo deleted =>
    cases todo with
    | nil =>
      obtain rfl := Move.go.inj h
      rcases mem_append.mp hr with huser | hrow
      · cases hfind : s.db.users.find? user with
        | none =>
          rw [hfind] at huser
          cases huser
        | some u =>
          rw [hfind] at huser
          obtain rfl := mem_singleton.mp huser
          simp [ResetStage.wants, hfind]
      · exact .inl hrow
    | cons k todo =>
      obtain rfl := Move.go.inj h
      cases hfind : s.db.traffic.find? k with
      | none =>
        rw [hfind] at hr
        exact .inl hr
      | some row =>
        rw [hfind] at hr
        rcases mem_cons.mp hr with rfl | hold
        · simp [ResetStage.wants, hfind]
        · exact .inl hold

end TrafficTx

/-- The transactions of the two calls. -/
def trafficLocking : Locking TrafficStore TrafficCall TrafficTx RowId where
  start := TrafficCall.tx
  locks := TrafficTx.locks
  wants := TrafficTx.wants
  next := TrafficTx.next
  starts call := by cases call <;> rfl
  takes {_ t _} h := match t with
    | .record _ _ => TrafficTx.takes_record h
    | .reset _ _ => TrafficTx.takes_reset h

/-! ### What a commit leaves alone -/

/-- The rows of a user are the same. -/
structure SameFor (id : Uuid) (db db' : Db) : Prop where
  nodes : db'.nodes = db.nodes
  user : db'.users.find? id = db.users.find? id
  traffic : db'.traffic.keep (·.key.2.1 = id) = db.traffic.keep (·.key.2.1 = id)
  hourly : ∀ k, k.2.2.1 = id → db'.hourly.find? k = db.hourly.find? k

section

variable {db db' : Db} {x : Sample} {user : Uuid}

theorem find?_of_keep {t : Table TrafficRow.key} {k : Uuid × Uuid × Core} :
    t.find? k = (t.keep (·.key.2.1 = k.2.1)).find? k :=
  (find?_keep_of fun _ hrow => decide_eq_true (congrArg (·.2.1) (find?_eq_some.mp hrow).2)).symm

theorem sumTraffic_keep (t : Table TrafficRow.key) (user : Uuid) :
    sumTraffic t user = sumTraffic (t.keep (·.key.2.1 = user)) user := by
  have hcharged : charged (t.keep (·.key.2.1 = user)) user = charged t user := by
    refine charged_keep t _ user fun r _ hp hr => ?_
    exact absurd hr (of_decide_eq_false hp)
  have hmem : (∀ r ∈ (t.keep (·.key.2.1 = user)).rows, r.userId = user → InI64 (r.upBytes + r.downBytes)) ↔
      ∀ r ∈ t.rows, r.userId = user → InI64 (r.upBytes + r.downBytes) := by
    constructor
    · intro h r hr hu
      exact h r (mem_keep.mpr ⟨hr, decide_eq_true hu⟩) hu
    · intro h r hr hu
      exact h r (mem_keep.mp hr).1 hu
  simp only [sumTraffic, hcharged, hmem]

namespace SameFor

section

variable (h : SameFor x.user db db')
include h

theorem row : db'.traffic.find? x.key = db.traffic.find? x.key := by
  have hkeep : db'.traffic.keep (·.key.2.1 = x.key.2.1) = db.traffic.keep (·.key.2.1 = x.key.2.1) := h.traffic
  rw [find?_of_keep, hkeep, ← find?_of_keep]

theorem upsertRow : upsertRow db' x = Master.upsertRow db x := by
  simp [Master.upsertRow, h.row, h.nodes]

theorem hourlyRow (delta : ℤ × ℤ) : hourlyRow db' x delta = Master.hourlyRow db x delta := by
  simp [Master.hourlyRow, h.hourly (x.hour, x.key) rfl]

theorem sum {row : TrafficRow} (hrow : row.key = x.key) :
    sumTraffic (db'.traffic.put row) x.user = sumTraffic (db.traffic.put row) x.user := by
  have hput : ∀ t : Table TrafficRow.key, (t.put row).keep (·.key.2.1 = x.user) =
      (t.keep (·.key.2.1 = x.user)).put row := by
    intro t
    have hkeep := keep_put (fun k => decide (k.2.1 = x.user)) t row
    rwa [if_pos (by rw [hrow]; exact decide_eq_true rfl)] at hkeep
  rw [sumTraffic_keep, hput, h.traffic, ← hput, ← sumTraffic_keep]

end

end SameFor

/-! ### What the transactions rely on -/

/-- What a recording has read and computed is what the committed tables say. -/
def RecordStage.Fits (db : Db) (x : Sample) : RecordStage → Prop
  | .user => True
  | .previous u => db.users.find? x.user = some u
  | .upsert u prev => db.users.find? x.user = some u ∧ db.traffic.find? x.key = prev
  | .hourly u delta row => db.users.find? x.user = some u ∧ upsertRow db x = .ok row ∧
      x.delta (db.traffic.find? x.key) = delta
  | .total u row entry => db.users.find? x.user = some u ∧ upsertRow db x = .ok row ∧
      hourlyRow db x (x.delta (db.traffic.find? x.key)) = .ok entry
  | .commit u row entry after => db.users.find? x.user = some u ∧ upsertRow db x = .ok row ∧
      hourlyRow db x (x.delta (db.traffic.find? x.key)) = .ok entry ∧
      sumTraffic (db.traffic.put row) x.user = .ok after

/-- A reset deletes rows of its user, and if it has not locked the user there is none. -/
def ResetStage.Fits (db : Db) (user : Uuid) : ResetStage → Prop
  | .scan _ => True
  | .delete todo deleted => ∀ k ∈ todo ++ deleted, k.2.1 = user
  | .commit deleted locked => (∀ k ∈ deleted, k.2.1 = user) ∧ (locked = false → db.users.find? user = none)

def TrafficTx.Fits (s : TrafficStore) : TrafficTx → Prop
  | .record x st => st.Fits s.db x
  | .reset user st => st.Fits s.db user

variable {st : RecordStage}

theorem RecordStage.Fits.same (h : SameFor x.user db db') (hfits : st.Fits db x) : st.Fits db' x := by
  cases st with
  | user => trivial
  | previous u => exact h.user.trans hfits
  | upsert u prev => exact ⟨h.user.trans hfits.1, h.row.trans hfits.2⟩
  | hourly u delta row =>
    obtain ⟨hu, hrow, hdelta⟩ := hfits
    exact ⟨h.user.trans hu, h.upsertRow.trans hrow, by rw [h.row, hdelta]⟩
  | total u row entry =>
    obtain ⟨hu, hrow, hentry⟩ := hfits
    exact ⟨h.user.trans hu, h.upsertRow.trans hrow, by rw [h.row, h.hourlyRow, hentry]⟩
  | commit u row entry after =>
    obtain ⟨hu, hrow, hentry, hafter⟩ := hfits
    have hkey : row.key = x.key := by rw [(upsertRow_ok hrow).1, nextRow_key]
    exact ⟨h.user.trans hu, h.upsertRow.trans hrow, by rw [h.row, h.hourlyRow, hentry], (h.sum hkey).trans hafter⟩

def TrafficTx.isReset : TrafficTx → Bool
  | .record _ _ => false
  | .reset _ _ => true

theorem go_same {s : TrafficStore} {t t' : TrafficTx} (h : t.next s = .go t') :
    t'.user = t.user ∧ t'.isReset = t.isReset ∧ (t.Fits s → t'.Fits s) := by
  cases t with
  | record x st =>
    cases st with
    | user =>
      rw [TrafficTx.next, RecordStage.next] at h
      split at h
      · cases h
      · rename_i hu
        obtain rfl := Move.go.inj h
        exact ⟨rfl, rfl, fun _ => hu⟩
    | previous u =>
      obtain rfl := Move.go.inj h
      exact ⟨rfl, rfl, fun hfits => ⟨hfits, rfl⟩⟩
    | upsert u prev =>
      obtain ⟨row, hrow, rfl⟩ := TrafficTx.stage_eq_go h
      exact ⟨rfl, rfl, fun hfits => ⟨hfits.1, hrow, by rw [hfits.2]⟩⟩
    | hourly u delta row =>
      obtain ⟨entry, hentry, rfl⟩ := TrafficTx.stage_eq_go h
      exact ⟨rfl, rfl, fun hfits => ⟨hfits.1, hfits.2.1, by rw [hfits.2.2, hentry]⟩⟩
    | total u row entry =>
      obtain ⟨after, hafter, rfl⟩ := TrafficTx.stage_eq_go h
      exact ⟨rfl, rfl, fun hfits => ⟨hfits.1, hfits.2.1, hfits.2.2, hafter⟩⟩
    | commit u row entry after => cases h
  | reset user st =>
    cases st with
    | scan order =>
      obtain rfl := Move.go.inj h
      refine ⟨rfl, rfl, fun _ k hk => ?_⟩
      rw [append_nil] at hk
      have hkeys : k ∈ (s.db.traffic.rows.filter (·.userId = user)).map (·.key) := by
        rcases mem_append.mp hk with hk | hk
        · exact of_decide_eq_true (mem_filter.mp hk).2
        · exact (mem_filter.mp hk).1
      obtain ⟨row, hrow, rfl⟩ := mem_map.mp hkeys
      exact of_decide_eq_true (mem_filter.mp hrow).2
    | delete todo deleted =>
      cases todo with
      | nil =>
        obtain rfl := Move.go.inj h
        exact ⟨rfl, rfl, fun hfits => ⟨hfits, fun hnone => by simpa using hnone⟩⟩
      | cons k todo =>
        obtain rfl := Move.go.inj h
        refine ⟨rfl, rfl, fun hfits j hj => hfits j ?_⟩
        rcases mem_append.mp hj with hj | hj
        · exact mem_append_left _ (mem_cons_of_mem _ hj)
        split at hj
        · rcases mem_cons.mp hj with rfl | hj
          · exact mem_append_left _ mem_cons_self
          · exact mem_append_right _ hj
        · exact mem_append_right _ hj
    | commit deleted locked => cases h

/-! ### What a commit does -/

variable {s s' : TrafficStore} {t u : TrafficTx}

theorem commit_record (h : st.next s x = .commit s') : ∃ before row entry after, st = .commit before row entry after ∧
      s' = ⟨s.db.recorded before row entry after,
        s.log ++ [⟨x.hour, x.key, (row.upBytes, row.downBytes) - s.db.bytes x.key⟩]⟩ := by
  cases st with
  | commit before row entry after => exact ⟨before, row, entry, after, rfl, (Move.commit.inj h).symm⟩
  | user =>
    rw [RecordStage.next] at h
    split at h <;> cases h
  | previous before => cases h
  | upsert before prev | hourly before delta row | total before row entry => exact absurd h TrafficTx.stage_ne_commit

theorem commit_reset {st : ResetStage} (h : st.next s user = .commit s') :
    ∃ deleted locked, st = .commit deleted locked ∧ s' = ⟨s.db.resetRows user deleted, s.log⟩ := by
  cases st with
  | commit deleted locked => exact ⟨deleted, locked, rfl, (Move.commit.inj h).symm⟩
  | scan order => cases h
  | delete todo deleted => cases todo <;> cases h

/-- A recording commits what `record_traffic` in one piece would. -/
theorem recorded_serial {before : User} {row : TrafficRow} {entry : Option HourlyRow} {after : ℤ}
    (h : (RecordStage.commit before row entry after).Fits db x) :
    ∃ crossed, recordTraffic db x = .ok (db.recorded before row entry after, crossed) := by
  obtain ⟨hu, hrow, hentry, hafter⟩ := h
  have hupsert : upsertTraffic db x = .ok (db.traffic.put row) := by
    rw [upsertTraffic_eq, hrow]
    rfl
  have hhourly : recordHourly db x (x.delta (db.traffic.find? x.key)) = .ok (entry.elim db.hourly db.hourly.put) := by
    rw [recordHourly_eq, hentry]
    rfl
  rw [Sample.delta] at hhourly
  rw [recordTraffic, hu]
  simp only [hupsert, hhourly, hafter, bind, Except.bind]
  exact ⟨_, rfl⟩

theorem same_recorded {before : User} {row : TrafficRow} {entry : Option HourlyRow} {after : ℤ}
    (h : (RecordStage.commit before row entry after).Fits db x) {id : Uuid} (hid : id ≠ x.user) :
    SameFor id db (db.recorded before row entry after) := by
  obtain ⟨hu, hrow, hentry, -⟩ := h
  obtain ⟨-, hbefore⟩ := find?_eq_some.mp hu
  have hkey : row.key = x.key := by rw [(upsertRow_ok hrow).1, nextRow_key]
  refine ⟨rfl, ?_, ?_, fun k hk => ?_⟩
  · refine find?_put_of_ne ?_
    exact hbefore ▸ hid
  · have hkeep := keep_put (fun k => decide (k.2.1 = id)) db.traffic row
    rwa [if_neg (by rw [hkey]; exact fun heq => hid (of_decide_eq_true heq).symm)] at hkeep
  · cases entry with
    | none => rfl
    | some entry =>
      refine find?_put_of_ne ?_
      rw [(hourlyRow_ok hentry).1]
      exact fun heq => hid (hk.symm.trans (congrArg (·.2.2.1) heq))

theorem same_resetRows {deleted : List (Uuid × Uuid × Core)} (h : ∀ k ∈ deleted, k.2.1 = user) {id : Uuid}
    (hid : id ≠ user) : SameFor id db (db.resetRows user deleted) := by
  refine ⟨rfl, ?_, ?_, fun _ _ => rfl⟩
  · cases hu : db.users.find? user with
    | none => simp [Db.resetRows, hu]
    | some u =>
      obtain ⟨-, huid⟩ := find?_eq_some.mp hu
      simp only [Db.resetRows, hu]
      refine find?_put_of_ne ?_
      exact huid ▸ hid
  · rw [Db.resetRows, keep_keep]
    refine Table.ext (filter_congr fun r _ => ?_)
    by_cases hr : r.key.2.1 = id
    · have hkept : r.key ∉ deleted := fun hmem => hid (hr.symm.trans (h _ hmem))
      simp [hkept]
    · simp [hr]

theorem users_put {u v : User} (hu : db.users.find? user = some u) (hv : v.id = u.id) (id : Uuid) :
    ((db.users.put v).find? id).isSome = (db.users.find? id).isSome := by
  rw [find?_put]
  split
  · rename_i hid
    rw [hid, hv, (find?_eq_some.mp hu).2, hu]
    rfl
  · rfl

theorem commit_same (hfits : t.Fits s) (h : t.next s = .commit s') {id : Uuid} (hid : id ≠ t.user) :
    SameFor id s.db s'.db := by
  cases t with
  | record x st =>
    obtain ⟨before, row, entry, after, rfl, rfl⟩ := commit_record h
    exact same_recorded hfits hid
  | reset user st =>
    obtain ⟨deleted, locked, rfl, rfl⟩ := commit_reset h
    exact same_resetRows hfits.1 hid

theorem commit_users (hfits : t.Fits s) (h : t.next s = .commit s') (id : Uuid) :
    (s'.db.users.find? id).isSome = (s.db.users.find? id).isSome := by
  cases t with
  | record x st =>
    obtain ⟨before, row, entry, after, rfl, rfl⟩ := commit_record h
    exact users_put hfits.1 (by rfl) id
  | reset user st =>
    obtain ⟨deleted, locked, rfl, rfl⟩ := commit_reset h
    rcases hu : s.db.users.find? user with _ | v
    · simp [Db.resetRows, hu]
    · simp only [Db.resetRows, hu]
      exact users_put hu (by rfl) id

theorem commit_holds (hfits : t.Fits s) (h : t.next s = .commit s') :
    .user t.user ∈ t.locks ∨ s.db.users.find? t.user = none := by
  cases t with
  | record x st =>
    obtain ⟨before, row, entry, after, rfl, rfl⟩ := commit_record h
    exact .inl mem_cons_self
  | reset user st =>
    obtain ⟨deleted, locked, rfl, rfl⟩ := commit_reset h
    cases locked with
    | true => exact .inl mem_cons_self
    | false => exact .inr (hfits.2 rfl)

theorem record_holds (hfits : st.Fits db x) (hst : st ≠ .user) :
    .user x.user ∈ st.locks x ∧ (db.users.find? x.user).isSome := by
  cases st with
  | user => exact absurd rfl hst
  | previous before => exact ⟨mem_cons_self, isSome_iff_exists.mpr ⟨before, hfits⟩⟩
  | upsert before prev | hourly before delta row | total before row entry | commit before row entry after =>
    exact ⟨mem_cons_self, isSome_iff_exists.mpr ⟨before, hfits.1⟩⟩

theorem fits_commit (hfits : t.Fits s) (h : t.next s = .commit s') (hu : u.Fits s)
    (hapart : ∀ r ∈ t.locks, r ∉ u.locks) : u.Fits s' := by
  cases u with
  | record x st =>
    by_cases hst : st = .user
    · rw [hst]
      trivial
    -- both hold the row of their user, so it is not the same user
    obtain ⟨hlock, hthere⟩ := record_holds hu hst
    have hne : x.user ≠ t.user := by
      intro heq
      rcases commit_holds hfits h with hheld | hgone
      · exact hapart _ hheld (heq ▸ hlock)
      · rw [heq, hgone] at hthere
        cases hthere
    exact RecordStage.Fits.same (commit_same hfits h hne) hu
  | reset user st =>
    cases st with
    | scan order => trivial
    | delete todo deleted => exact hu
    | commit deleted locked =>
      refine ⟨hu.1, fun hlocked => ?_⟩
      have hthere := commit_users hfits h user
      rwa [hu.2 hlocked, isSome_none, isSome_eq_false_iff, isNone_iff_eq_none] at hthere

theorem trafficLocking_sound : trafficLocking.Sound TrafficTx.Fits where
  start _ call := by cases call <;> trivial
  go hfits h := (go_same h).2.2 hfits
  commit := fits_commit

end

/-- A transaction in one piece: a call of `record_traffic`, or the deletion of the rows that a reset has locked. -/
def TrafficTx.atOnce : TrafficTx → Db
  | .record x _ => db.apply (.record x)
  | .reset user (.commit deleted _) => db.resetRows user deleted
  | .reset _ _ => db

/-- Every interleaving leaves the tables that its commits leave one after another. -/
theorem interleaving_serial (db : Db) (es : List (LockEvent TrafficCall)) :
    (es.foldl trafficLocking.step (Locking.idle ⟨db, []⟩)).store.db =
      (trafficLocking.commits (Locking.idle ⟨db, []⟩) es).foldl TrafficTx.atOnce db := by
  refine Locking.store_serial trafficLocking_sound (fun s t s' hfits h => ?_) es (Locking.consistent_idle _)
  cases t with
  | record x st =>
    obtain ⟨before, row, entry, after, rfl, rfl⟩ := commit_record h
    obtain ⟨crossed, hrecord⟩ := recorded_serial hfits
    simp [TrafficTx.atOnce, Db.apply, hrecord]
  | reset user st =>
    obtain ⟨deleted, locked, rfl, rfl⟩ := commit_reset h
    rfl

/-! ### Deadlocks -/

/-- The user that a row belongs to. -/
def RowId.owner : RowId → Uuid
  | .user id => id
  | .traffic k => k.2.1
  | .hourly k => k.2.2.1

section

variable {s : TrafficStore} {t t' : TrafficTx} {r : RowId}

theorem mem_written {x : Sample} {entry : Option HourlyRow} (h : r ∈ written x entry) :
    r ∈ [RowId.user x.user, .traffic x.key, .hourly (x.hour, x.key)] := by
  cases entry with
  | none => exact mem_append_left [RowId.hourly _] h
  | some entry => exact h

theorem locks_owner (hfits : t.Fits s) (h : r ∈ t.locks) : r.owner = t.user := by
  cases t with
  | record x st =>
    have hall : r ∈ [RowId.user x.user, .traffic x.key, .hourly (x.hour, x.key)] := by
      cases st with
      | user => cases h
      | previous before => exact mem_append_left _ h
      | hourly before delta row => exact mem_append_left [RowId.hourly _] h
      | upsert before prev =>
        cases prev with
        | none => exact mem_append_left _ h
        | some row => exact mem_append_left [RowId.hourly _] h
      | total before row entry | commit before row entry after => exact mem_written h
    simp only [mem_cons, not_mem_nil, or_false] at hall
    rcases hall with rfl | rfl | rfl <;> rfl
  | reset user st =>
    cases st with
    | scan order => cases h
    | delete todo deleted =>
      obtain ⟨k, hk, rfl⟩ := mem_map.mp h
      exact hfits k (mem_append_right _ hk)
    | commit deleted locked =>
      rcases mem_append.mp h with h | h
      · cases locked with
        | false => cases h
        | true =>
          obtain rfl := mem_singleton.mp h
          rfl
      · obtain ⟨k, hk, rfl⟩ := mem_map.mp h
        exact hfits.1 k hk

theorem eq_of_wants {c : Prop} [Decidable c] {a : RowId} (h : (if c then some a else none) = some r) : a = r :=
  some.inj (ite_none_right_eq_some.mp h).2

theorem wants_owner (hfits : t.Fits s) (h : t.wants s = some r) : r.owner = t.user := by
  cases t with
  | record x st =>
    cases st with
    | user | previous before | hourly before delta row => exact eq_of_wants h ▸ rfl
    | upsert before prev | total before row entry => exact some.inj h ▸ rfl
    | commit before row entry after => cases h
  | reset user st =>
    cases st with
    | scan order => cases h
    | commit deleted locked => cases h
    | delete todo deleted =>
      cases todo with
      | nil => exact eq_of_wants h ▸ rfl
      | cons k todo => exact eq_of_wants h ▸ hfits k (mem_append_left _ mem_cons_self)

end

abbrev TrafficServer := LockServer TrafficStore TrafficTx

/-- A reset begins while no other transaction of its user is running, and a recording while no reset of its user is. -/
def Separate (s : TrafficServer) : LockEvent TrafficCall → Prop
  | .begin _ call => ∀ x ∈ s.running.rows, x.2.user = call.tx.user → x.2.isReset = false ∧ call.tx.isReset = false
  | .next _ | .abort _ => True

/-- Of two transactions of one user, neither is a reset. -/
def Apart (s : TrafficServer) : Prop :=
  ∀ x ∈ s.running.rows, ∀ y ∈ s.running.rows, x.1 ≠ y.1 → x.2.user = y.2.user → x.2.isReset = false

variable {s : TrafficServer}

theorem Apart.put (h : Apart s) {p : ℕ} {t : TrafficTx}
    (ht : ∀ x ∈ s.running.rows, x.1 ≠ p → x.2.user = t.user → x.2.isReset = false ∧ t.isReset = false) :
    Apart { s with running := s.running.put (p, t) } :=
  forall_put_pair (absurd rfl)
    (fun x hx hxp => ⟨fun _ huser => (ht x hx hxp huser).1, fun _ huser => (ht x hx hxp huser.symm).2⟩) h

theorem apart_step (s : TrafficServer) (e : LockEvent TrafficCall) (h : Apart s) (hs : Separate s e) :
    Apart (trafficLocking.step s e) := by
  have hstep := trafficLocking.stepped s e
  generalize trafficLocking.step s e = s' at hstep
  cases hstep with
  | stay => exact h
  | begin p call hnone => exact h.put fun x hx _ huser => hs x hx huser
  | drop _ p | commit p t store hmem hnext hcommitting =>
    exact fun x hx y hy => h x (mem_keep.mp hx).1 y (mem_keep.mp hy).1
  | go p t t' hmem hfree hgo =>
    obtain ⟨huser, hkind, -⟩ := go_same hgo
    refine h.put fun x hx hne hsame => ?_
    rw [huser] at hsame
    rw [hkind]
    exact ⟨h x hx _ hmem hne hsame, h _ hmem x hx hne.symm hsame.symm⟩

/-- Who is waited for there is a recording that holds its user, and of those one user has one. -/
theorem waited_holds (hc : trafficLocking.Consistent TrafficTx.Fits s) (ha : Apart s) {p q : ℕ}
    (h : trafficLocking.WaitsFor s p q) : ∃ t u, (p, t) ∈ s.running.rows ∧ (q, u) ∈ s.running.rows ∧
      t.user = u.user ∧ RowId.user u.user ∈ u.locks := by
  obtain ⟨hne, t, u, r, ht, hu, hwants, hheld⟩ := h
  have huser : t.user = u.user := (wants_owner (hc.fits _ ht) hwants).symm.trans (locks_owner (hc.fits _ hu) hheld)
  refine ⟨t, u, ht, hu, huser, ?_⟩
  have hrecord : u.isReset = false := ha _ hu _ ht hne.symm huser.symm
  cases u with
  | reset user st => cases hrecord
  | record x st =>
    refine (record_holds (hc.fits _ hu) ?_).1
    rintro rfl
    cases hheld

theorem not_deadlocked_of_apart (hc : trafficLocking.Consistent TrafficTx.Fits s) (ha : Apart s) :
    ¬ trafficLocking.Deadlocked s := by
  refine Locking.not_deadlocked fun p q r hpq hqr => ?_
  obtain ⟨-, u, -, hu, -, hheld⟩ := waited_holds hc ha hpq
  obtain ⟨u', v, hu', hv, huser, hheld'⟩ := waited_holds hc ha hqr
  obtain rfl : u = u' := congrArg Prod.snd (some.inj
    ((find?_eq_some.mpr ⟨hu, rfl⟩).symm.trans (find?_eq_some.mpr ⟨hu', rfl⟩)))
  exact hc.exclusive _ hu _ hv hqr.1 _ hheld (huser ▸ hheld')

/-- In every interleaving in which a reset never overlaps another transaction of its user, no transactions wait for
    each other in a cycle. -/
theorem no_deadlock (db : Db) (es : List (LockEvent TrafficCall))
    (h : Always trafficLocking.step Separate (Locking.idle ⟨db, []⟩) es) :
    Always trafficLocking.step (fun s e => ¬ trafficLocking.Deadlocked (trafficLocking.step s e))
      (Locking.idle ⟨db, []⟩) es := by
  have hstep : ∀ s e, trafficLocking.Consistent TrafficTx.Fits s ∧ Apart s → Separate s e →
      trafficLocking.Consistent TrafficTx.Fits (trafficLocking.step s e) ∧ Apart (trafficLocking.step s e) :=
    fun s e hs hsep => ⟨Locking.consistent_step trafficLocking_sound s e hs.1, apart_step s e hs.2 hsep⟩
  refine always_of_inv hstep (fun s e hs hsep => ?_) es _ ⟨Locking.consistent_idle _, fun _ hx => nomatch hx⟩ h
  obtain ⟨hc, ha⟩ := hstep s e hs hsep
  exact not_deadlocked_of_apart hc ha

/-- A reading of the one user's counter. -/
def reading : Sample := ⟨1, 7, .singbox, "e", 300, 0, 0⟩

/-- Two recordings of one user at the same time. -/
theorem readings_no_deadlock :
    Always trafficLocking.step (fun s e => ¬ trafficLocking.Deadlocked (trafficLocking.step s e))
      (Locking.idle ⟨limited, []⟩)
      [.begin 1 (.record reading), .begin 2 (.record reading), .next 1, .next 2, .next 1] := by
  refine no_deadlock limited _ ?_
  simp only [always_cons, always_nil, Separate, and_true]
  refine ⟨fun x hx => ?_, fun x hx _ => ?_⟩
  · cases hx
  rcases mem_put.mp hx with rfl | ⟨hx, -⟩
  · exact ⟨rfl, rfl⟩
  · cases hx

/-- A recording locks its user, and a reset of the user locks the row of the traffic. -/
def crossed : TrafficServer :=
  [.begin 1 (.record reading), .begin 2 (.reset 7 []), .next 1, .next 2, .next 2].foldl trafficLocking.step
    (Locking.idle ⟨limited, []⟩)

def heldUser : TrafficTx := .record reading (.previous ⟨7, "alice", "u", "p", true, 500, 0, none⟩)

def heldRow : TrafficTx := .reset 7 (.delete [] [reading.key])

/-- Now the first waits for the row, and the second for the user. -/
theorem crossed_locks : trafficLocking.Deadlocked crossed := by
  have hfirst : (1, heldUser) ∈ crossed.running.rows := by
    exact mem_cons_self
  have hsecond : (2, heldRow) ∈ crossed.running.rows := by
    exact mem_cons_of_mem _ mem_cons_self
  have hrow : trafficLocking.WaitsFor crossed 1 2 :=
    ⟨by decide, heldUser, heldRow, .traffic reading.key, hfirst, hsecond, by decide +kernel, mem_cons_self⟩
  have huser : trafficLocking.WaitsFor crossed 2 1 :=
    ⟨by decide, heldRow, heldUser, .user 7, hsecond, hfirst, by decide +kernel, mem_cons_self⟩
  exact ⟨1, .tail (.single hrow) huser⟩

end Honey.Master
