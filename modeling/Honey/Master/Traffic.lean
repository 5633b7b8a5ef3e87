import Honey.Master.Db
import Honey.Schemes.Rise
import Honey.Schemes.Run

/-! The traffic accounting of the master (`db/repo.rs`): `record_traffic` with its two computations of
    the increment, the resets and limits of users, and the deletion of nodes with its cascades.

        sample --> row (node, user, core): up += rise, down += rise, last := sample
                                             |
                                             v sum over the user's rows
                                           users.used_traffic_bytes

    Every reading becomes the next baseline, so what a sequence of readings adds to a row is the sum of
    its rises (`recordAll_row`); and the user's total is what the rows say, also after some of them are
    gone (`record_charges`). -/

namespace Honey.Master
open Honey.Schemes Table Except

/-- `cur.checked_sub(last).filter(|delta| *delta >= 0).unwrap_or(0)`. -/
def checkedRise (cur last : ℤ) : ℤ := if InI64 (cur - last) ∧ 0 ≤ cur - last then cur - last else 0

def trafficDelta (previous : Option (ℤ × ℤ × String)) (epoch : String) (curUp curDown : ℤ) : ℤ × ℤ :=
  match previous with
  | none => (0, 0)
  | some (lastUp, lastDown, lastEpoch) =>
    if lastEpoch ≠ epoch then (0, 0) else (checkedRise curUp lastUp, checkedRise curDown lastDown)

/-- The `CASE` of the upsert; `bigint` subtraction fails where it does not fit. -/
def caseRise (lastEpoch epoch : String) (cur last : ℤ) : Except DbError ℤ :=
  if lastEpoch = epoch ∧ last ≤ cur then bigint (cur - last) else .ok 0

/-- One call of `record_traffic`. -/
structure Sample where
  (node user : Uuid)
  core : Core
  epoch : String
  (curUp curDown : ℤ)
  /-- `date_trunc('hour', now())`. -/
  hour : ℤ

def Sample.key (s : Sample) : Uuid × Uuid × Core := (s.node, s.user, s.core)

/-- `INSERT INTO node_user_traffic … ON CONFLICT … DO UPDATE`. -/
def upsertTraffic (db : Db) (s : Sample) : Except DbError (Table TrafficRow.key) := do
  match db.traffic.find? s.key with
  | none =>
    if (db.nodes.find? s.node).isNone then throw .foreignKey
    return db.traffic.put ⟨s.node, s.user, s.core, 0, 0, s.curUp, s.curDown, s.epoch⟩
  | some row =>
    let up ← bigint (row.upBytes + (← caseRise row.lastEpoch s.epoch s.curUp row.lastUp))
    let down ← bigint (row.downBytes + (← caseRise row.lastEpoch s.epoch s.curDown row.lastDown))
    return db.traffic.put ⟨row.nodeId, row.userId, row.core, up, down, s.curUp, s.curDown, s.epoch⟩

/-- `INSERT INTO traffic_usage_hourly … ON CONFLICT … DO UPDATE`. -/
def addHourly (db : Db) (s : Sample) (delta : ℤ × ℤ) : Except DbError (Table HourlyRow.key) := do
  match db.hourly.find? (s.hour, s.node, s.user, s.core) with
  | none => return db.hourly.put ⟨s.hour, s.node, s.user, s.core, delta.1, delta.2, 1⟩
  | some row =>
    let up ← bigint (row.upBytes + delta.1)
    let down ← bigint (row.downBytes + delta.2)
    let count ← bigint (row.sampleCount + 1)
    return db.hourly.put { row with upBytes := up, downBytes := down, sampleCount := count }

/-- The history is written only where something was added. -/
def recordHourly (db : Db) (s : Sample) (delta : ℤ × ℤ) : Except DbError (Table HourlyRow.key) :=
  if 0 < delta.1 ∨ 0 < delta.2 then addHourly db s delta else .ok db.hourly

/-- `up_bytes + down_bytes` of the user's rows, added up. -/
def charged (traffic : Table TrafficRow.key) (user : Uuid) : ℤ :=
  traffic.total fun r => if r.userId = user then r.upBytes + r.downBytes else 0

/-- `SELECT COALESCE(SUM(up_bytes + down_bytes), 0)`, stored as a `bigint`. -/
def sumTraffic (traffic : Table TrafficRow.key) (user : Uuid) : Except DbError ℤ :=
  if ∀ r ∈ traffic.rows, r.userId = user → InI64 (r.upBytes + r.downBytes) then
    bigint (charged traffic user)
  else .error .outOfRange

/-- `record_traffic`: the committed database, and whether the call crossed the user's limit. An error
    rolls the transaction back. -/
def recordTraffic (db : Db) (s : Sample) : Except DbError (Db × Bool) := do
  let some before := db.users.find? s.user | throw .notFound
  let previous := (db.traffic.find? s.key).map fun r => (r.lastUp, r.lastDown, r.lastEpoch)
  let delta := trafficDelta previous s.epoch s.curUp s.curDown
  let traffic ← upsertTraffic db s
  let hourly ← recordHourly db s delta
  let after ← sumTraffic traffic s.user
  let users := db.users.put { before with usedTrafficBytes := after }
  let limit := before.trafficLimitBytes
  return ({ db with traffic := traffic, hourly := hourly, users := users },
    decide (0 < limit ∧ before.usedTrafficBytes < limit ∧ limit ≤ after))

def resetUserTraffic (db : Db) (user : Uuid) : Db :=
  { db with
    traffic := db.traffic.keep (·.userId ≠ user)
    users := match db.users.find? user with
      | some u => db.users.put { u with usedTrafficBytes := 0 }
      | none => db.users }

/-- The update of a user's limit, with the check of the column. -/
def setTrafficLimit (db : Db) (user : Uuid) (limit : ℤ) : Db :=
  match db.users.find? user with
  | some u =>
    if 0 ≤ limit then { db with users := db.users.put { u with trafficLimitBytes := limit } } else db
  | none => db

/-- `delete_node`: its inbounds, interfaces, services, memberships and traffic go with it, and an
    inbound that chained to one of its inbounds loses its upstream. -/
def deleteNode (db : Db) (node : Uuid) : Db :=
  let kept := db.inbounds.keep (·.nodeId ≠ node)
  { db with
    nodes := db.nodes.keep (·.id ≠ node)
    nodeGroupMembers := db.nodeGroupMembers.filter (·.1 ≠ node)
    inbounds := ⟨kept.rows.map fun i =>
        { i with upstreamInboundId := i.upstreamInboundId.filter fun up =>
            (kept.find? up).isSome }, by
      rw [List.map_map]
      exact kept.nodup⟩
    traffic := db.traffic.keep (·.nodeId ≠ node)
    hourly := db.hourly.keep (·.nodeId ≠ node)
    wgInterfaces := db.wgInterfaces.keep (·.nodeId ≠ node)
    wgPeers := db.wgPeers.keep fun p =>
      ((db.wgInterfaces.keep (·.nodeId ≠ node)).find? p.interfaceId).isSome
    services := db.services.keep (·.nodeId ≠ node) }

/-! ### The row that a call writes -/

/-- The rise that a reading adds: none on a new epoch, none on a counter that went back. -/
def rise (lastEpoch epoch : String) (last cur : ℤ) : ℤ :=
  if lastEpoch = epoch then max 0 (cur - last) else 0

/-- The row after a call. -/
def nextRow (s : Sample) : Option TrafficRow → TrafficRow
  | none => ⟨s.node, s.user, s.core, 0, 0, s.curUp, s.curDown, s.epoch⟩
  | some r => ⟨s.node, s.user, s.core, r.upBytes + rise r.lastEpoch s.epoch r.lastUp s.curUp,
      r.downBytes + rise r.lastEpoch s.epoch r.lastDown s.curDown, s.curUp, s.curDown, s.epoch⟩

@[simp] theorem nextRow_key (s : Sample) (r : Option TrafficRow) : (nextRow s r).key = s.key := by
  cases r <;> rfl

theorem rise_nonneg (lastEpoch epoch : String) (last cur : ℤ) : 0 ≤ rise lastEpoch epoch last cur := by
  rw [rise]
  split
  · exact le_max_left 0 _
  · exact le_refl 0

theorem caseRise_ok {lastEpoch epoch : String} {cur last d : ℤ} (h : caseRise lastEpoch epoch cur last = .ok d) :
    d = rise lastEpoch epoch last cur ∧ d = if lastEpoch = epoch then checkedRise cur last else 0 := by
  rw [caseRise] at h
  rw [rise, checkedRise]
  by_cases he : lastEpoch = epoch
  · rw [if_pos he, if_pos he]
    by_cases hle : last ≤ cur
    · rw [if_pos ⟨he, hle⟩, bigint_eq_ok] at h
      rw [if_pos ⟨h.1, by omega⟩, max_eq_right (by omega)]
      exact ⟨h.2, h.2⟩
    · rw [if_neg (fun hc => hle hc.2)] at h
      rw [if_neg (fun hc => by omega), max_eq_left (by omega)]
      exact ⟨(ok.inj h).symm, (ok.inj h).symm⟩
  · rw [if_neg (fun hc => he hc.1)] at h
    rw [if_neg he, if_neg he]
    exact ⟨(ok.inj h).symm, (ok.inj h).symm⟩

/-- The row that the upsert writes. -/
def upsertRow (db : Db) (s : Sample) : Except DbError TrafficRow := do
  match db.traffic.find? s.key with
  | none =>
    if (db.nodes.find? s.node).isNone then throw .foreignKey
    return ⟨s.node, s.user, s.core, 0, 0, s.curUp, s.curDown, s.epoch⟩
  | some row =>
    let up ← bigint (row.upBytes + (← caseRise row.lastEpoch s.epoch s.curUp row.lastUp))
    let down ← bigint (row.downBytes + (← caseRise row.lastEpoch s.epoch s.curDown row.lastDown))
    return ⟨row.nodeId, row.userId, row.core, up, down, s.curUp, s.curDown, s.epoch⟩

theorem upsertTraffic_eq (db : Db) (s : Sample) : upsertTraffic db s = (upsertRow db s).map db.traffic.put := by
  rw [upsertTraffic, upsertRow]
  cases db.traffic.find? s.key with
  | none =>
    dsimp only
    split <;> rfl
  | some row =>
    simp only [map_bind]
    rfl

variable {db : Db} {s : Sample} {row : TrafficRow}

/-- The bytes of a row, or none. -/
def Db.bytes (db : Db) (k : Uuid × Uuid × Core) : ℤ × ℤ :=
  ((db.traffic.find? k).elim 0 (·.upBytes), (db.traffic.find? k).elim 0 (·.downBytes))

/-- What is computed from the previous row, before the upsert. -/
def Sample.delta (s : Sample) (previous : Option TrafficRow) : ℤ × ℤ :=
  trafficDelta (previous.map fun r => (r.lastUp, r.lastDown, r.lastEpoch)) s.epoch s.curUp s.curDown

/-- The increment that is written to the history is the one that the upsert adds to the row. -/
theorem upsertRow_ok (h : upsertRow db s = .ok row) : row = nextRow s (db.traffic.find? s.key) ∧
    s.delta (db.traffic.find? s.key) = (row.upBytes, row.downBytes) - db.bytes s.key := by
  rw [upsertRow] at h
  rw [Db.bytes]
  rcases hf : db.traffic.find? s.key with _ | old
  · simp only [hf] at h
    split at h
    · cases h
    · obtain rfl := ok.inj h
      exact ⟨rfl, rfl⟩
  simp only [hf, bind_eq_ok] at h
  obtain ⟨d, hd, up, hup, d', hd', down, hdown, h⟩ := h
  obtain ⟨-, rfl⟩ := bigint_eq_ok.mp hup
  obtain ⟨-, rfl⟩ := bigint_eq_ok.mp hdown
  obtain ⟨-, hkey⟩ := find?_eq_some.mp hf
  simp only [TrafficRow.key, Sample.key, Prod.mk.injEq] at hkey
  obtain ⟨hnode, huser, hcore⟩ := hkey
  obtain ⟨hup, hchecked⟩ := caseRise_ok hd
  obtain ⟨hdown, hchecked'⟩ := caseRise_ok hd'
  rw [← ok.inj h]
  constructor
  · rw [hup, hdown, hnode, huser, hcore]
    rfl
  · by_cases he : old.lastEpoch = s.epoch <;> simp [Sample.delta, trafficDelta, he, hchecked, hchecked']

theorem upsertTraffic_ok {traffic : Table TrafficRow.key} (h : upsertTraffic db s = .ok traffic) :
    traffic = db.traffic.put (nextRow s (db.traffic.find? s.key)) := by
  rw [upsertTraffic_eq, map_eq_ok] at h
  obtain ⟨row, hrow, rfl⟩ := h
  rw [(upsertRow_ok hrow).1]

/-! ### What a call adds to the history -/

/-- The row of the history that a call writes, if it writes one. -/
def hourlyRow (db : Db) (s : Sample) (delta : ℤ × ℤ) : Except DbError (Option HourlyRow) :=
  if 0 < delta.1 ∨ 0 < delta.2 then
    match db.hourly.find? (s.hour, s.key) with
    | none => return some ⟨s.hour, s.node, s.user, s.core, delta.1, delta.2, 1⟩
    | some row => do
        let up ← bigint (row.upBytes + delta.1)
        let down ← bigint (row.downBytes + delta.2)
        let count ← bigint (row.sampleCount + 1)
        return some { row with upBytes := up, downBytes := down, sampleCount := count }
  else .ok none

theorem recordHourly_eq (db : Db) (s : Sample) (delta : ℤ × ℤ) :
    recordHourly db s delta = (hourlyRow db s delta).map fun row => row.elim db.hourly db.hourly.put := by
  rw [recordHourly, hourlyRow]
  split
  · change (match db.hourly.find? (s.hour, s.key) with | none => _ | some row => _) = _
    cases db.hourly.find? (s.hour, s.key) with
    | none => rfl
    | some row =>
      simp only [map_bind]
      rfl
  · rfl

theorem delta_nonneg (h : upsertRow db s = .ok row) :
    0 ≤ (s.delta (db.traffic.find? s.key)).1 ∧ 0 ≤ (s.delta (db.traffic.find? s.key)).2 := by
  rw [(upsertRow_ok h).2, (upsertRow_ok h).1, Db.bytes]
  rcases db.traffic.find? s.key with _ | old
  · exact ⟨le_refl 0, le_refl 0⟩
  · simp [nextRow, rise_nonneg]

theorem hourlyRow_ok {delta : ℤ × ℤ} {row : HourlyRow} (h : hourlyRow db s delta = .ok (some row)) :
    row.key = (s.hour, s.key) ∧ row.upBytes = (db.hourly.find? (s.hour, s.key)).elim 0 (·.upBytes) + delta.1 ∧
      row.downBytes = (db.hourly.find? (s.hour, s.key)).elim 0 (·.downBytes) + delta.2 := by
  rw [hourlyRow] at h
  split at h
  swap
  · cases h
  rcases hf : db.hourly.find? (s.hour, s.key) with _ | old
  · simp only [hf] at h
    obtain rfl := Option.some.inj (ok.inj h)
    exact ⟨rfl, (zero_add _).symm, (zero_add _).symm⟩
  simp only [hf, bind_eq_ok] at h
  obtain ⟨up, hup, down, hdown, count, -, h⟩ := h
  obtain ⟨-, rfl⟩ := bigint_eq_ok.mp hup
  obtain ⟨-, rfl⟩ := bigint_eq_ok.mp hdown
  obtain rfl := Option.some.inj (ok.inj h)
  exact ⟨(find?_eq_some.mp hf).2, rfl, rfl⟩

theorem hourlyRow_none {delta : ℤ × ℤ} (h : hourlyRow db s delta = .ok none) : delta.1 ≤ 0 ∧ delta.2 ≤ 0 := by
  rw [hourlyRow] at h
  split at h
  · split at h
    · cases h
    · simp only [bind_eq_ok] at h
      obtain ⟨up, -, down, -, count, -, h⟩ := h
      cases h
  · rename_i hnot
    simpa only [not_or, not_lt] using hnot

/-! ### What a call commits -/

/-- Everything a successful call does: the row, the hourly history, the user's total, and the answer
    whether the limit was crossed. -/
theorem recordTraffic_ok {db' : Db} {crossed : Bool} (h : recordTraffic db s = .ok (db', crossed)) :
    ∃ u hourly, db.users.find? s.user = some u ∧ db' = { db with
        traffic := db.traffic.put (nextRow s (db.traffic.find? s.key))
        hourly := hourly
        users := db.users.put { u with
          usedTrafficBytes := charged (db.traffic.put (nextRow s (db.traffic.find? s.key))) s.user } } ∧
      crossed = decide (0 < u.trafficLimitBytes ∧ u.usedTrafficBytes < u.trafficLimitBytes ∧ u.trafficLimitBytes ≤
          charged (db.traffic.put (nextRow s (db.traffic.find? s.key))) s.user) := by
  rw [recordTraffic] at h
  rcases hu : db.users.find? s.user with _ | u
  · simp only [hu] at h
    cases h
  simp only [hu, bind_eq_ok] at h
  obtain ⟨traffic, ht, hourly, -, after, hafter, h⟩ := h
  have htraffic := upsertTraffic_ok ht
  subst htraffic
  rw [sumTraffic] at hafter
  split at hafter
  · obtain ⟨-, rfl⟩ := bigint_eq_ok.mp hafter
    obtain ⟨rfl, rfl⟩ := Prod.mk.inj (ok.inj h)
    exact ⟨u, hourly, rfl, rfl, rfl⟩
  · cases hafter

/-- What a call adds to the row of its key. -/
def added (s : Sample) : Option TrafficRow → ℤ
  | none => 0
  | some r => rise r.lastEpoch s.epoch r.lastUp s.curUp + rise r.lastEpoch s.epoch r.lastDown s.curDown

theorem added_nonneg (s : Sample) (r : Option TrafficRow) : 0 ≤ added s r := by
  cases r with
  | none => exact le_refl 0
  | some r => exact add_nonneg (rise_nonneg ..) (rise_nonneg ..)

theorem charged_put (t : Table TrafficRow.key) (s : Sample) (user : Uuid) :
    charged (t.put (nextRow s (t.find? s.key))) user =
      charged t user + if s.user = user then added s (t.find? s.key) else 0 := by
  have htotal := t.total_put (nextRow s (t.find? s.key)) fun r =>
    if r.userId = user then r.upBytes + r.downBytes else 0
  rw [nextRow_key] at htotal
  rcases hf : t.find? s.key with _ | r
  · rw [hf] at htotal
    have h : charged (t.put (nextRow s none)) user + 0 = charged t user + if s.user = user then 0 + 0 else 0 := htotal
    simpa [added] using h
  obtain ⟨-, hkey⟩ := find?_eq_some.mp hf
  simp only [TrafficRow.key, Sample.key, Prod.mk.injEq] at hkey
  rw [hf] at htotal
  have h : charged (t.put (nextRow s (some r))) user + (if r.userId = user then r.upBytes + r.downBytes else 0) =
      charged t user + if s.user = user then (nextRow s (some r)).upBytes +
        (nextRow s (some r)).downBytes else 0 := htotal
  rw [hkey.2.1] at h
  by_cases huser : s.user = user
  · rw [if_pos huser, if_pos huser] at h
    simp only [nextRow] at h
    rw [if_pos huser, added]
    simp only [nextRow]
    linarith
  · rw [if_neg huser, if_neg huser] at h
    rw [if_neg huser]
    linarith

section

variable {db' : Db} {crossed : Bool} (h : recordTraffic db s = .ok (db', crossed))
include h

theorem record_row (k : Uuid × Uuid × Core) : db'.traffic.find? k =
    if k = s.key then some (nextRow s (db.traffic.find? s.key)) else db.traffic.find? k := by
  obtain ⟨u, -, -, rfl, -⟩ := recordTraffic_ok h
  simp [find?_put]

theorem record_charged (user : Uuid) : charged db'.traffic user =
    charged db.traffic user + if s.user = user then added s (db.traffic.find? s.key) else 0 := by
  obtain ⟨u, -, -, rfl, -⟩ := recordTraffic_ok h
  exact charged_put db.traffic s user

end

/-- The user's stored total. -/
def usedIn (users : Table User.id) (user : Uuid) : ℤ :=
  ((users.find? user).map (·.usedTrafficBytes)).getD 0

theorem usedIn_put (users : Table User.id) (u : User) (user : Uuid) :
    usedIn (users.put u) user = if user = u.id then u.usedTrafficBytes else usedIn users user := by
  rw [usedIn]
  split
  · rename_i h
    rw [h, find?_put_self]
    rfl
  · rename_i h
    rw [find?_put_of_ne h]
    rfl

theorem usedIn_find {users : Table User.id} {u : User} {user : Uuid}
    (h : users.find? user = some u) : usedIn users user = u.usedTrafficBytes := by
  rw [usedIn, h]
  rfl

def Db.used (db : Db) (user : Uuid) : ℤ := usedIn db.users user

theorem record_charges {db' : Db} {crossed : Bool} (h : recordTraffic db s = .ok (db', crossed)) (user : Uuid) :
    db'.used user = if user = s.user then charged db'.traffic user else db.used user := by
  obtain ⟨u, -, hu, rfl, -⟩ := recordTraffic_ok h
  obtain ⟨-, huid⟩ := find?_eq_some.mp hu
  rw [Db.used, usedIn_put]
  simp only [huid]
  split
  · rename_i huser
    rw [huser]
  · rfl

/-! ### Whole runs: totals only grow -/

/-- The operations that touch a user's total. -/
inductive TrafficOp where
  | record (s : Sample)
  | reset (user : Uuid)
  | setLimit (user : Uuid) (limit : ℤ)
  | deleteNode (node : Uuid)

def Db.apply (db : Db) : TrafficOp → Db
  | .record s => match recordTraffic db s with
    | .ok (db', _) => db'
    | .error _ => db
  | .reset user => resetUserTraffic db user
  | .setLimit user limit => setTrafficLimit db user limit
  | .deleteNode node => deleteNode db node

/-- Nobody's total falls but by a reset of its own, and a recording reports exactly the call that takes
    its user from below the limit in force to the limit or beyond. -/
structure Keeps (db : Db) (op : TrafficOp) : Prop where
  grows : ∀ user, op ≠ .reset user → db.used user ≤ (db.apply op).used user
  crossing : ∀ s, op = .record s → ∀ db' crossed, recordTraffic db s = .ok (db', crossed) →
    (crossed = true ↔ ∃ u, db.users.find? s.user = some u ∧ 0 < u.trafficLimitBytes ∧
      db.used s.user < u.trafficLimitBytes ∧ u.trafficLimitBytes ≤ db'.used s.user)

/-- A deletion of a node takes no charged bytes with it. -/
def Harmless (db : Db) : TrafficOp → Prop
  | .deleteNode node => ∀ r ∈ db.traffic.rows, r.nodeId = node → r.upBytes = 0 ∧ r.downBytes = 0
  | _ => True

/-- No user has a total beyond what its rows say. -/
def Db.Covered (db : Db) : Prop := ∀ user, db.used user ≤ charged db.traffic user

theorem charged_keep (t : Table TrafficRow.key) (p : TrafficRow → Bool) (user : Uuid)
    (h : ∀ r ∈ t.rows, p r = false → r.userId = user → r.upBytes + r.downBytes = 0) :
    charged (t.keep p) user = charged t user := by
  rw [charged, total_keep]
  refine total_congr fun r hr => ?_
  by_cases hp : p r = true
  · rw [if_pos hp]
  · by_cases hu : r.userId = user
    · rw [if_neg hp, if_pos hu, h r hr (by simpa using hp) hu]
    · rw [if_neg hp, if_neg hu]

theorem charged_reset (t : Table TrafficRow.key) (user : Uuid) : charged (t.keep (·.userId ≠ user)) user = 0 := by
  rw [charged, total_keep]
  refine (total_congr fun r _ => ?_).trans (t.total_zero)
  by_cases hu : r.userId = user <;> simp [hu]

theorem used_reset (db : Db) (user other : Uuid) :
    (resetUserTraffic db user).used other = if other = user then 0 else db.used other := by
  rcases hu : db.users.find? user with _ | u
  · have husers : (resetUserTraffic db user).users = db.users := by
      simp [resetUserTraffic, hu]
    rw [Db.used, husers]
    split
    · rename_i h
      rw [h, usedIn, hu]
      rfl
    · rfl
  · obtain ⟨-, huid⟩ := find?_eq_some.mp hu
    have husers : (resetUserTraffic db user).users = db.users.put { u with usedTrafficBytes := 0 } := by
      simp [resetUserTraffic, hu]
    rw [Db.used, husers, usedIn_put]
    simp only [huid]
    rfl

theorem used_setLimit (db : Db) (user other : Uuid) (limit : ℤ) :
    (setTrafficLimit db user limit).used other = db.used other := by
  rw [setTrafficLimit]
  rcases hu : db.users.find? user with _ | u
  · rfl
  obtain ⟨-, huid⟩ := find?_eq_some.mp hu
  by_cases hl : 0 ≤ limit
  · simp only [if_pos hl, Db.used]
    rw [usedIn_put]
    split
    · rename_i h
      rw [h, huid, usedIn_find hu]
    · rfl
  · simp [if_neg hl]

theorem traffic_setLimit (db : Db) (user : Uuid) (limit : ℤ) :
    (setTrafficLimit db user limit).traffic = db.traffic := by
  rw [setTrafficLimit]
  split
  · split <;> rfl
  · rfl

theorem covered_step (db : Db) (op : TrafficOp) (hc : db.Covered) (ho : Harmless db op) : (db.apply op).Covered := by
  intro user
  have huser := hc user
  cases op with
  | record s =>
    rw [Db.apply]
    rcases hr : recordTraffic db s with _ | ⟨db', crossed⟩
    · exact huser
    have hadd := added_nonneg s (db.traffic.find? s.key)
    simp only [record_charges hr user]
    split
    · exact le_refl _
    · rw [record_charged hr]
      split <;> linarith
  | reset other =>
    rw [Db.apply, used_reset]
    split
    · rename_i h
      rw [h]
      exact (charged_reset db.traffic other).ge
    · rename_i h
      refine huser.trans (charged_keep db.traffic _ user fun r _ hp hr => ?_).ge
      exact absurd (hr.symm.trans (by simpa using hp)) h
  | setLimit other limit =>
    rw [Db.apply, used_setLimit, traffic_setLimit]
    exact huser
  | deleteNode node =>
    refine huser.trans (charged_keep db.traffic _ user fun r hr hp _ => ?_).ge
    obtain ⟨hup, hdown⟩ := ho r hr (by simpa using hp)
    rw [hup, hdown, add_zero]

/-- No row is negative, and no user's rows say more than its total. -/
structure Db.Settled (db : Db) : Prop where
  nonneg : ∀ r ∈ db.traffic.rows, 0 ≤ r.upBytes ∧ 0 ≤ r.downBytes
  charged_le : ∀ user, charged db.traffic user ≤ db.used user

theorem charged_keep_le {t : Table TrafficRow.key}
    (h : ∀ r ∈ t.rows, 0 ≤ r.upBytes ∧ 0 ≤ r.downBytes) (p : TrafficRow → Bool) (user : Uuid) :
    charged (t.keep p) user ≤ charged t user := by
  rw [charged, total_keep]
  refine total_mono fun r hr => ?_
  have := h r hr
  split <;> split <;> omega

theorem nextRow_nonneg {t : Table TrafficRow.key} (h : ∀ r ∈ t.rows, 0 ≤ r.upBytes ∧ 0 ≤ r.downBytes) (s : Sample) :
    0 ≤ (nextRow s (t.find? s.key)).upBytes ∧ 0 ≤ (nextRow s (t.find? s.key)).downBytes := by
  rcases hf : t.find? s.key with _ | r
  · exact ⟨le_refl 0, le_refl 0⟩
  · have hr := h r (find?_eq_some.mp hf).1
    exact ⟨add_nonneg hr.1 (rise_nonneg ..), add_nonneg hr.2 (rise_nonneg ..)⟩

/-- Unlike `Covered`, this is kept by every operation: what a deletion takes from the rows stays in the
    total until the next recording. -/
theorem settled_step (db : Db) (op : TrafficOp) (hs : db.Settled) : (db.apply op).Settled := by
  obtain ⟨hnonneg, hle⟩ := hs
  cases op with
  | record s =>
    rw [Db.apply]
    rcases hr : recordTraffic db s with _ | ⟨db', crossed⟩
    · exact ⟨hnonneg, hle⟩
    have hused := record_charges hr
    obtain ⟨u, hourly, -, rfl, -⟩ := recordTraffic_ok hr
    refine ⟨forall_put (nextRow_nonneg hnonneg s) hnonneg, fun user => ?_⟩
    have huser := hused user
    simp only at huser ⊢
    rw [huser]
    split
    · exact le_refl _
    · rename_i h
      rw [charged_put, if_neg (Ne.symm h), add_zero]
      exact hle user
  | reset other =>
    refine ⟨fun r hr => hnonneg r (mem_keep.mp hr).1, fun user => ?_⟩
    rw [Db.apply, used_reset]
    split
    · rename_i h
      rw [h]
      exact (charged_reset db.traffic other).le
    · exact (charged_keep_le hnonneg _ user).trans (hle user)
  | setLimit other limit =>
    have htraffic := traffic_setLimit db other limit
    refine ⟨fun r hr => hnonneg r (by rw [Db.apply, htraffic] at hr; exact hr), fun user => ?_⟩
    rw [Db.apply, used_setLimit, htraffic]
    exact hle user
  | deleteNode node =>
    refine ⟨fun r hr => hnonneg r (mem_keep.mp hr).1, fun user => ?_⟩
    exact (charged_keep_le hnonneg _ user).trans (hle user)

/-- In every run the rows stay within the totals. -/
theorem settled_run (db : Db) (hs : db.Settled) (ops : List TrafficOp) :
    (ops.foldl Db.apply db).Settled := inv_foldl settled_step ops db hs

theorem keeps_step (db : Db) (op : TrafficOp) (hc : db.Covered) (_ : Harmless db op) : Keeps db op := by
  constructor
  · intro user hop
    cases op with
    | record s =>
      rw [Db.apply]
      rcases hr : recordTraffic db s with _ | ⟨db', crossed⟩
      · exact le_refl _
      have hadd := added_nonneg s (db.traffic.find? s.key)
      simp only [record_charges hr user]
      split
      · rename_i h
        rw [record_charged hr, if_pos h.symm]
        linarith [hc user]
      · exact le_refl _
    | reset other =>
      have hne : user ≠ other := fun h => hop (by rw [h])
      rw [Db.apply, used_reset, if_neg hne]
    | setLimit other limit =>
      rw [Db.apply, used_setLimit]
    | deleteNode node => exact le_refl _
  · rintro s rfl db' crossed hr
    have hused := record_charges hr s.user
    obtain ⟨u, hourly, hu, rfl, rfl⟩ := recordTraffic_ok hr
    rw [if_pos rfl] at hused
    rw [hused, Db.used, usedIn_find hu, decide_eq_true_iff]
    constructor
    · intro h
      exact ⟨u, hu, h⟩
    · rintro ⟨u', hu', h⟩
      obtain rfl : u = u' := Option.some.inj (hu.symm.trans hu')
      exact h

/-- In every run whose node deletions take no charged bytes along, a user's total falls only by a reset
    of its own, and the limit crossings are reported where they happen. -/
theorem totals_only_grow (db : Db) (hc : db.Covered) (ops : List TrafficOp)
    (h : Always Db.apply Harmless db ops) : Always Db.apply Keeps db ops :=
  always_of_inv covered_step keeps_step ops db hc h

/-- One user, two nodes, nothing recorded. -/
def twoNodes : Db :=
  { Db.initial with
    nodes := Table.empty.put ⟨1, "a", "192.0.2.1", true, false, none, none, none⟩ |>.put
      ⟨2, "b", "192.0.2.2", true, false, none, none, none⟩
    users := Table.empty.put ⟨7, "alice", "u", "p", true, 50, 0, none⟩ }

theorem twoNodes_covered : twoNodes.Covered := by
  intro user
  rw [Db.used, twoNodes, usedIn_put]
  split
  · exact le_refl 0
  · exact le_refl 0

theorem twoNodes_totals_only_grow : Always Db.apply Keeps twoNodes
      [.record ⟨1, 7, .singbox, "e", 0, 0, 0⟩, .record ⟨1, 7, .singbox, "e", 60, 40, 0⟩,
       .setLimit 7 500, .deleteNode 2, .reset 7] := by
  refine totals_only_grow twoNodes twoNodes_covered _ ⟨trivial, trivial, trivial, ?_, trivial, trivial⟩
  show ∀ r ∈ _, _
  decide

/-- 100 bytes are recorded on one node, the node is deleted, and the first sample of another node
    recomputes the total without them. -/
theorem deleted_node_takes_bytes :
    let ops : List TrafficOp := [.record ⟨1, 7, .singbox, "e", 0, 0, 0⟩,
      .record ⟨1, 7, .singbox, "e", 60, 40, 0⟩, .deleteNode 1]
    let db := ops.foldl Db.apply twoNodes
    db.used 7 = 100 ∧ (db.apply (.record ⟨2, 7, .singbox, "f", 0, 0, 0⟩)).used 7 = 0 ∧
      ¬ Keeps db (.record ⟨2, 7, .singbox, "f", 0, 0, 0⟩) := by
  refine ⟨by decide, by decide, fun h => ?_⟩
  have hgrows := h.grows 7 (by simp)
  revert hgrows
  decide

theorem twoNodes_settled : ([.record ⟨1, 7, .xray, "e", 0, 0, 0⟩, .record ⟨1, 7, .xray, "e", 60, 40, 0⟩,
    .deleteNode 1].foldl Db.apply twoNodes).Settled :=
  settled_run _ ⟨by simp [twoNodes, Db.initial, empty],
    fun u => by rw [Db.used, twoNodes, usedIn_put]; split <;> exact le_rfl⟩ _

/-! ### Readings of one counter, in the order they arrive -/

/-- A reading of the two counters of one (node, user, core), and the hour it arrives in. -/
structure Reading where
  (up down hour : ℤ)

/-- Record readings one after the other, each in its own transaction, and keep those that were recorded. -/
def recordAll (node user : Uuid) (core : Core) (epoch : String) (db : Db) : List Reading → Db × List Reading
  | [] => (db, [])
  | r :: rs => match recordTraffic db ⟨node, user, core, epoch, r.up, r.down, r.hour⟩ with
    | .ok (db', _) =>
      let (db'', recorded) := recordAll node user core epoch db' rs
      (db'', r :: recorded)
    | .error _ => recordAll node user core epoch db rs

section Readings

variable (node user : Uuid) (core : Core) (epoch : String)

/-- Bytes charged to one row so far. -/
def Db.rowBytes (db : Db) : ℤ × ℤ :=
  ((db.traffic.find? (node, user, core)).map fun r => (r.upBytes, r.downBytes)).getD (0, 0)

/-- What a sequence of recorded readings adds to its row: the sum of the rises from each reading to the next. -/
theorem recordAll_row : ∀ (rs : List Reading) (db : Db) (row : TrafficRow),
    db.traffic.find? (node, user, core) = some row → row.lastEpoch = epoch →
    (recordAll node user core epoch db rs).1.rowBytes node user core =
      (row.upBytes + rises row.lastUp ((recordAll node user core epoch db rs).2.map (·.up)),
       row.downBytes + rises row.lastDown ((recordAll node user core epoch db rs).2.map (·.down)))
  | [], db, row, hrow, _ => by simp [recordAll, Db.rowBytes, hrow, rises]
  | r :: rs, db, row, hrow, hepoch => by
    rw [recordAll]
    rcases hr : recordTraffic db ⟨node, user, core, epoch, r.up, r.down, r.hour⟩ with _ | ⟨db', b⟩
    · exact recordAll_row rs db row hrow hepoch
    have hnext := (record_row hr _).trans (if_pos rfl)
    simp only [Sample.key, hrow] at hnext
    have ih := recordAll_row rs db' _ hnext rfl
    simp only [ih, List.map_cons, rises, nextRow, rise, if_pos hepoch]
    ring_nf

/-- From a row that is new, or was left by another epoch, the first recorded reading is a baseline. -/
theorem recordAll_first (db : Db)
    (hnew : ∀ row, db.traffic.find? (node, user, core) = some row → row.lastEpoch ≠ epoch) :
    ∀ (rs : List Reading) (first : Reading) (rest : List Reading),
      (recordAll node user core epoch db rs).2 = first :: rest →
      (recordAll node user core epoch db rs).1.rowBytes node user core =
        ((db.rowBytes node user core).1 + rises first.up (rest.map (·.up)),
         (db.rowBytes node user core).2 + rises first.down (rest.map (·.down)))
  | [], _, _, h => by cases h
  | r :: rs, first, rest, h => by
    rw [recordAll] at h ⊢
    rcases hr : recordTraffic db ⟨node, user, core, epoch, r.up, r.down, r.hour⟩ with _ | ⟨db', b⟩
    · rw [hr] at h
      exact recordAll_first db hnew rs first rest h
    rw [hr] at h
    obtain ⟨rfl, rfl⟩ := List.cons.inj h
    have hnext : db'.traffic.find? (node, user, core) =
        some ⟨node, user, core, (db.rowBytes node user core).1, (db.rowBytes node user core).2,
          r.up, r.down, epoch⟩ := by
      refine ((record_row hr _).trans (if_pos rfl)).trans ?_
      simp only [Sample.key]
      rcases hrow : db.traffic.find? (node, user, core) with _ | row
      · simp [nextRow, Db.rowBytes, hrow]
      · simp [nextRow, Db.rowBytes, hrow, rise, hnew row hrow]
    exact recordAll_row node user core epoch rs db' _ hnext rfl

/-- Whatever collectors the readings come from: what they add to a direction stays within the distance from the first
    recorded reading to the highest one exactly if, in the order in which they are recorded, no rise follows a drop. -/
theorem readings_bounded_iff (db : Db)
    (hnew : ∀ row, db.traffic.find? (node, user, core) = some row → row.lastEpoch ≠ epoch)
    (rs : List Reading) (first : Reading) (rest : List Reading)
    (hrec : (recordAll node user core epoch db rs).2 = first :: rest) :
    (((recordAll node user core epoch db rs).1.rowBytes node user core).1 -
        (db.rowBytes node user core).1 ≤ peak first.up (rest.map (·.up)) - first.up ↔
      RisesThenFalls first.up (rest.map (·.up))) ∧
    (((recordAll node user core epoch db rs).1.rowBytes node user core).2 -
        (db.rowBytes node user core).2 ≤ peak first.down (rest.map (·.down)) - first.down ↔
      RisesThenFalls first.down (rest.map (·.down))) := by
  rw [recordAll_first node user core epoch db hnew rs first rest hrec]
  constructor
  · rw [← rises_le_iff, add_sub_cancel_left]
  · rw [← rises_le_iff, add_sub_cancel_left]

end Readings

theorem rising_readings_bounded :
    ((recordAll 1 7 .singbox "e" twoNodes [⟨3, 0, 0⟩, ⟨7, 1, 0⟩, ⟨9, 1, 0⟩]).1.rowBytes 1 7 .singbox).1 -
      (twoNodes.rowBytes 1 7 .singbox).1 ≤ peak 3 [7, 9] - 3 :=
  (readings_bounded_iff 1 7 .singbox "e" twoNodes (fun _ h => by cases h)
    [⟨3, 0, 0⟩, ⟨7, 1, 0⟩, ⟨9, 1, 0⟩] ⟨3, 0, 0⟩ [⟨7, 1, 0⟩, ⟨9, 1, 0⟩] rfl).1.mpr (by decide)

/-- A counter moves from 0 to 10. One collector reports 0 and 10; the reading 5 of another one arrives
    late, and a second report of 10 follows: 15 bytes are added. -/
theorem late_reading_counted_twice :
    let readings : List Reading := [⟨0, 0, 0⟩, ⟨10, 0, 0⟩, ⟨5, 0, 0⟩, ⟨10, 0, 0⟩]
    let run := recordAll 1 7 .singbox "e" twoNodes readings
    run.2 = readings ∧ run.1.rowBytes 1 7 .singbox = (15, 0) ∧
      twoNodes.rowBytes 1 7 .singbox = (0, 0) ∧ ¬ (15 - 0 : ℤ) ≤ peak 0 [10, 5, 10] - 0 := by
  exact ⟨rfl, by decide, by decide, by decide⟩

end Honey.Master
