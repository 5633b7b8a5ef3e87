import Honey.Agent.Accounting
import Honey.Master.Traffic
import Honey.Schemes.Meter

/-! From the wire to the bill: a node with sing-box inbounds only, its agent, the samples on the way and
    the database of the master, as one machine.

        connections --poll--> accumulator --setCounters--> store --save--> file
             |                     |                         restart <------+
             v moved               v deliver
        what users               queue --record--> rows, used_traffic_bytes
        transferred                    --lose--->

    The agent may crash at any point and goes back to the file, samples may be lost, counters may wrap: no user is
    charged more than it transferred, in either direction (`bill_le_moved`). What the seams have in common is
    `Honey.Schemes.Accounted`, one for each user and direction. -/

namespace Honey
open Schemes Agent Master List Option Table UInt64 Counters

/-- The value of one direction out of two. -/
def Agent.Direction.pick {α : Type} (d : Direction) (up down : α) : α :=
  match d with
  | .uplink => up
  | .downlink => down

def getUserByName (db : Db) (name : String) : Option User := db.users.rows.find? (·.username = name)

/-- The body of the loop of `subscribe` for one sample of the core `singbox`: what is committed, and
    whether a user crossed its limit. An error (`none`) ends the stream. -/
def recordSample (node : Uuid) (epoch : String) (hour : ℤ) : Db → List UserTraffic → Db × Option Bool
  | db, [] => (db, some false)
  | db, u :: us => match getUserByName db u.name with
    | none => recordSample node epoch hour db us
    | some user =>
      if 2 ^ 63 ≤ u.up.toNat ∨ 2 ^ 63 ≤ u.down.toNat then (db, none)
      else match recordTraffic db ⟨node, user.id, .singbox, epoch, u.up.toNat, u.down.toNat, hour⟩ with
        | .error _ => (db, none)
        | .ok (db', crossed) =>
          let (db'', rest) := recordSample node epoch hour db' us
          (db'', rest.map (crossed || ·))

/-- The machine. `opened` lists every connection id there ever was, `moved` what users really transferred. -/
structure Net where
  agent : Process
  conns : Table Conn.id
  opened : List String
  moved : String → Direction → ℕ
  queue : List StatSample
  db : Db

/-- A node's first start, with whatever file it finds. -/
def Net.start (disk : Option Store) (random : Option (Fin 16 → UInt8)) (db : Db) : Net where
  agent := Process.boot disk random GoMap.empty
  conns := empty
  opened := []
  moved := fun _ _ => 0
  queue := []
  db := db

/-- What can happen. A tick of `accountingLoop` is `poll`, `setCounters` and sometimes `save`;
    `restart` follows a crash or a shutdown at any point. -/
inductive NetEv where
  | connect (id user : String)
  | transfer (id : String) (up down : UInt64)
  | close (id : String)
  | restartCore
  | poll (snapshot : Option Snapshot) (now : ℤ)
  | setCounters
  | save
  | restart (random : Option (Fin 16 → UInt8))
  | deliver (now : ℤ)
  | lose
  | record (hour : ℤ)

/-- One event. An event that cannot happen (an id used twice, a counter past its end, a snapshot of
    other connections than the live ones) changes nothing. -/
def Net.step (node : Uuid) (n : Net) (e : NetEv × Choice) : Net :=
  match e.1 with
  | .connect id user =>
    if id ∈ n.opened then n
    else { n with conns := n.conns.put ⟨id, user, 0, 0⟩, opened := id :: n.opened }
  | .transfer id up down => match n.conns.find? id with
    | none => n
    | some c =>
      if c.up.toNat + up.toNat < 2 ^ 64 ∧ c.down.toNat + down.toNat < 2 ^ 64 then
        { n with
          conns := n.conns.put { c with up := c.up + up, down := c.down + down }
          moved := fun name d =>
            if name = c.user then n.moved name d + (d.pick up down).toNat else n.moved name d }
      else n
  | .close id => { n with conns := n.conns.keep (·.id ≠ id) }
  | .restartCore => { n with conns := empty }
  | .poll snapshot now =>
    if snapshot.all fun s => s.conns.isPerm n.conns.rows then
      { n with agent := (n.agent.step (.pollSingbox snapshot now, e.2)).1 }
    else n
  | .setCounters => { n with agent := (n.agent.step (.setCounters, e.2)).1 }
  | .save => { n with agent := (n.agent.step (.save, e.2)).1 }
  | .restart random =>
    { n with agent := (n.agent.step (.restart random, e.2)).1, conns := empty }
  | .deliver now =>
    let (agent, sample) := n.agent.step (.deliver now, e.2)
    { n with agent := agent, queue := n.queue ++ sample.toList.map (·.2) }
  | .lose => { n with queue := n.queue.tail }
  | .record hour => match n.queue with
    | [] => n
    | s :: queue =>
      let epoch := if s.epoch = "" then "legacy" else s.epoch
      { n with queue := queue, db := (recordSample node epoch hour n.db s.users).1 }

/-! ### One user, one direction -/

section Views

variable (d : Direction) (name : String)

def Agent.Conn.bytes (c : Conn) : UInt64 := d.pick c.up c.down

def Agent.UserTraffic.bytes (u : UserTraffic) : UInt64 := d.pick u.up u.down

def Agent.Counters.bytes (c : Counters) : ℤ := ((d.pick c.up c.down).get name).toNat

/-- What the accumulator has seen of a connection. -/
def Agent.TrafficState.seen (st : TrafficState) (id : String) : UInt64 :=
  (d.pick st.connUp st.connDown).get id

/-- The bytes of the user's live connections that no poll has seen. -/
def unseen (st : TrafficState) (conns : Table Conn.id) : ℤ :=
  conns.total fun c => if c.user = name then ((c.bytes d).toNat : ℤ) - (st.seen d c.id).toNat else 0

/-- The user's values in a sample, as far as the master can read them. -/
def readable (us : List UserTraffic) : List ℤ :=
  us.filterMap fun u =>
    if u.name = name ∧ (u.bytes d).toNat < 2 ^ 63 then some ((u.bytes d).toNat : ℤ) else none

def onTheWay (queue : List StatSample) : List ℤ := queue.flatMap fun s => readable d name s.users

/-- The counters in the file. -/
def Agent.Process.saved (a : Process) : Counters := (a.disk.getD ⟨"", GoMap.empty⟩).counters

/-- The bytes the user was charged on the node. -/
def Master.Db.billed (db : Db) (node user : Uuid) : ℤ :=
  d.pick (db.rowBytes node user .singbox).1 (db.rowBytes node user .singbox).2

/-- The last reading of the user on the node. -/
def Master.Db.baseline (db : Db) (node user : Uuid) : Option ℤ :=
  (db.traffic.find? (node, user, .singbox)).map fun r => d.pick r.lastUp r.lastDown

end Views

theorem bytes_range (d : Direction) (name : String) (c : Counters) :
    0 ≤ c.bytes d name ∧ c.bytes d name < 2 * 2 ^ 63 := by
  have := toNat_lt ((d.pick c.up c.down).get name)
  rw [Counters.bytes]
  omega

theorem bytes_of_entry {a b : Counters} {name : String} (h : a.entry name = b.entry name)
    (d : Direction) : a.bytes d name = b.bytes d name := by
  simp only [Counters.entry, UserTraffic.mk.injEq, true_and] at h
  cases d with
  | uplink => simp [Counters.bytes, Direction.pick, h.1]
  | downlink => simp [Counters.bytes, Direction.pick, h.2]

/-! ### A poll -/

section Poll

variable (d : Direction) {name : String}

theorem account_seen (st : TrafficState) (c : Conn) (id : String) :
    (account st c).seen d id = if id = c.id then c.bytes d else st.seen d id := by
  cases d <;> simp [account, TrafficState.seen, Conn.bytes, Direction.pick, GoMap.get_set]

theorem account_bytes (st : TrafficState) (c : Conn) : (account st c).user.bytes d name =
      if c.user = name ∧ name ≠ "" then
        (st.user.bytes d name + (increment (c.bytes d) (st.seen d c.id)).toNat) % (2 * 2 ^ 63)
      else st.user.bytes d name := by
  by_cases hempty : c.user = ""
  · have hne : ¬ (c.user = name ∧ name ≠ "") := fun h => h.2 (h.1 ▸ hempty)
    rw [if_neg hne]
    simp [account, if_pos hempty]
  by_cases hname : name = c.user
  · subst hname
    rw [if_pos ⟨rfl, hempty⟩]
    cases d with
    | uplink =>
      simp only [account, if_neg hempty, Counters.bytes, Direction.pick, up_add]
      norm_cast
    | downlink =>
      simp only [account, if_neg hempty, Counters.bytes, Direction.pick, down_add]
      norm_cast
  · rw [if_neg fun h => hname h.1.symm]
    cases d with
    | uplink =>
      simp [account, if_neg hempty, Counters.bytes, Direction.pick, up_add, if_neg hname]
    | downlink =>
      simp [account, if_neg hempty, Counters.bytes, Direction.pick, down_add, if_neg hname]

theorem increment_toNat {cur prev : UInt64} (h : prev ≤ cur) :
    ((increment cur prev).toNat : ℤ) = cur.toNat - prev.toNat := by
  have hle := le_iff_toNat_le.mp h
  rw [increment, if_pos h, UInt64.toNat_sub_of_le _ _ h]
  omega

theorem foldl_account_seen : ∀ (cs : List Conn) (st : TrafficState), (cs.map (·.id)).Nodup →
    (∀ c ∈ cs, (cs.foldl account st).seen d c.id = c.bytes d) ∧
      ∀ id, id ∉ cs.map (·.id) → (cs.foldl account st).seen d id = st.seen d id
  | [], st, _ => ⟨fun _ h => absurd h not_mem_nil, fun _ _ => rfl⟩
  | c :: cs, st, hnd => by
    rw [map_cons, nodup_cons] at hnd
    obtain ⟨hin, hout⟩ := foldl_account_seen cs _ hnd.2
    refine ⟨fun c' hc' => ?_, fun id hid => ?_⟩
    · rcases mem_cons.mp hc' with rfl | hc'
      · rw [foldl_cons, hout _ hnd.1, account_seen, if_pos rfl]
      · exact hin c' hc'
    · rw [map_cons, mem_cons, not_or] at hid
      rw [foldl_cons, hout id hid.2, account_seen, if_neg hid.1]

/-- The unseen bytes of a list of connections. -/
def unseenOf (d : Direction) (name : String) (st : TrafficState) (cs : List Conn) : ℤ :=
  (cs.map fun c =>
    if c.user = name then ((c.bytes d).toNat : ℤ) - (st.seen d c.id).toNat else 0).sum

variable {st : TrafficState} {cs : List Conn}

theorem account_seen_rest {c : Conn} (h : c.id ∉ cs.map (·.id)) :
    ∀ c' ∈ cs, (account st c).seen d c'.id = st.seen d c'.id := by
  intro c' hc'
  rw [account_seen, if_neg]
  exact fun he => h (he ▸ mem_map_of_mem hc')

theorem unseenOf_nonneg (h : ∀ c ∈ cs, st.seen d c.id ≤ c.bytes d) : 0 ≤ unseenOf d name st cs := by
  refine sum_nonneg fun x hx => ?_
  obtain ⟨c, hc, rfl⟩ := mem_map.mp hx
  have hle := le_iff_toNat_le.mp (h c hc)
  split <;> omega

theorem unseenOf_account {c : Conn} (h : c.id ∉ cs.map (·.id)) :
    unseenOf d name (account st c) cs = unseenOf d name st cs := by
  exact congrArg sum (map_congr_left fun c' hc' => by rw [account_seen_rest d h c' hc'])

/-- The loop counts exactly what was unseen, modulo the width of the counter. -/
theorem foldl_account_mod (hempty : name ≠ "") (cs : List Conn) (st : TrafficState) (hnd : (cs.map (·.id)).Nodup)
    (hle : ∀ c ∈ cs, st.seen d c.id ≤ c.bytes d) :
    (cs.foldl account st).user.bytes d name = (st.user.bytes d name + unseenOf d name st cs) % (2 * 2 ^ 63) := by
  induction cs generalizing st with
  | nil =>
    obtain ⟨hpos, hlt⟩ := bytes_range d name st.user
    rw [foldl_nil, unseenOf, map_nil, sum_nil, add_zero, Int.emod_eq_of_lt hpos hlt]
  | cons c cs ih =>
    rw [map_cons, nodup_cons] at hnd
    have hrest : ∀ c' ∈ cs, (account st c).seen d c'.id ≤ c'.bytes d := fun c' hc' => by
      rw [account_seen_rest d hnd.1 c' hc']
      exact hle c' (mem_cons_of_mem c hc')
    rw [foldl_cons, ih _ hnd.2 hrest, unseenOf_account d hnd.1, account_bytes]
    by_cases hname : c.user = name
    · rw [if_pos ⟨hname, hempty⟩, increment_toNat (hle c mem_cons_self), Int.emod_add_emod]
      simp [unseenOf, hname, add_assoc]
    · rw [if_neg fun h => hname h.1]
      simp [unseenOf, hname]

theorem foldl_account_accounted {f s R T : ℤ} {b : Option ℤ} {q : List ℤ} (cs : List Conn) (st : TrafficState)
    (hnd : (cs.map (·.id)).Nodup) (hle : ∀ c ∈ cs, st.seen d c.id ≤ c.bytes d)
    (h : Accounted (2 ^ 63) (st.user.bytes d name) f s R b q T) :
    Accounted (2 ^ 63) ((cs.foldl account st).user.bytes d name) f s R b q (T + unseenOf d name st cs) := by
  have hpos : 0 ≤ unseenOf d name st cs := unseenOf_nonneg d hle
  by_cases hempty : name = ""
  · -- connections without a user are not counted
    have hsame : (cs.foldl account st).user.bytes d name = st.user.bytes d name := by
      refine foldlRecOn (motive := (·.user.bytes d name = st.user.bytes d name)) cs account rfl fun s hs c _ => ?_
      rw [account_bytes, if_neg fun hn => hn.2 hempty, hs]
    rw [hsame]
    exact accounted_mono h (by omega)
  · rw [foldl_account_mod d hempty cs st hnd hle]
    exact accounted_grow h hpos

theorem foldl_account_bytes (hempty : name ≠ "") (cs : List Conn) (st : TrafficState) (hnd : (cs.map (·.id)).Nodup)
    (hle : ∀ c ∈ cs, st.seen d c.id ≤ c.bytes d) (hlt : st.user.bytes d name + unseenOf d name st cs < 2 * 2 ^ 63) :
    (cs.foldl account st).user.bytes d name = st.user.bytes d name + unseenOf d name st cs := by
  rw [foldl_account_mod d hempty cs st hnd hle]
  exact Int.emod_eq_of_lt (add_nonneg (bytes_range d name st.user).1 (unseenOf_nonneg d hle)) hlt

theorem prune_seen (st : TrafficState) (ids : List String) (id : String) : (prune st ids).seen d id =
      if id ∈ st.connUp.keys.filter (· ∉ ids) then 0 else st.seen d id := by
  cases d <;> rfl

/-- After a poll the live connections are seen, and the others at most as much as before. -/
theorem accumulate_seen (st : TrafficState) (snapshot : Snapshot) (now : ℤ) (hnd : (snapshot.conns.map (·.id)).Nodup) :
    (∀ c ∈ snapshot.conns, (accumulate st snapshot now).1.seen d c.id = c.bytes d) ∧
      ∀ id, id ∉ snapshot.conns.map (·.id) → st.seen d id = 0 → (accumulate st snapshot now).1.seen d id = 0 := by
  obtain ⟨hin, hout⟩ := foldl_account_seen d snapshot.conns st hnd
  rw [accumulate_state]
  refine ⟨fun c hc => ?_, fun id hid hzero => ?_⟩
  · have hmem : c.id ∈ snapshot.conns.map (·.id) := mem_map_of_mem hc
    have hkept : c.id ∉ (snapshot.conns.foldl account st).connUp.keys.filter (· ∉ snapshot.conns.map (·.id)) := by
      rw [mem_filter, decide_eq_true_iff]
      exact fun h => h.2 hmem
    rw [prune_seen, if_neg hkept]
    exact hin c hc
  · rw [prune_seen]
    split
    · rfl
    · exact (hout id hid).trans hzero

end Poll

/-! ### A run of polls -/

/-- The connections of the last snapshot. -/
def Agent.TrafficState.last (st : TrafficState) : List Conn := st.prev.elim [] Snapshot.conns

/-- The bytes that a connection has reported for the user. -/
def Agent.Conn.share (d : Direction) (name : String) (c : Conn) : ℤ := if c.user = name then (c.bytes d).toNat else 0

/-- The accumulator, and every connection seen so far as it was last reported. -/
structure Ledger where
  st : TrafficState
  known : Table Conn.id

namespace Ledger

def start (seed : Counters) : Ledger := ⟨seedUsers TrafficState.new seed, Table.empty⟩

def step (l : Ledger) (e : Snapshot × ℤ) : Ledger :=
  ⟨(accumulate l.st e.1 e.2).1, e.1.conns.foldl put l.known⟩

/-- The snapshot lists an id once; an id that was seen before is still that connection, was in the last snapshot and
    has not gone back. -/
def Steady (l : Ledger) (e : Snapshot × ℤ) : Prop :=
  (e.1.conns.map (·.id)).Nodup ∧ ∀ c ∈ e.1.conns, ∀ old ∈ l.known.find? c.id,
    old ∈ l.st.last ∧ old.user = c.user ∧ old.up ≤ c.up ∧ old.down ≤ c.down

/-- Every user has its seed and the last reported values of all its connections; the maps hold the last snapshot. -/
structure Exact (seed : Counters) (l : Ledger) : Prop where
  bytes : ∀ (d : Direction) (name : String), name ≠ "" →
    l.st.user.bytes d name = (seed.bytes d name + l.known.total (Conn.share d name)) % 2 ^ 64
  keys : ∀ (d : Direction) (id : String), id ∈ (d.pick l.st.connUp l.st.connDown).keys ↔ id ∈ l.st.last.map (·.id)
  seen : ∀ d, ∀ c ∈ l.st.last, l.st.seen d c.id = c.bytes d
  known : ∀ id, l.known.find? id = none → id ∉ l.st.last.map (·.id)

variable {l : Ledger} {e : Snapshot × ℤ} {seed : Counters} {d : Direction} {name : String}

theorem last_step : (l.step e).st.last = e.1.conns := by
  simp [step, accumulate_state, TrafficState.last, prune]

theorem mem_foldl_account {id : String} : ∀ (cs : List Conn) (st : TrafficState),
    id ∈ (d.pick (cs.foldl account st).connUp (cs.foldl account st).connDown).keys ↔
      id ∈ cs.map (·.id) ∨ id ∈ (d.pick st.connUp st.connDown).keys
  | [], st => by simp
  | c :: cs, st => by
    have hone : id ∈ (d.pick (account st c).connUp (account st c).connDown).keys ↔
        id = c.id ∨ id ∈ (d.pick st.connUp st.connDown).keys := by
      cases d <;> simp [account, Direction.pick]
    rw [foldl_cons, mem_foldl_account cs, hone, map_cons, mem_cons]
    tauto

/-- The ids to forget are taken from `connUp`, for both maps. -/
theorem mem_prune {st : TrafficState} {ids : List String} {id : String} :
    id ∈ (d.pick (prune st ids).connUp (prune st ids).connDown).keys ↔ id ∈ (d.pick st.connUp st.connDown).keys ∧
      (id ∈ (Direction.uplink.pick st.connUp st.connDown).keys → id ∈ ids) := by
  cases d <;> simp [prune, GoMap.delAll, Direction.pick, imp_iff_not_or]

theorem not_mem_of_foldl_put {id : String} : ∀ (cs : List Conn) (known : Table Conn.id),
    (cs.foldl put known).find? id = none → known.find? id = none ∧ id ∉ cs.map (·.id)
  | [], known, h => ⟨h, not_mem_nil⟩
  | c :: cs, known, h => by
    obtain ⟨hput, hrest⟩ := not_mem_of_foldl_put cs _ h
    rw [find?_put] at hput
    split at hput
    · cases hput
    · exact ⟨hput, by simp_all⟩

/-- What the accumulator has seen of a connection is what it last reported, or nothing if it is new. -/
theorem share_known (h : Exact seed l) (hs : l.Steady e) (d : Direction) (name : String) {c : Conn}
    (hc : c ∈ e.1.conns) : l.st.seen d c.id ≤ c.bytes d ∧ ((l.known.find? c.id).map (Conn.share d name)).getD 0 =
        if c.user = name then ((l.st.seen d c.id).toNat : ℤ) else 0 := by
  rcases hf : l.known.find? c.id with _ | old
  · -- a new id is in neither map, which hold the last snapshot only
    have hseen : l.st.seen d c.id = 0 := GoMap.get_absent _ _ ((h.keys d c.id).not.mpr (h.known _ hf))
    simp [hseen]
  · obtain ⟨hlast, huser, hup, hdown⟩ := hs.2 c hc old hf
    have hseen := h.seen d old hlast
    rw [(find?_eq_some.mp hf).2] at hseen
    rw [hseen, ← huser]
    refine ⟨?_, rfl⟩
    cases d
    · exact hup
    · exact hdown

theorem total_foldl_put {st : TrafficState} : ∀ (cs : List Conn) (known : Table Conn.id), (cs.map (·.id)).Nodup →
    (∀ c ∈ cs, ((known.find? c.id).map (Conn.share d name)).getD 0 =
      if c.user = name then ((st.seen d c.id).toNat : ℤ) else 0) →
    (cs.foldl put known).total (Conn.share d name) = known.total (Conn.share d name) + unseenOf d name st cs
  | [], known, _, _ => by simp [unseenOf]
  | c :: cs, known, hnd, h => by
    rw [map_cons, nodup_cons] at hnd
    -- the row moves by what is new of this connection, and the others still stand as they were reported
    have hput := known.total_put c (Conn.share d name)
    rw [h c mem_cons_self, Conn.share] at hput
    have hrest := total_foldl_put cs (known.put c) hnd.2 fun c' hc' => by
      have hne : c'.id ≠ c.id := fun he => hnd.1 (he ▸ mem_map_of_mem hc')
      rw [find?_put_of_ne hne]
      exact h c' (mem_cons_of_mem c hc')
    rw [foldl_cons, hrest]
    simp only [unseenOf, map_cons, sum_cons]
    split_ifs at hput ⊢ <;> omega

theorem exact_start (seed : Counters) : Exact seed (start seed) where
  bytes d name _ := by
    rw [start, bytes_of_entry (seedUsers_entry seed name) d]
    obtain ⟨hpos, hlt⟩ := bytes_range d name seed
    simpa [Table.total, Table.empty] using (Int.emod_eq_of_lt hpos hlt).symm
  keys d id := by cases d <;> simp [start, seedUsers, TrafficState.new, TrafficState.last, Direction.pick]
  seen d c hc := absurd hc not_mem_nil
  known id _ := not_mem_nil

theorem exact_step (h : Exact seed l) (hs : l.Steady e) : Exact seed (l.step e) where
  bytes d name hname := by
    have hbytes := foldl_account_mod d hname e.1.conns l.st hs.1 fun c hc => (share_known h hs d name hc).1
    have htotal := total_foldl_put e.1.conns l.known hs.1 fun c hc => (share_known h hs d name hc).2
    rw [step, accumulate_user, hbytes, htotal, h.bytes d name hname]
    omega
  keys d id := by
    rw [last_step, step, accumulate_state, mem_prune]
    simp only [mem_foldl_account, h.keys]
    tauto
  seen d := by
    rw [last_step]
    exact (accumulate_seen d l.st e.1 e.2 hs.1).1
  known id hnone := by
    rw [last_step]
    exact (not_mem_of_foldl_put _ _ hnone).2

/-- After every poll of a run each byte has been counted once. -/
theorem polls_exact (seed : Counters) (es : List (Snapshot × ℤ)) (h : Always step Steady (start seed) es) :
    Exact seed (es.foldl step (start seed)) :=
  inv_run (fun _ _ => exact_step) es _ (exact_start seed) h

/-- A connection grows, another comes and the first goes. -/
def threePolls : List (Snapshot × ℤ) :=
  [(⟨5, 0, 1, [⟨"1", "ann", 5, 0⟩]⟩, 1), (⟨9, 1, 2, [⟨"1", "ann", 7, 1⟩, ⟨"2", "ann", 2, 0⟩]⟩, 2),
    (⟨9, 1, 1, [⟨"2", "ann", 2, 0⟩]⟩, 3)]

theorem threePolls_exact : Always step Steady (start .empty) threePolls ∧
    Exact .empty (threePolls.foldl step (start .empty)) := by
  have h : Always step Steady (start .empty) threePolls := by
    refine ⟨⟨by decide, ?_⟩, ⟨by decide, ?_⟩, ⟨by decide, ?_⟩, trivial⟩ <;> decide +kernel
  exact ⟨h, polls_exact .empty threePolls h⟩

end Ledger

/-! ### The wire -/

section Wire

variable {d : Direction} {name : String} {st : TrafficState} {conns : Table Conn.id} {opened : List String}

/-- The accumulator knows no connection that was never opened and none better than the wire. -/
structure Watches (d : Direction) (st : TrafficState) (conns : Table Conn.id) (opened : List String) : Prop where
  fresh : ∀ id, id ∉ opened → st.seen d id = 0
  live : ∀ c ∈ conns.rows, c.id ∈ opened ∧ st.seen d c.id ≤ c.bytes d

section

variable (h : Watches d st conns opened)
include h

theorem Watches.unseen_nonneg : 0 ≤ unseen d name st conns := unseenOf_nonneg d fun c hc => (h.live c hc).2

theorem Watches.fewer {conns' : Table Conn.id}
    (hsub : ∀ c ∈ conns'.rows, c ∈ conns.rows) : Watches d st conns' opened :=
  ⟨h.fresh, fun c hc => h.live c (hsub c hc)⟩

theorem Watches.connect {id : String} (hid : id ∉ opened) (who : String) :
    Watches d st (conns.put ⟨id, who, 0, 0⟩) (id :: opened) := by
  have hbytes : Conn.bytes d ⟨id, who, 0, 0⟩ = 0 := by cases d <;> rfl
  refine ⟨fun id' hid' => h.fresh id' fun hm => hid' (mem_cons_of_mem id hm), fun c hc => ?_⟩
  rcases mem_put.mp hc with rfl | ⟨hc, -⟩
  · exact ⟨mem_cons_self, by rw [hbytes, h.fresh id hid]; exact le_refl 0⟩
  · exact ⟨mem_cons_of_mem id (h.live c hc).1, (h.live c hc).2⟩

theorem Watches.unseen_connect {id : String} (hid : id ∉ opened) (who : String) :
    unseen d name st (conns.put ⟨id, who, 0, 0⟩) = unseen d name st conns := by
  have hnone : conns.find? id = none := by
    rw [Table.find?_eq_none]
    intro hmem
    obtain ⟨c, hc, rfl⟩ := mem_map.mp hmem
    exact hid (h.live c hc).1
  have hbytes : Conn.bytes d ⟨id, who, 0, 0⟩ = 0 := by cases d <;> rfl
  have hput := conns.total_put ⟨id, who, 0, 0⟩ fun c =>
    if c.user = name then ((c.bytes d).toNat : ℤ) - (st.seen d c.id).toNat else 0
  simp only [hnone, hbytes, h.fresh id hid] at hput
  simpa [unseen] using hput

end

/-- A connection with more bytes on it. -/
def moreBytes (c : Conn) (up down : UInt64) : Conn := { c with up := c.up + up, down := c.down + down }

section

variable {c : Conn} {up down : UInt64} (hfit : c.up.toNat + up.toNat < 2 ^ 64 ∧ c.down.toNat + down.toNat < 2 ^ 64)
include hfit

theorem moreBytes_bytes : ((moreBytes c up down).bytes d).toNat = (c.bytes d).toNat + (d.pick up down).toNat := by
  cases d with
  | uplink => exact (UInt64.toNat_add ..).trans (Nat.mod_eq_of_lt hfit.1)
  | downlink => exact (UInt64.toNat_add ..).trans (Nat.mod_eq_of_lt hfit.2)

variable (hc : conns.find? c.id = some c)
include hc

theorem Watches.transfer (h : Watches d st conns opened) : Watches d st (conns.put (moreBytes c up down)) opened := by
  obtain ⟨hmem, -⟩ := find?_eq_some.mp hc
  obtain ⟨hopened, hle⟩ := h.live c hmem
  refine ⟨h.fresh, fun c' hc' => ?_⟩
  rcases mem_put.mp hc' with rfl | ⟨hc', -⟩
  · refine ⟨hopened, ?_⟩
    rw [le_iff_toNat_le] at hle ⊢
    rw [moreBytes_bytes hfit]
    exact hle.trans (Nat.le_add_right _ _)
  · exact h.live c' hc'

theorem unseen_transfer : unseen d name st (conns.put (moreBytes c up down)) =
      unseen d name st conns + if name = c.user then ((d.pick up down).toNat : ℤ) else 0 := by
  have hput := conns.total_put (moreBytes c up down) fun c =>
    if c.user = name then ((c.bytes d).toNat : ℤ) - (st.seen d c.id).toNat else 0
  have hid : (moreBytes c up down).id = c.id := rfl
  have huser : (moreBytes c up down).user = c.user := rfl
  simp only [hid, huser, hc, moreBytes_bytes hfit, map_some, getD_some] at hput
  simp only [unseen]
  by_cases hname : name = c.user
  · rw [if_pos hname.symm, if_pos hname.symm] at hput
    rw [if_pos hname]
    push_cast at hput ⊢
    linarith
  · rw [if_neg (Ne.symm hname), if_neg (Ne.symm hname)] at hput
    rw [if_neg hname]
    linarith

end

variable {snapshot : Snapshot}

theorem Watches.poll (h : Watches d st conns opened) {now : ℤ} (hp : snapshot.conns.Perm conns.rows) :
    Watches d (accumulate st snapshot now).1 conns opened := by
  have hnd : (snapshot.conns.map (·.id)).Nodup := (hp.map _).nodup_iff.mpr conns.nodup
  obtain ⟨hin, hout⟩ := accumulate_seen d st snapshot now hnd
  refine ⟨fun id hid => ?_, fun c hc => ⟨(h.live c hc).1, ?_⟩⟩
  · refine hout id (fun hm => ?_) (h.fresh id hid)
    obtain ⟨c, hc, rfl⟩ := mem_map.mp hm
    exact hid (h.live c (hp.mem_iff.mp hc)).1
  · exact (hin c (hp.mem_iff.mpr hc)).symm ▸ UInt64.le_refl _

theorem unseen_of_seen (h : ∀ c ∈ conns.rows, c.user = name → st.seen d c.id = c.bytes d) :
    unseen d name st conns = 0 := by
  refine (total_congr fun c hc => ?_).trans conns.total_zero
  split
  · rw [h c hc ‹_›, sub_self]
  · rfl

/-- After a poll nothing of the live connections is unseen. -/
theorem seen_poll {now : ℤ} (hp : snapshot.conns.Perm conns.rows) :
    ∀ c ∈ conns.rows, (accumulate st snapshot now).1.seen d c.id = c.bytes d := by
  have hnd : (snapshot.conns.map (·.id)).Nodup := (hp.map _).nodup_iff.mpr conns.nodup
  exact fun c hc => (accumulate_seen d st snapshot now hnd).1 c (hp.mem_iff.mpr hc)

theorem unseenOf_perm (hp : snapshot.conns.Perm conns.rows) :
    unseenOf d name st snapshot.conns = unseen d name st conns := (hp.map _).sum_eq

end Wire

/-! ### The samples -/

/-- The cached sample shows the accumulator, and hysteria has nothing to add. -/
def Published (c : Cores) : Prop :=
  ∃ t, Caches c t ∧ (∀ k, ¬ t.hy.Has k) ∧ ∀ k, t.sb.Has k → t.sb.entry k = t.acc.user.entry k

theorem published_start (seed : Counters) : Published (Cores.start seed) :=
  ⟨Totals.start seed, caches_start seed, fun _ => not_mem_nil, fun _ h => absurd h not_mem_nil⟩

theorem published_poll {c : Cores} (h : Published c) (ch : Choice) (snapshot : Snapshot) (now : ℤ) :
    Published (c.pollSingbox ch (some snapshot) now) := by
  obtain ⟨t, hc, hhy, -⟩ := h
  exact ⟨_, caches_pollSingbox ch snapshot now hc, hhy, fun _ _ => rfl⟩

theorem published_stats {c : Cores} (h : Published c) (ch : Choice) (epoch : String) (now : ℤ) :
    Published (c.stats ch epoch now).1 := by
  obtain ⟨t, hc, hhy, hpub⟩ := h
  refine ⟨t, caches_stats ch epoch now hc (Or.inr fun k hk => ?_), hhy, hpub⟩
  exact absurd hk (hhy k)

theorem published_users {c : Cores} (h : Published c) {ch : Choice} {epoch : String} {now : ℤ}
    {u : UserTraffic} (hu : u ∈ (c.stats ch epoch now).2.users) (d : Direction) :
    ((u.bytes d).toNat : ℤ) = c.sb.stats.user.bytes d u.name := by
  obtain ⟨t, hc, hhy, hpub⟩ := h
  have hex := stats_exact ch epoch now hc
  have hhas : t.sb.Has u.name := ((hex.mem u.name).mp (mem_map_of_mem hu)).resolve_right (hhy u.name)
  rw [hc.acc, ← bytes_of_entry (hpub u.name hhas) d]
  cases d <;> simp [UserTraffic.bytes, Counters.bytes, Direction.pick, hex.up u hu, hex.down u hu,
    t.hy.up_absent (hhy u.name), t.hy.down_absent (hhy u.name)]

/-! ### The master -/

section Master

variable {node user : Uuid} {name : String} {db₀ : Db}

/-- The user is who it was, and is charged for the node's rows on top of what it started with. -/
structure Bill (node user : Uuid) (name : String) (db₀ db : Db) : Prop where
  named : (db.users.find? user).map (·.username) = some name
  charged : charged db.traffic user =
    charged db₀.traffic user + (db.billed .uplink node user + db.billed .downlink node user)
  used : db.used user ≤ db₀.used user + (db.billed .uplink node user + db.billed .downlink node user)

variable {s : Sample} {crossed : Bool}

theorem record_named {db db' : Db} (h : recordTraffic db s = .ok (db', crossed)) :
    (db'.users.find? user).map (·.username) = (db.users.find? user).map (·.username) := by
  obtain ⟨u, -, hu, rfl, -⟩ := recordTraffic_ok h
  obtain ⟨-, huid⟩ := find?_eq_some.mp hu
  simp only [find?_put, huid]
  split
  · rename_i huser
    rw [huser, hu]
    rfl
  · rfl

theorem bill_other {db db' : Db} (h : recordTraffic db s = .ok (db', crossed)) (hs : s.user ≠ user)
    (hb : Bill node user name db₀ db) :
    Bill node user name db₀ db' ∧ ∀ d : Direction, db'.billed d node user = db.billed d node user ∧
        db'.baseline d node user = db.baseline d node user := by
  have hrow : db'.traffic.find? (node, user, .singbox) = db.traffic.find? (node, user, .singbox) := by
    rw [record_row h, if_neg]
    rintro hk
    exact hs (congrArg (·.2.1) hk).symm
  have hbilled : ∀ d, db'.billed d node user = db.billed d node user := fun d => by
    rw [Db.billed, Db.billed, Db.rowBytes, Db.rowBytes, hrow]
  have hused := record_charges h user
  rw [if_neg (Ne.symm hs)] at hused
  have hcharged := record_charged h user
  rw [if_neg hs, add_zero] at hcharged
  refine ⟨⟨by rw [record_named h, hb.named], ?_, ?_⟩, fun d => ⟨hbilled d, ?_⟩⟩
  · rw [hcharged, hbilled, hbilled, hb.charged]
  · rw [hused, hbilled, hbilled]
    exact hb.used
  · rw [Db.baseline, Db.baseline, hrow]

/-- A recording of the user itself: each direction grows by at most the rise over its last reading. -/
theorem bill_own {db db' : Db} {epoch : String} {up down hour : ℤ} (hs : charged db₀.traffic user ≤ db₀.used user)
    (h : recordTraffic db ⟨node, user, .singbox, epoch, up, down, hour⟩ = .ok (db', crossed))
    (hb : Bill node user name db₀ db) :
    Bill node user name db₀ db' ∧ ∀ d : Direction, db'.billed d node user ≤ db.billed d node user +
          ((db.baseline d node user).map fun b => max 0 (d.pick up down - b)).getD 0 ∧
        db'.baseline d node user = some (d.pick up down) := by
  set s : Sample := ⟨node, user, .singbox, epoch, up, down, hour⟩
  have hkey : s.key = (node, user, .singbox) := rfl
  have hrow := (record_row h _).trans (if_pos rfl)
  have hcharged := record_charged h user
  rw [hkey] at hrow hcharged
  rw [if_pos rfl] at hcharged
  have hsum : db'.billed .uplink node user + db'.billed .downlink node user = db.billed .uplink node user +
      db.billed .downlink node user + added s (db.traffic.find? (node, user, .singbox)) := by
    rcases hf : db.traffic.find? (node, user, .singbox) with _ | r
    · simp [Db.billed, Db.rowBytes, hrow, hf, nextRow, added]
    · simp only [Db.billed, Db.rowBytes, Direction.pick, hrow, hf, nextRow, added, map_some, getD_some]
      ring
  have hused := record_charges h user
  rw [if_pos rfl, hcharged, hb.charged] at hused
  refine ⟨⟨by rw [record_named h, hb.named], by rw [hcharged, hb.charged, hsum]; ring, by linarith⟩, fun d => ⟨?_, ?_⟩⟩
  · have hrise : ∀ le e l c, rise le e l c ≤ max 0 (c - l) := by
      intro le e l c
      rw [rise]
      split
      · exact le_refl _
      · exact le_max_left 0 _
    rcases hf : db.traffic.find? (node, user, .singbox) with _ | r
    · cases d <;> simp [Db.billed, Db.rowBytes, Db.baseline, hrow, hf, nextRow]
    have hup := hrise r.lastEpoch s.epoch r.lastUp s.curUp
    have hdown := hrise r.lastEpoch s.epoch r.lastDown s.curDown
    cases d <;>
      simp only [Db.billed, Db.rowBytes, Db.baseline, Direction.pick, hrow, hf, nextRow, map_some, getD_some] <;>
      linarith
  · rw [Db.baseline, hrow]
    rcases db.traffic.find? (node, user, .singbox) with _ | r
    · rfl
    · rfl

theorem readable_cons (d : Direction) (u : UserTraffic) (us : List UserTraffic) :
    readable d name (u :: us) = readable d name [u] ++ readable d name us :=
  filterMap_append (l := [u])

theorem getUserByName_some {db : Db} {n : String} {u : User} (h : getUserByName db n = some u) :
    db.users.find? u.id = some u ∧ u.username = n := by
  have hmem := mem_of_find?_eq_some h
  exact ⟨find?_eq_some.mpr ⟨hmem, rfl⟩, by simpa using find?_some h⟩

/-- One sample, whether it is recorded to its end or breaks off. -/
theorem recordSample_bill {c f s T : Direction → ℤ} {q : Direction → List ℤ} (epoch : String)
    (hour : ℤ) (hs : charged db₀.traffic user ≤ db₀.used user) :
    ∀ (us : List UserTraffic) (db : Db), Bill node user name db₀ db →
    (∀ d, Accounted (2 ^ 63) (c d) (f d) (s d) (db.billed d node user) (db.baseline d node user)
      (readable d name us ++ q d) (T d)) →
    Bill node user name db₀ (recordSample node epoch hour db us).1 ∧ ∀ d, Accounted (2 ^ 63) (c d) (f d) (s d)
        ((recordSample node epoch hour db us).1.billed d node user)
        ((recordSample node epoch hour db us).1.baseline d node user) (q d) (T d)
  | [], db, hb, h => ⟨hb, h⟩
  | u :: us, db, hb, h => by
    have hskip : ∀ d, Accounted (2 ^ 63) (c d) (f d) (s d) (db.billed d node user)
        (db.baseline d node user) (readable d name us ++ q d) (T d) := fun d => by
      have hd := h d
      rw [readable_cons, append_assoc] at hd
      exact accounted_lose hd
    have hstop : ∀ d, Accounted (2 ^ 63) (c d) (f d) (s d) (db.billed d node user)
        (db.baseline d node user) (q d) (T d) := fun d => accounted_lose (hskip d)
    rw [recordSample]
    rcases hu : getUserByName db u.name with _ | u'
    · exact recordSample_bill epoch hour hs us db hb hskip
    obtain ⟨hfind, hname⟩ := getUserByName_some hu
    simp only
    split
    · exact ⟨hb, hstop⟩
    rename_i hfit
    rcases hr : recordTraffic db
      ⟨node, u'.id, .singbox, epoch, u.up.toNat, u.down.toNat, hour⟩ with _ | ⟨db', crossed⟩
    · exact ⟨hb, hstop⟩
    rcases eq_or_ne u'.id user with hid | hne
    · rw [hid] at hr hfind
      obtain ⟨hb', hd'⟩ := bill_own hs hr hb
      have hnamed : u.name = name := by
        have hn := hb.named
        rw [hfind, map_some, hname] at hn
        exact some.inj hn
      refine recordSample_bill epoch hour hs us db' hb' fun d => ?_
      rw [not_or, not_le, not_le] at hfit
      have hlt : (u.bytes d).toNat < 2 ^ 63 := by cases d; exacts [hfit.1, hfit.2]
      have hhead : readable d name [u] = [d.pick (u.up.toNat : ℤ) u.down.toNat] := by
        simp only [readable, filterMap_cons, if_pos (And.intro hnamed hlt)]
        cases d <;> rfl
      have hd := h d
      rw [readable_cons, hhead] at hd
      rw [(hd' d).2]
      exact accounted_read hd (hd' d).1
    · obtain ⟨hb', hd'⟩ := bill_other hr hne hb
      refine recordSample_bill epoch hour hs us db' hb' fun d => ?_
      rw [(hd' d).1, (hd' d).2]
      exact hskip d

end Master

/-! ### The machine -/

section Machine

variable {node user : Uuid} {name : String} {db₀ : Db} {d : Direction} {n : Net}

/-- One user and one direction: the accumulator knows no connection that was never opened and none
    better than the wire, and the bill is covered by what was moved and seen. -/
structure Net.Within (node user : Uuid) (name : String) (d : Direction) (n : Net) : Prop where
  fresh : ∀ id, id ∉ n.opened → n.agent.cores.sb.stats.seen d id = 0
  live : ∀ c ∈ n.conns.rows, c.id ∈ n.opened ∧ n.agent.cores.sb.stats.seen d c.id ≤ c.bytes d
  accounted : Accounted (2 ^ 63) (n.agent.cores.sb.stats.user.bytes d name)
    (n.agent.saved.bytes d name) (n.agent.store.counters.bytes d name) (n.db.billed d node user)
    (n.db.baseline d node user) (onTheWay d name n.queue)
    (n.moved name d - unseen d name n.agent.cores.sb.stats n.conns)

structure Net.Inv (node user : Uuid) (name : String) (db₀ : Db) (n : Net) : Prop where
  published : Published n.agent.cores
  bill : Bill node user name db₀ n.db
  within : ∀ d, n.Within node user name d

section

variable (h : n.Within node user name d)
include h

theorem Net.Within.watches : Watches d n.agent.cores.sb.stats n.conns n.opened := ⟨h.fresh, h.live⟩

theorem unseen_nonneg : 0 ≤ unseen d name n.agent.cores.sb.stats n.conns := h.watches.unseen_nonneg

theorem billed_le_moved : n.db.billed d node user ≤ n.moved name d :=
  (accounted_le h.accounted).trans (sub_le_self _ (unseen_nonneg h))

omit h in
theorem unseen_empty (st : TrafficState) : unseen d name st empty = 0 := rfl

/-- Connections that go away take their unseen bytes along. -/
theorem within_fewer {conns : Table Conn.id} (hsub : ∀ c ∈ conns.rows, c ∈ n.conns.rows)
    (hle : unseen d name n.agent.cores.sb.stats conns ≤ unseen d name n.agent.cores.sb.stats n.conns) :
    Net.Within node user name d { n with conns := conns } where
  fresh := h.fresh
  live c hc := h.live c (hsub c hc)
  accounted := accounted_mono h.accounted (by linarith)

theorem within_close (id : String) : Net.Within node user name d { n with conns := n.conns.keep (·.id ≠ id) } := by
  refine within_fewer h (fun c hc => (mem_keep.mp hc).1) ?_
  rw [unseen, total_keep]
  refine total_mono fun c hc => ?_
  have hle := le_iff_toNat_le.mp (h.live c hc).2
  split <;> split <;> omega

theorem within_connect {id : String} (hid : id ∉ n.opened) (who : String) :
    Net.Within node user name d { n with conns := n.conns.put ⟨id, who, 0, 0⟩, opened := id :: n.opened } := by
  obtain ⟨hfresh, hlive⟩ := h.watches.connect hid who
  refine ⟨hfresh, hlive, ?_⟩
  simp only [h.watches.unseen_connect hid who]
  exact h.accounted

theorem within_transfer {c : Conn} {up down : UInt64} (hc : n.conns.find? c.id = some c)
    (hfit : c.up.toNat + up.toNat < 2 ^ 64 ∧ c.down.toNat + down.toNat < 2 ^ 64) :
    Net.Within node user name d
      { n with
        conns := n.conns.put (moreBytes c up down)
        moved := fun who e =>
          if who = c.user then n.moved who e + (e.pick up down).toNat else n.moved who e } := by
  obtain ⟨hfresh, hlive⟩ := h.watches.transfer hfit hc
  refine ⟨hfresh, hlive, accounted_mono h.accounted ?_⟩
  simp only [unseen_transfer hfit hc]
  split
  · push_cast
    linarith
  · linarith

variable {ch : Choice}

theorem within_poll {snapshot : Snapshot} {now : ℤ} (hp : snapshot.conns.Perm n.conns.rows) :
    Net.Within node user name d { n with agent := (n.agent.step (.pollSingbox (some snapshot) now, ch)).1 } := by
  have hnd : (snapshot.conns.map (·.id)).Nodup := (hp.map _).nodup_iff.mpr n.conns.nodup
  have hwatches : Watches d (accumulate n.agent.cores.sb.stats snapshot now).1 n.conns n.opened := h.watches.poll hp
  refine ⟨hwatches.fresh, hwatches.live, ?_⟩
  have hcounted := foldl_account_accounted d snapshot.conns n.agent.cores.sb.stats hnd
    (fun c hc => (h.live c (hp.mem_iff.mp hc)).2) h.accounted
  rw [unseenOf_perm hp, sub_add_cancel] at hcounted
  simp only [Process.step, Cores.pollSingbox, unseen_of_seen fun c hc _ => seen_poll hp c hc, accumulate_user]
  exact hcounted

theorem within_setCounters : Net.Within node user name d { n with agent := (n.agent.step (.setCounters, ch)).1 } := by
  refine ⟨h.fresh, h.live, ?_⟩
  have hsame := bytes_of_entry (counters_setCounters n.agent.store n.agent.cores.sb.stats.user name) d
  simp only [Process.step, hsame]
  exact accounted_copy h.accounted

theorem within_save : Net.Within node user name d { n with agent := (n.agent.step (.save, ch)).1 } :=
  ⟨h.fresh, h.live, accounted_save h.accounted⟩

theorem within_restart {random : Option (Fin 16 → UInt8)} :
    Net.Within node user name d { n with agent := (n.agent.step (.restart random, ch)).1, conns := empty } := by
  have hload : (load n.agent.disk random).counters = n.agent.saved := load_counters _ _
  have hseed := bytes_of_entry (seedUsers_entry n.agent.saved name) d
  refine ⟨fun id _ => by cases d <;> rfl, fun c hc => absurd hc not_mem_nil, ?_⟩
  simp only [Process.step, Process.boot, Cores.start, hload, hseed]
  exact accounted_mono (accounted_crash h.accounted) (sub_le_sub_left (unseen_nonneg h) _)

theorem within_deliver (hp : Published n.agent.cores) {now : ℤ} :
    Net.Within node user name d
      { n with
        agent := (n.agent.step (.deliver now, ch)).1
        queue := n.queue ++ [(n.agent.cores.stats ch n.agent.store.epoch now).2] } := by
  refine ⟨h.fresh, h.live, ?_⟩
  simp only [onTheWay, flatMap_append, flatMap_singleton]
  refine accounted_send h.accounted _ fun v hv => ?_
  obtain ⟨u, hu, hv⟩ := mem_filterMap.mp hv
  split at hv
  · rename_i hread
    obtain rfl := some.inj hv
    refine ⟨?_, by exact_mod_cast hread.2⟩
    rw [published_users hp hu d, hread.1]
  · cases hv

theorem within_lose : Net.Within node user name d { n with queue := n.queue.tail } := by
  refine ⟨h.fresh, h.live, ?_⟩
  have hq := h.accounted
  rcases hqueue : n.queue with _ | ⟨s, queue⟩
  · rw [hqueue] at hq
    exact hq
  · rw [hqueue] at hq
    exact accounted_lose hq

end

section

variable {ch : Choice} (h : n.Inv node user name db₀)
include h

theorem inv_connect {id who : String} : (n.step node (.connect id who, ch)).Inv node user name db₀ := by
  simp only [Net.step]
  split
  · exact h
  · exact ⟨h.published, h.bill, fun d => within_connect (h.within d) ‹_› who⟩

theorem inv_transfer {id : String} {up down : UInt64} :
    (n.step node (.transfer id up down, ch)).Inv node user name db₀ := by
  simp only [Net.step]
  rcases hc : n.conns.find? id with _ | c
  · exact h
  obtain ⟨-, rfl⟩ := find?_eq_some.mp hc
  simp only
  split
  · exact ⟨h.published, h.bill, fun d => within_transfer (h.within d) hc ‹_›⟩
  · exact h

theorem inv_poll {snapshot : Option Snapshot} {now : ℤ} :
    (n.step node (.poll snapshot now, ch)).Inv node user name db₀ := by
  simp only [Net.step]
  split
  · rcases snapshot with _ | snapshot
    · exact h
    · rename_i hperm
      rw [all_some, isPerm_iff] at hperm
      exact ⟨published_poll h.published ch snapshot now, h.bill, fun d => within_poll (h.within d) hperm⟩
  · exact h

theorem inv_record {hour : ℤ} (hs : charged db₀.traffic user ≤ db₀.used user) :
    (n.step node (.record hour, ch)).Inv node user name db₀ := by
  simp only [Net.step]
  have hq := fun d => (h.within d).accounted
  rcases hqueue : n.queue with _ | ⟨s, queue⟩
  · exact h
  simp only [hqueue] at hq
  obtain ⟨hbill, hacc⟩ := recordSample_bill _ hour hs
    s.users n.db h.bill hq
  exact ⟨h.published, hbill, fun d => ⟨(h.within d).fresh, (h.within d).live, hacc d⟩⟩

end

theorem net_step (hs : charged db₀.traffic user ≤ db₀.used user) (e : NetEv × Choice)
    (h : n.Inv node user name db₀) : (n.step node e).Inv node user name db₀ := by
  obtain ⟨e, ch⟩ := e
  cases e with
  | connect id who => exact inv_connect h
  | transfer id up down => exact inv_transfer h
  | close id => exact ⟨h.published, h.bill, fun d => within_close (h.within d) id⟩
  | restartCore =>
    refine ⟨h.published, h.bill, fun d => within_fewer (h.within d) ?_ (unseen_nonneg (h.within d))⟩
    exact fun c hc => absurd hc not_mem_nil
  | poll snapshot now => exact inv_poll h
  | setCounters => exact ⟨h.published, h.bill, fun d => within_setCounters (h.within d)⟩
  | save => exact ⟨h.published, h.bill, fun d => within_save (h.within d)⟩
  | restart random => exact ⟨published_start _, h.bill, fun d => within_restart (h.within d)⟩
  | deliver now =>
    exact ⟨published_stats h.published ch n.agent.store.epoch now, h.bill,
      fun d => within_deliver (h.within d) h.published⟩
  | lose => exact ⟨h.published, h.bill, fun d => within_lose (h.within d)⟩
  | record hour => exact inv_record h hs

theorem net_start (disk : Option Store) (random : Option (Fin 16 → UInt8))
    (hnew : ∀ r ∈ db₀.traffic.rows, r.nodeId ≠ node) (hnamed : (db₀.users.find? user).map (·.username) = some name) :
    (Net.start disk random db₀).Inv node user name db₀ := by
  have hrow : db₀.traffic.find? (node, user, .singbox) = none := by
    rw [Table.find?_eq_none]
    intro hmem
    obtain ⟨r, hr, hk⟩ := mem_map.mp hmem
    exact hnew r hr (congrArg (·.1) hk)
  have hbilled : ∀ d : Direction, db₀.billed d node user = 0 := fun d => by
    cases d <;> simp [Db.billed, Db.rowBytes, hrow, Direction.pick]
  refine ⟨published_start _, ⟨hnamed, by simp [Net.start, hbilled], by simp [Net.start, hbilled]⟩,
    fun d => ⟨fun id _ => by cases d <;> rfl, fun c hc => absurd hc not_mem_nil, ?_⟩⟩
  have hseed := bytes_of_entry (seedUsers_entry (load disk random).counters name) d
  have hsaved : (Process.boot disk random GoMap.empty).saved = (load disk random).counters :=
    (load_counters disk random).symm
  have hbase : db₀.baseline d node user = none := by rw [Db.baseline, hrow, map_none]
  simp only [Net.start, hsaved, hbilled, hbase]
  simp only [Process.boot, Cores.start, hseed]
  exact accounted_start (by norm_num) (bytes_range d name _)

end Machine

/-- In every run of the machine a user is charged at most what it transferred through the node: the
    bytes of each direction's column, and what the whole run adds to `used_traffic_bytes`. -/
theorem bill_le_moved (node : Uuid) (disk : Option Store) (random : Option (Fin 16 → UInt8)) (db : Db)
    (hdb : db.Settled) (hnew : ∀ r ∈ db.traffic.rows, r.nodeId ≠ node) (u : User)
    (hu : u ∈ db.users.rows) (es : List (NetEv × Choice)) :
    let n := es.foldl (Net.step node) (Net.start disk random db)
    (n.db.rowBytes node u.id .singbox).1 ≤ n.moved u.username .uplink ∧
      (n.db.rowBytes node u.id .singbox).2 ≤ n.moved u.username .downlink ∧
      n.db.used u.id - db.used u.id ≤ n.moved u.username .uplink + n.moved u.username .downlink := by
  have hnamed : (db.users.find? u.id).map (·.username) = some u.username := by
    rw [find?_eq_some.mpr ⟨hu, rfl⟩, map_some]
  have hinv := inv_foldl (fun _ e h => net_step (hdb.charged_le u.id) e h) es _ (net_start disk random hnew hnamed)
  have hup := billed_le_moved (hinv.within .uplink)
  have hdown := billed_le_moved (hinv.within .downlink)
  have hused := hinv.bill.used
  exact ⟨hup, hdown, by linarith⟩

/-- `alice` moves 10 bytes, then 20 more that the file does not know of at the crash, then 5. -/
def crashLife : List (NetEv × Choice) :=
  [.connect "c1" "alice", .transfer "c1" 10 0, .poll (some ⟨10, 0, 1, [⟨"c1", "alice", 10, 0⟩]⟩) 0,
   .setCounters, .save, .deliver 0, .record 0, .transfer "c1" 20 0,
   .poll (some ⟨30, 0, 1, [⟨"c1", "alice", 30, 0⟩]⟩) 0, .deliver 0, .record 0, .restart none,
   .connect "c2" "alice", .transfer "c2" 5 0, .poll (some ⟨5, 0, 1, [⟨"c2", "alice", 5, 0⟩]⟩) 0,
   .deliver 0, .record 0].map (·, default)

theorem crashLife_bill_le_moved :
    let n := crashLife.foldl (Net.step 1) (Net.start none none twoNodes)
    n.db.used 7 = 20 ∧ n.moved "alice" .uplink = 35 ∧
      n.db.used 7 - twoNodes.used 7 ≤ n.moved "alice" .uplink + n.moved "alice" .downlink := by
  refine ⟨by decide, by decide, ?_⟩
  refine (bill_le_moved 1 none none twoNodes ⟨?_, fun user => ?_⟩ ?_
    ⟨7, "alice", "u", "p", true, 50, 0, none⟩ mem_cons_self crashLife).2.2
  · exact fun r hr => absurd hr not_mem_nil
  · rw [Db.used, twoNodes, usedIn_put]
    split <;> exact le_refl 0
  · exact fun r hr => absurd hr not_mem_nil

end Honey
