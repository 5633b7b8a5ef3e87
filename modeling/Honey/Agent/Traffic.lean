import Honey.Schemes.GoMap

/-! Per-user traffic counters of the agent: the sing-box accumulator (`singbox/manager.go`), the hysteria accumulator
    (`hysteria/manager.go`) and the map that merges the two (`grpcserver/server.go`), as functions on values. Where the
    code keeps its samples in shared memory is the subject of `Honey.Agent.Stats`.

        Clash snapshot --> accumulate --> sing-box sample --+
                                                            +--> mergeUsers --> Stats stream
        /traffic?clear=1 --> addSample --> hysteria sample -+ -/

namespace Honey.Agent
open Honey.Schemes List GoMap

structure UserTraffic where
  name : String
  (up down : UInt64)
  deriving DecidableEq, Repr, Inhabited

attribute [ext] UserTraffic

/-- `core.Stat`. The users are a slice header in memory and a list as a value. -/
structure Stat (U : Type) where
  (nodeUp nodeDown upSpeed downSpeed : UInt64)
  connections : UInt32
  users : U
  deriving DecidableEq

/-- The same sample with its users elsewhere. -/
def Stat.withUsers {U V : Type} (st : Stat U) (users : V) : Stat V :=
  ⟨st.nodeUp, st.nodeDown, st.upSpeed, st.downSpeed, st.connections, users⟩

/-- Two maps from user names to bytes that are always written together (`userUp` and `userDown`,
    the pair that `UserCounters`, `Counters` and `SeedUsers` hand over). -/
structure Counters where
  (up down : GoMap String UInt64)
  same : up.keys = down.keys

namespace Counters

def empty : Counters := ⟨GoMap.empty, GoMap.empty, rfl⟩

instance : Inhabited Counters := ⟨empty⟩

def set (c : Counters) (name : String) (up down : UInt64) : Counters :=
  ⟨c.up.set name up, c.down.set name down, by simp only [GoMap.set, c.same]⟩

/-- `userUp[name] += up; userDown[name] += down`. -/
def add (c : Counters) (name : String) (up down : UInt64) : Counters :=
  c.set name (c.up.get name + up) (c.down.get name + down)

/-- The user has an entry. -/
def Has (c : Counters) (name : String) : Prop := name ∈ c.up.keys

instance (c : Counters) (name : String) : Decidable (c.Has name) :=
  inferInstanceAs (Decidable (name ∈ c.up.keys))

variable (c : Counters) {n m : String} {u d : UInt64}

@[simp] theorem has_set : (c.set n u d).Has m ↔ m = n ∨ c.Has m := by simp [Has, set]

@[simp] theorem has_add : (c.add n u d).Has m ↔ m = n ∨ c.Has m := by simp [add]

theorem up_set : (c.set n u d).up.get m = if m = n then u else c.up.get m := by
  simp [set, get_set]

theorem down_set : (c.set n u d).down.get m = if m = n then d else c.down.get m := by
  simp [set, get_set]

theorem up_add : (c.add n u d).up.get m = if m = n then c.up.get m + u else c.up.get m := by
  rw [add, up_set]
  split
  · rw [‹m = n›]
  · rfl

theorem down_add : (c.add n u d).down.get m = if m = n then c.down.get m + d else c.down.get m := by
  rw [add, down_set]
  split
  · rw [‹m = n›]
  · rfl

theorem up_absent (h : ¬ c.Has n) : c.up.get n = 0 := c.up.get_absent n h

theorem down_absent (h : ¬ c.Has n) : c.down.get n = 0 := c.down.get_absent n (by rw [← c.same]; exact h)

/-- The entry of one user as the samples carry it. -/
def entry (c : Counters) (name : String) : UserTraffic := ⟨name, c.up.get name, c.down.get name⟩

/-- The entries in the order of their names (`sort.Strings(names)`, then one entry a name). -/
def sorted (c : Counters) : List UserTraffic := (c.up.keys.insertionSort (· ≤ ·)).map c.entry

end Counters

/-- `l` is a sample of `c`: every user once, with its counters. -/
structure Lists (l : List UserTraffic) (c : Counters) : Prop where
  nodup : (l.map (·.name)).Nodup
  mem : ∀ n, n ∈ l.map (·.name) ↔ c.Has n
  val : ∀ u ∈ l, u = c.entry u.name

variable {c : Counters} {l : List UserTraffic} {m : GoMap String UserTraffic}

theorem lists_map_entry {ks : List String} (h : ks.Perm c.up.keys) : Lists (ks.map c.entry) c where
  nodup := by
    simpa [Function.comp_def, Counters.entry] using h.nodup_iff.mpr c.up.nodup
  mem n := by
    simpa [Counters.entry, Counters.Has] using h.mem_iff
  val u hu := by
    obtain ⟨n, _, rfl⟩ := mem_map.mp hu
    rfl

theorem lists_sorted (c : Counters) : Lists c.sorted c := lists_map_entry (perm_insertionSort _ c.up.keys)

theorem lists_unique {l' : List UserTraffic} (hl : Lists l c) (hl' : Lists l' c) : l.Perm l' := by
  refine (perm_ext_iff_of_nodup hl.nodup.of_map hl'.nodup.of_map).mpr fun u => ?_
  have key : ∀ {l₁ l₂ : List UserTraffic}, Lists l₁ c → Lists l₂ c → u ∈ l₁ → u ∈ l₂ := by
    intro l₁ l₂ h₁ h₂ hu
    have hn : u.name ∈ l₂.map (·.name) := (h₂.mem _).mpr ((h₁.mem _).mp (mem_map_of_mem hu))
    obtain ⟨v, hv, hvn⟩ := mem_map.mp hn
    rw [h₁.val u hu, ← hvn, ← h₂.val v hv]
    exact hv
  exact ⟨key hl hl', key hl' hl⟩

/-- The order of `sort.Slice(users, Name < Name)`. -/
def byName (u v : UserTraffic) : Prop := u.name ≤ v.name

instance : DecidableRel byName := fun u v => inferInstanceAs (Decidable (u.name ≤ v.name))

instance : Std.Total byName := ⟨fun u v => le_total u.name v.name⟩

instance : IsTrans UserTraffic byName := ⟨fun _ _ _ h₁ h₂ => le_trans (α := String) h₁ h₂⟩

theorem sorted_pairwise (c : Counters) : c.sorted.Pairwise byName := by
  rw [Counters.sorted, pairwise_map]
  exact pairwise_insertionSort _ c.up.keys

theorem sort_eq_sorted (hl : Lists l c) : l.insertionSort byName = c.sorted := by
  have hs := lists_sorted c
  have hp := lists_unique hl hs
  refine Perm.eq_of_pairwise ?_ (pairwise_insertionSort byName l) (sorted_pairwise c)
    ((perm_insertionSort byName l).trans hp)
  intro u v hu hv huv hvu
  have hu' := hl.val u ((perm_insertionSort byName l).mem_iff.mp hu)
  rw [hu', hs.val v hv, le_antisymm huv hvu]

/-! ### The sing-box accumulator -/

/-- `singbox.Conn`: what the accumulator reads of a connection. -/
structure Conn where
  (id user : String)
  (up down : UInt64)
  deriving DecidableEq, Repr

structure Snapshot where
  (upBytes downBytes : UInt64)
  connections : UInt32
  conns : List Conn
  deriving DecidableEq, Repr

/-- `singbox.trafficState` without its `latest` sample, which lives in shared memory. Times are nanoseconds. -/
structure TrafficState where
  prev : Option Snapshot
  prevAt : ℤ
  (connUp connDown : GoMap String UInt64)
  user : Counters

/-- The zero state of `NewManager`. -/
def TrafficState.new : TrafficState :=
  ⟨none, 0, empty, empty, Counters.empty⟩

def increment (cur prev : UInt64) : UInt64 := if prev ≤ cur then cur - prev else cur

/-- `t.Sub(u)`, which saturates at the ends of `time.Duration`. -/
def timeSub (t u : ℤ) : ℤ := max (-2 ^ 63) (min (2 ^ 63 - 1) (t - u))

def seconds (d : ℤ) : Float :=
  Float.ofInt (d.tdiv 1000000000) + Float.ofInt (d.tmod 1000000000) / 1e9

def perSec (cur old : UInt64) (secs : Float) : UInt64 :=
  if cur < old ∨ secs ≤ 0 then 0 else ((cur - old).toFloat / secs).toUInt64

variable (st : TrafficState)

/-- One connection of the snapshot: advance its own counters, then its user's. -/
def account (c : Conn) : TrafficState :=
  let up := increment c.up (st.connUp.get c.id)
  let down := increment c.down (st.connDown.get c.id)
  { st with
    connUp := st.connUp.set c.id c.up
    connDown := st.connDown.set c.id c.down
    user := if c.user = "" then st.user else st.user.add c.user up down }

/-- Forget the connections that the snapshot no longer lists. -/
def prune (seen : List String) : TrafficState :=
  let gone := st.connUp.keys.filter (· ∉ seen)
  { st with connUp := st.connUp.delAll gone, connDown := st.connDown.delAll gone }

variable (snapshot : Snapshot) (now : ℤ)

def accumulate : TrafficState × Stat (List UserTraffic) :=
  let (upSpeed, downSpeed) := match st.prev with
    | some prev =>
      let secs := seconds (timeSub now st.prevAt)
      (perSec snapshot.upBytes prev.upBytes secs, perSec snapshot.downBytes prev.downBytes secs)
    | none => (0, 0)
  let st := { st with prev := some snapshot, prevAt := now }
  let st := prune (snapshot.conns.foldl account st) (snapshot.conns.map (·.id))
  (st, ⟨snapshot.upBytes, snapshot.downBytes, upSpeed, downSpeed, snapshot.connections, st.user.sorted⟩)

theorem foldl_account_prev (prev : Option Snapshot) (at' : ℤ) : ∀ (cs : List Conn) (st : TrafficState),
    cs.foldl account { st with prev := prev, prevAt := at' } =
      { cs.foldl account st with prev := prev, prevAt := at' }
  | [], _ => rfl
  | c :: cs, st => foldl_account_prev prev at' cs (account st c)

/-- The state after a poll: the loop over the connections does not see the clock. -/
theorem accumulate_state : (accumulate st snapshot now).1 =
      prune { snapshot.conns.foldl account st with prev := some snapshot, prevAt := now }
        (snapshot.conns.map (·.id)) := by
  rw [← foldl_account_prev]
  rcases st.prev with _ | prev <;> simp [accumulate]

theorem accumulate_user : (accumulate st snapshot now).1.user = (snapshot.conns.foldl account st).user := by
  rw [accumulate_state]
  rfl

/-- `SeedUsers`: restore persisted counters at startup. -/
def seedUsers (c : Counters) : TrafficState :=
  { st with user := c.up.keys.foldl (fun u n => u.set n (c.up.get n) (c.down.get n)) st.user }

theorem foldl_set_get (a b : String → UInt64) : ∀ (ks : List String) (u : Counters) (k : String),
    (ks.foldl (fun u n => u.set n (a n) (b n)) u).entry k =
      if k ∈ ks then ⟨k, a k, b k⟩ else u.entry k
  | [], u, k => by simp
  | n :: ks, u, k => by
    rw [foldl_cons, foldl_set_get a b ks]
    by_cases hk : k ∈ ks
    · simp [hk]
    · rcases eq_or_ne k n with rfl | hne
      · simp [Counters.entry, Counters.up_set, Counters.down_set]
      · simp [hne, Counters.entry, Counters.up_set, Counters.down_set]

theorem seedUsers_entry (c : Counters) (k : String) : (seedUsers TrafficState.new c).user.entry k = c.entry k := by
  rw [seedUsers, foldl_set_get]
  split
  · rfl
  · rename_i hk
    rw [Counters.entry, Counters.entry, c.up_absent hk, c.down_absent hk]
    rfl

@[simp] theorem accumulate_users :
    (accumulate st snapshot now).2.users = (accumulate st snapshot now).1.user.sorted := by
  rcases st.prev with _ | prev <;> simp [accumulate]

/-! ### The hysteria accumulator and the merged sample -/

/-- One entry of hysteria's `/traffic` reply, from the server's perspective. -/
structure Traffic where
  (tx rx : UInt64)
  deriving DecidableEq, Repr, Inhabited

/-- `users[u.Name] = u` for every user of a sample. -/
def userMap (l : List UserTraffic) : GoMap String UserTraffic :=
  l.foldl (fun m u => m.set u.name u) empty

/-- Add `u`'s bytes to the entry of its name. -/
def addUser (m : GoMap String UserTraffic) (u : UserTraffic) : GoMap String UserTraffic :=
  m.set u.name ⟨u.name, (m.get u.name).up + u.up, (m.get u.name).down + u.down⟩

/-- The entry a `/traffic` sample adds for `name`: the server receives what the user sends. -/
def sampleEntry (sample : GoMap String Traffic) (name : String) : UserTraffic :=
  ⟨name, (sample.get name).rx, (sample.get name).tx⟩

variable (ω : MapOrder String)

/-- The map `Poll` rebuilds: the last sample's users plus the bytes of this one. -/
def addSample (latest : List UserTraffic) (sample : GoMap String Traffic) : GoMap String UserTraffic :=
  ((ω.visit sample.keys).map (sampleEntry sample)).foldl addUser (userMap latest)

/-- The map `mergeStats` builds from the two samples. -/
def mergeUsers (left right : List UserTraffic) : GoMap String UserTraffic :=
  right.foldl addUser (userMap left)

/-- The users of a map in the order a `range` loop visits them. -/
def rangeUsers (m : GoMap String UserTraffic) : List UserTraffic :=
  (ω.visit m.keys).map m.get

/-- `m` holds the counters `c`, one entry a user. -/
structure Holds (m : GoMap String UserTraffic) (c : Counters) : Prop where
  mem : ∀ n, n ∈ m.keys ↔ c.Has n
  val : ∀ n ∈ m.keys, m.get n = c.entry n

/-- Add every entry of a list to the counters. -/
def Counters.addAll (c : Counters) (us : List UserTraffic) : Counters :=
  us.foldl (fun c u => c.add u.name u.up u.down) c

theorem holds_range (h : Holds m c) : Lists (rangeUsers ω m) c := by
  have hmap : rangeUsers ω m = (ω.visit m.keys).map c.entry := map_congr_left fun n hn => h.val n (ω.mem_visit.mp hn)
  rw [hmap]
  refine lists_map_entry ((perm_ext_iff_of_nodup (m.range_nodup ω) c.up.nodup).mpr fun n => ?_)
  rw [ω.mem_visit, h.mem]
  rfl

theorem range_first {k : String} (h : Holds m c) (hk : c.Has k) :
    ∃ rest, rangeUsers (MapOrder.first k) m = c.entry k :: rest := by
  have hk' : k ∈ m.keys := (h.mem k).mpr hk
  rw [rangeUsers, MapOrder.visit_first hk', map_cons, h.val k hk']
  exact ⟨_, rfl⟩

theorem holds_userMap (hl : Lists l c) : Holds (userMap l) c := by
  -- generalised over the map already built, which the later entries leave alone
  have key : ∀ (us : List UserTraffic) (m : GoMap String UserTraffic), (us.map (·.name)).Nodup →
      (∀ n, n ∈ (us.foldl (fun m u => m.set u.name u) m).keys ↔ n ∈ us.map (·.name) ∨ n ∈ m.keys) ∧
      (∀ u ∈ us, (us.foldl (fun m u => m.set u.name u) m).get u.name = u) ∧
      ∀ n, n ∉ us.map (·.name) → (us.foldl (fun m u => m.set u.name u) m).get n = m.get n := by
    intro us
    induction us with
    | nil => simp
    | cons v us ih =>
      intro m hnd
      rw [map_cons, nodup_cons] at hnd
      obtain ⟨hk, hv, hn⟩ := ih _ hnd.2
      refine ⟨fun n => ?_, fun u hu => ?_, fun n hne => ?_⟩
      · rw [foldl_cons, hk, mem_keys_set, map_cons, mem_cons]
        tauto
      · rcases mem_cons.mp hu with rfl | hu
        · rw [foldl_cons, hn _ hnd.1, get_set_self]
        · rw [foldl_cons, hv u hu]
      · rw [map_cons, mem_cons, not_or] at hne
        rw [foldl_cons, hn n hne.2, get_set_of_ne _ hne.1]
  obtain ⟨hk, hv, _⟩ := key l empty hl.nodup
  refine ⟨fun n => ?_, fun n hn => ?_⟩
  · rw [userMap, hk, ← hl.mem]
    simp
  · have hn' : n ∈ l.map (·.name) := by
      rw [userMap, hk] at hn
      simpa using hn
    obtain ⟨u, hu, rfl⟩ := mem_map.mp hn'
    rw [userMap, hv u hu]
    exact hl.val u hu

theorem holds_addUser (h : Holds m c) (u : UserTraffic) : Holds (addUser m u) (c.add u.name u.up u.down) := by
  -- an absent user starts from zero on both sides
  have hget : (m.get u.name).up = c.up.get u.name ∧ (m.get u.name).down = c.down.get u.name := by
    by_cases hm : u.name ∈ m.keys
    · rw [h.val _ hm]
      exact ⟨rfl, rfl⟩
    · have hc : ¬ c.Has u.name := fun hc => hm ((h.mem _).mpr hc)
      rw [m.get_absent _ hm, c.up_absent hc, c.down_absent hc]
      exact ⟨rfl, rfl⟩
  refine ⟨fun n => ?_, fun n hn => ?_⟩
  · rw [addUser, mem_keys_set, Counters.has_add, h.mem]
  · rw [addUser, get_set, Counters.entry, Counters.up_add, Counters.down_add]
    by_cases hnu : n = u.name
    · simp [hnu, hget]
    · rw [addUser, mem_keys_set] at hn
      simp only [if_neg hnu]
      exact h.val n (hn.resolve_left hnu)

theorem holds_addAll : ∀ (us : List UserTraffic) (m : GoMap String UserTraffic) (c : Counters),
    Holds m c → Holds (us.foldl addUser m) (c.addAll us)
  | [], _, _, h => h
  | u :: us, _, _, h => holds_addAll us _ _ (holds_addUser h u)

namespace Counters

theorem has_addAll : ∀ (us : List UserTraffic) (c : Counters) (n : String),
    (c.addAll us).Has n ↔ n ∈ us.map (·.name) ∨ c.Has n
  | [], c, n => by simp [addAll]
  | u :: us, c, n => by
    rw [addAll, foldl_cons, ← addAll, has_addAll us, has_add, map_cons, mem_cons]
    tauto

theorem entry_addAll_absent : ∀ (us : List UserTraffic) (c : Counters) (n : String),
    n ∉ us.map (·.name) → (c.addAll us).entry n = c.entry n
  | [], _, _, _ => rfl
  | u :: us, c, n, h => by
    rw [map_cons, mem_cons, not_or] at h
    rw [addAll, foldl_cons, ← addAll, entry_addAll_absent us _ n h.2]
    simp [entry, up_add, down_add, h.1]

theorem entry_addAll_mem : ∀ (us : List UserTraffic) (c : Counters) (u : UserTraffic),
    (us.map (·.name)).Nodup → u ∈ us →
    (c.addAll us).entry u.name = ⟨u.name, c.up.get u.name + u.up, c.down.get u.name + u.down⟩
  | v :: us, c, u, hnd, hu => by
    rw [map_cons, nodup_cons] at hnd
    rw [addAll, foldl_cons, ← addAll]
    rcases mem_cons.mp hu with rfl | hu
    · rw [entry_addAll_absent us _ _ hnd.1]
      simp [entry, up_add, down_add]
    have hne : u.name ≠ v.name := by
      rintro he
      exact hnd.1 (he ▸ mem_map_of_mem hu)
    rw [entry_addAll_mem us _ u hnd.2 hu]
    simp [up_add, down_add, hne]

/-- The sum of two sets of counters: a user of either, with the bytes of both. -/
structure IsSum (c a b : Counters) : Prop where
  has : ∀ n, c.Has n ↔ a.Has n ∨ b.Has n
  up : ∀ n, c.up.get n = a.up.get n + b.up.get n
  down : ∀ n, c.down.get n = a.down.get n + b.down.get n

theorem isSum_addAll {us : List UserTraffic} {b : Counters} (a : Counters) (h : Lists us b) :
    (a.addAll us).IsSum a b := by
  have hentry : ∀ n, (a.addAll us).entry n = ⟨n, a.up.get n + b.up.get n, a.down.get n + b.down.get n⟩ := by
    intro n
    by_cases hn : n ∈ us.map (·.name)
    · obtain ⟨u, hu, rfl⟩ := mem_map.mp hn
      have hval := h.val u hu
      rw [entry_addAll_mem us a u h.nodup hu]
      rw [UserTraffic.ext_iff] at hval
      simp only [entry] at hval
      rw [← hval.2.1, ← hval.2.2]
    · have hb : ¬ b.Has n := fun hb => hn ((h.mem n).mpr hb)
      rw [entry_addAll_absent us a n hn, b.up_absent hb, b.down_absent hb]
      simp [entry]
  refine ⟨fun n => ?_, fun n => ?_, fun n => ?_⟩
  · rw [has_addAll, h.mem, or_comm]
  · exact congrArg UserTraffic.up (hentry n)
  · exact congrArg UserTraffic.down (hentry n)

end Counters

/-- The sum of two sets of counters. -/
def Counters.plus (a b : Counters) : Counters := a.addAll (b.up.keys.map b.entry)

theorem Counters.isSum_plus (a b : Counters) : (a.plus b).IsSum a b := isSum_addAll a (lists_map_entry (Perm.refl _))

theorem lists_of_isSum {c' a b : Counters} (h : c.IsSum a b) (h' : c'.IsSum a b) (hl : Lists l c) : Lists l c' where
  nodup := hl.nodup
  mem n := by rw [hl.mem, h.has, h'.has]
  val u hu := by
    rw [hl.val u hu]
    simp [Counters.entry, h.up, h.down, h'.up, h'.down]

theorem holds_of_isSum {c' a b : Counters} (h : c.IsSum a b) (h' : c'.IsSum a b) (hm : Holds m c) : Holds m c' where
  mem n := by rw [hm.mem, h.has, h'.has]
  val n hn := by
    rw [hm.val n hn]
    simp [Counters.entry, h.up, h.down, h'.up, h'.down]

/-- The bytes of a `/traffic` reply as counters. -/
def sampleCounters (sample : GoMap String Traffic) : Counters :=
  ⟨sample.mapVal (·.rx) rfl, sample.mapVal (·.tx) rfl, rfl⟩

/-- `mergeStats` adds the two samples up, user by user. -/
theorem holds_mergeUsers {left right : List UserTraffic} {a b : Counters} (hl : Lists left a)
    (hr : Lists right b) : Holds (mergeUsers left right) (a.plus b) :=
  holds_of_isSum (Counters.isSum_addAll a hr) (a.isSum_plus b)
    (holds_addAll right _ a (holds_userMap hl))

/-- `Poll` adds the bytes of the reply to the cumulative counters, whatever order it visits them in. -/
theorem holds_addSample {latest : List UserTraffic} {a : Counters}
    (sample : GoMap String Traffic) (hl : Lists latest a) :
    Holds (addSample ω latest sample) (a.plus (sampleCounters sample)) := by
  have hs : Lists ((ω.visit sample.keys).map (sampleEntry sample)) (sampleCounters sample) :=
    lists_map_entry (c := sampleCounters sample) (ω.perm sample.keys)
  exact holds_of_isSum (Counters.isSum_addAll a hs) (a.isSum_plus _)
    (holds_addAll _ _ a (holds_userMap hl))

end Honey.Agent
