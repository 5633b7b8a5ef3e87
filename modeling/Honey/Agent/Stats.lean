import Honey.Agent.Traffic
import Honey.Schemes.Run
import Honey.Schemes.Slice

/-! The Stats stream of the agent (`grpcserver/server.go`) over the memory that the cached samples live in.

    `Latest` copies the header of the cached sample, so `mergeStats` works on the cache's own buffer: `left.Users[:0]`
    keeps the pointer and the appends overwrite it, in map order, until the capacity is used up.

        cache  --> [a b c]        left.Users[:0] --> [a b c]
        append d, b, c, a         cache  --> [d b c]   (a is gone, d has moved in)

    `Totals` says what a sample should show. The memory model refines it exactly as long as every
    delivery is made while merging changes nothing (`Quiet`). -/

namespace Honey.Agent
open Honey.Schemes List

/-- What the Go runtime decides on its own in one step: the two map orders and the growth of appended slices. -/
structure Choice where
  (sample users : MapOrder String)
  grow : ℕ → ℕ

instance : Inhabited Choice := ⟨⟨default, default, id⟩⟩

/-- `singbox.Manager`: the accumulator and its cached sample. -/
structure Singbox where
  stats : TrafficState
  latest : Stat Slice

/-- `hysteria.Manager`: its cached sample is the accumulator. -/
structure Hysteria where
  latest : Stat Slice
  lastAt : ℤ

/-- The two managers that feed the sing-box stream, and the memory of their samples. -/
structure Cores where
  heap : Heap UserTraffic
  sb : Singbox
  hy : Hysteria

structure StatSample where
  atMs : ℤ
  (upBytes downBytes upSpeed downSpeed : UInt64)
  connections : UInt32
  epoch : String
  users : List UserTraffic

/-- The zero `core.Stat`. -/
def Stat.zero : Stat Slice := ⟨0, 0, 0, 0, 0, Slice.nil⟩

/-- The zero `time.Time` in Unix nanoseconds: the first of January of the year one. -/
def zeroTime : ℤ := -62135596800 * 1000000000

/-- The managers of a fresh process, seeded from the store. -/
def Cores.start (seed : Counters) : Cores where
  heap := Heap.empty
  sb := ⟨seedUsers TrafficState.new seed, Stat.zero⟩
  hy := ⟨Stat.zero, zeroTime⟩

variable (ch : Choice)

/-- `singbox.Manager.Poll`; `none` is a Clash API that does not answer. -/
def Cores.pollSingbox (c : Cores) (snapshot : Option Snapshot) (now : ℤ) : Cores :=
  match snapshot with
  | none => c
  | some snapshot =>
    let (stats, stat) := accumulate c.sb.stats snapshot now
    let (heap, users) := build ch.grow c.heap stat.users
    { c with heap := heap, sb := ⟨stats, stat.withUsers users⟩ }

/-- `hysteria.Manager.Poll`; `none` is a request that fails or a reply that does not decode. -/
def Cores.pollHysteria (c : Cores) (sample : Option (GoMap String Traffic)) (now : ℤ) : Cores :=
  match sample with
  | none => c
  | some sample =>
    let latest := c.hy.latest
    let secs := seconds (timeSub now c.hy.lastAt)
    let values := (ch.sample.visit sample.keys).map sample.get
    let deltaUp := (values.map (·.rx)).foldl (· + ·) 0
    let deltaDown := (values.map (·.tx)).foldl (· + ·) 0
    let users := addSample ch.sample (latest.users.read c.heap) sample
    let (heap, out) := build ch.grow c.heap (rangeUsers ch.users users)
    { c with
      heap := heap
      hy := ⟨{ nodeUp := latest.nodeUp + deltaUp
               nodeDown := latest.nodeDown + deltaDown
               upSpeed := if secs > 0 then (deltaUp.toFloat / secs).toUInt64 else latest.upSpeed
               downSpeed :=
                 if secs > 0 then (deltaDown.toFloat / secs).toUInt64 else latest.downSpeed
               connections := latest.connections
               users := out }, now⟩ }

/-- `mergeStats`: both arguments are copies of cached headers, and `left`'s buffer is reused. -/
def mergeStats (h : Heap UserTraffic) (left right : Stat Slice) : Heap UserTraffic × Stat Slice :=
  let users := mergeUsers (left.users.read h) (right.users.read h)
  let (h, merged) := refill ch.grow byName h left.users (rangeUsers ch.users users)
  (h, { nodeUp := left.nodeUp + right.nodeUp
        nodeDown := left.nodeDown + right.nodeDown
        upSpeed := left.upSpeed + right.upSpeed
        downSpeed := left.downSpeed + right.downSpeed
        connections := left.connections + right.connections
        users := merged })

/-- One tick of the `Stats` stream of the core `singbox`: merge the two cached samples and send. -/
def Cores.stats (c : Cores) (epoch : String) (now : ℤ) : Cores × StatSample :=
  let (heap, st) := mergeStats ch c.heap c.sb.latest c.hy.latest
  ({ c with heap := heap },
    { atMs := now / 1000000
      upBytes := st.nodeUp
      downBytes := st.nodeDown
      upSpeed := st.upSpeed
      downSpeed := st.downSpeed
      connections := st.connections
      epoch := epoch
      users := st.users.read heap })

/-- What a holder of the two managers sees as their cached samples. -/
def Cores.cached (c : Cores) : Stat (List UserTraffic) × Stat (List UserTraffic) :=
  (c.sb.latest.withUsers (c.sb.latest.users.read c.heap), c.hy.latest.withUsers (c.hy.latest.users.read c.heap))

/-- The events of the stream: polls of the two cores and deliveries. -/
inductive Act where
  | pollSingbox (snapshot : Option Snapshot) (now : ℤ)
  | pollHysteria (sample : Option (GoMap String Traffic)) (now : ℤ)
  | deliver (epoch : String) (now : ℤ)

/-- One event, with what the runtime decides in it. -/
def Cores.step (c : Cores) (e : Act × Choice) : Cores :=
  match e.1 with
  | .pollSingbox snapshot now => c.pollSingbox e.2 snapshot now
  | .pollHysteria sample now => c.pollHysteria e.2 sample now
  | .deliver epoch now => (c.stats e.2 epoch now).1

/-! ### What the samples should show -/

/-- The cumulative bytes behind the stream: the accumulator, the sing-box counters at its last
    successful poll, and the hysteria counters at its last successful poll. -/
structure Totals where
  acc : TrafficState
  (sb hy : Counters)

def Totals.start (seed : Counters) : Totals :=
  ⟨seedUsers TrafficState.new seed, Counters.empty, Counters.empty⟩

def Totals.step (t : Totals) : Act → Totals
  | .pollSingbox (some snapshot) now =>
    let acc := (accumulate t.acc snapshot now).1
    { t with acc := acc, sb := acc.user }
  | .pollHysteria (some sample) _ => { t with hy := t.hy.plus (sampleCounters sample) }
  | _ => t

/-- A sample that lists each user of either core once, with the bytes of both. -/
structure Exact (users : List UserTraffic) (t : Totals) : Prop where
  once : (users.map (·.name)).Nodup
  mem : ∀ n, n ∈ users.map (·.name) ↔ t.sb.Has n ∨ t.hy.Has n
  up : ∀ u ∈ users, u.up = t.sb.up.get u.name + t.hy.up.get u.name
  down : ∀ u ∈ users, u.down = t.sb.down.get u.name + t.hy.down.get u.name

/-- The memory and the totals side by side. -/
def stepBoth (s : Cores × Totals) (e : Act × Choice) : Cores × Totals :=
  (s.1.step e, s.2.step e.1)

/-- A delivery shows the totals and leaves both cached samples as they were. -/
def Delivers (s : Cores × Totals) (e : Act × Choice) : Prop :=
  match e.1 with
  | .deliver epoch now =>
    Exact (s.1.stats e.2 epoch now).2.users s.2 ∧ (s.1.stats e.2 epoch now).1.cached = s.1.cached
  | _ => True

/-- Merging changes nothing: the sing-box sample is empty (there is no buffer to reuse), or hysteria
    only has users that sing-box has too and no bytes for any of them. -/
def Quiet (t : Totals) : Act → Prop
  | .deliver _ _ =>
    (∀ n, ¬ t.sb.Has n) ∨ ∀ n, t.hy.Has n → t.sb.Has n ∧ t.hy.up.get n = 0 ∧ t.hy.down.get n = 0
  | _ => True

/-! ### The invariant of the memory -/

/-- The caches hold the totals: sing-box's in a full buffer, sorted; hysteria's in one of its own. -/
structure Caches (c : Cores) (t : Totals) : Prop where
  acc : c.sb.stats = t.acc
  sbValid : c.sb.latest.users.Valid c.heap
  sbFull : c.sb.latest.users.len = c.sb.latest.users.cap
  sbRead : c.sb.latest.users.read c.heap = t.sb.sorted
  hyValid : c.hy.latest.users.Valid c.heap
  hyRead : Lists (c.hy.latest.users.read c.heap) t.hy
  apart : c.sb.latest.users.cap = 0 ∨ c.hy.latest.users.ptr ≠ c.sb.latest.users.ptr

theorem caches_start (seed : Counters) : Caches (Cores.start seed) (Totals.start seed) where
  acc := rfl
  sbValid := nil_valid
  sbFull := rfl
  sbRead := rfl
  hyValid := nil_valid
  hyRead := lists_map_entry (c := Counters.empty) (List.Perm.refl [])
  apart := Or.inl rfl

theorem valid_of_frame {h h' : Heap UserTraffic} {s : Slice} (hbuf : h'.buf s.ptr = h.buf s.ptr)
    (hnext : h.next ≤ h'.next) (hv : s.Valid h) : s.Valid h' :=
  ⟨lt_of_lt_of_le hv.ptr_lt hnext, hv.len_le, by rw [hbuf]; exact hv.cap_le⟩

theorem read_of_frame {h h' : Heap UserTraffic} {s : Slice} (hbuf : h'.buf s.ptr = h.buf s.ptr) :
    s.read h' = s.read h := by rw [Slice.read, hbuf, Slice.read]

variable {c : Cores} {t : Totals}

theorem caches_pollSingbox (snapshot : Snapshot) (now : ℤ) (hc : Caches c t) :
    Caches (c.pollSingbox ch (some snapshot) now) (t.step (.pollSingbox (some snapshot) now)) := by
  have hhead := build_header ch.grow c.heap (accumulate c.sb.stats snapshot now).2.users
  have hread := build_read ch.grow c.heap (accumulate c.sb.stats snapshot now).2.users
  have hbuf := build_frame ch.grow (accumulate c.sb.stats snapshot now).2.users hc.hyValid.ptr_lt
  refine ⟨?_, build_valid ch.grow c.heap _, ?_, ?_, ?_, ?_, Or.inr ?_⟩
  · simp [Cores.pollSingbox, Totals.step, hc.acc]
  · simp only [Cores.pollSingbox, Stat.withUsers, hhead]
  · refine hread.trans ?_
    rw [hc.acc]
    rfl
  · exact valid_of_frame hbuf (next_le_build ch.grow c.heap _) hc.hyValid
  · exact (read_of_frame hbuf).symm ▸ hc.hyRead
  · simp only [Cores.pollSingbox, hhead]
    exact ne_of_lt hc.hyValid.ptr_lt

theorem caches_pollHysteria (sample : GoMap String Traffic) (now : ℤ) (hc : Caches c t) :
    Caches (c.pollHysteria ch (some sample) now) (t.step (.pollHysteria (some sample) now)) := by
  set out := rangeUsers ch.users (addSample ch.sample (c.hy.latest.users.read c.heap) sample) with hout
  have hlists : Lists out (t.hy.plus (sampleCounters sample)) :=
    holds_range ch.users (holds_addSample ch.sample sample hc.hyRead)
  have hhead := build_header ch.grow c.heap out
  have hread := build_read ch.grow c.heap out
  have hbuf := build_frame ch.grow out hc.sbValid.ptr_lt
  refine ⟨hc.acc, ?_, hc.sbFull, ?_, build_valid ch.grow c.heap out, ?_, Or.inr ?_⟩
  · exact valid_of_frame hbuf (next_le_build ch.grow c.heap out) hc.sbValid
  · exact (read_of_frame hbuf).trans hc.sbRead
  · simp only [Cores.pollHysteria, ← hout, hread]
    exact hlists
  · simp only [Cores.pollHysteria, ← hout, hhead]
    exact ne_of_gt hc.sbValid.ptr_lt

/-! ### One delivery -/

section Deliver

variable {c : Cores} {t : Totals} (ch : Choice) (epoch : String) (now : ℤ)

/-- The users of the merged sample in the order of `mergeStats`' loop. -/
def Cores.merged (ch : Choice) (c : Cores) : List UserTraffic :=
  rangeUsers ch.users (mergeUsers (c.sb.latest.users.read c.heap) (c.hy.latest.users.read c.heap))

section

variable (hc : Caches c t)
include hc

theorem lists_merged : Lists (c.merged ch) (t.sb.plus t.hy) :=
  holds_range ch.users (holds_mergeUsers (hc.sbRead ▸ lists_sorted t.sb) hc.hyRead)

theorem stats_exact : Exact (c.stats ch epoch now).2.users t := by
  have hread : (c.stats ch epoch now).2.users = (c.merged ch).insertionSort byName :=
    refill_read ch.grow byName _ hc.sbValid
  have hl := lists_sorted (t.sb.plus t.hy)
  have hsum := t.sb.isSum_plus t.hy
  rw [hread, sort_eq_sorted (lists_merged ch hc)]
  refine ⟨hl.nodup, fun n => (hl.mem n).trans (hsum.has n), fun u hu => ?_, fun u hu => ?_⟩
  · rw [← hsum.up]
    exact congrArg UserTraffic.up (hl.val u hu)
  · rw [← hsum.down]
    exact congrArg UserTraffic.down (hl.val u hu)

omit hc in
theorem stats_heap : (c.stats ch epoch now).1.heap = (refill ch.grow byName c.heap c.sb.latest.users (c.merged ch)).1 :=
  rfl

/-- The hysteria cache is never written by a delivery. -/
theorem stats_hy_buf : (c.stats ch epoch now).1.heap.buf c.hy.latest.users.ptr = c.heap.buf c.hy.latest.users.ptr :=
  refill_frame ch.grow byName _ hc.sbValid hc.hyValid.ptr_lt hc.apart

/-- What the sing-box cache shows after a delivery: the merged users if they fitted, and otherwise
    those that the loop happened to visit first. -/
theorem stats_sb_read (hle : t.sb.sorted.length ≤ (c.merged ch).length) :
    c.sb.latest.users.read (c.stats ch epoch now).1.heap =
      if (c.merged ch).length ≤ t.sb.sorted.length then (t.sb.plus t.hy).sorted
      else (c.merged ch).take t.sb.sorted.length := by
  have hlen : c.sb.latest.users.len = t.sb.sorted.length := by
    rw [← hc.sbRead, length_read hc.sbValid]
  have hbuf := refill_buf ch.grow byName (c.merged ch) hc.sbValid
  rw [← hc.sbFull, hlen, sort_eq_sorted (lists_merged ch hc)] at hbuf
  have hperm := lists_unique (lists_merged ch hc) (lists_sorted _)
  rw [Slice.read, stats_heap, hbuf, splice_zero]
  split
  · refine take_left' ?_
    rw [← hperm.length_eq]
    omega
  · refine take_left' ?_
    rw [length_take]
    omega

theorem sorted_length_le_merged : t.sb.sorted.length ≤ (c.merged ch).length := by
  have hs := lists_sorted t.sb
  have hm := lists_merged ch hc
  have hsub : t.sb.sorted.map (·.name) ⊆ (c.merged ch).map (·.name) := by
    intro n hn
    rw [hm.mem, (t.sb.isSum_plus t.hy).has]
    exact Or.inl ((hs.mem n).mp hn)
  simpa using (hs.nodup.subperm hsub).length_le

theorem stats_sb_kept (hq : Quiet t (.deliver epoch now)) :
    c.sb.latest.users.read (c.stats ch epoch now).1.heap = c.sb.latest.users.read c.heap := by
  rcases hq with hnone | hzero
  · -- no user, hence no capacity: the buffer is not reused
    have hnil : t.sb.sorted = [] := by
      refine eq_nil_iff_forall_not_mem.mpr fun u hu => hnone u.name ?_
      exact ((lists_sorted t.sb).mem u.name).mp (mem_map_of_mem hu)
    have hcap : c.sb.latest.users.cap = 0 := by
      rw [← hc.sbFull, ← length_read hc.sbValid, hc.sbRead, hnil, length_nil]
    exact read_of_frame (refill_frame ch.grow byName _ hc.sbValid hc.sbValid.ptr_lt (Or.inl hcap))
  · -- the sums are the sing-box counters, so the rebuilt list is the old one
    have hsum : t.sb.IsSum t.sb t.hy := by
      refine ⟨fun n => ⟨Or.inl, fun h => h.elim id fun hn => (hzero n hn).1⟩, fun n => ?_, fun n => ?_⟩
      · by_cases hn : t.hy.Has n
        · rw [(hzero n hn).2.1, add_zero]
        · rw [t.hy.up_absent hn, add_zero]
      · by_cases hn : t.hy.Has n
        · rw [(hzero n hn).2.2, add_zero]
        · rw [t.hy.down_absent hn, add_zero]
    have hm := lists_merged ch hc
    have hm' := lists_of_isSum (t.sb.isSum_plus t.hy) hsum hm
    have hlen : (c.merged ch).length = t.sb.sorted.length := (lists_unique hm' (lists_sorted t.sb)).length_eq
    rw [stats_sb_read ch epoch now hc (sorted_length_le_merged ch hc), if_pos hlen.le, hc.sbRead,
      ← sort_eq_sorted hm, sort_eq_sorted hm']

/-- Outside the quiet states some map order makes the delivery change the sing-box cache. -/
theorem stats_sb_changed (hq : ¬ Quiet t (.deliver epoch now)) :
    ∃ ch, c.sb.latest.users.read (c.stats ch epoch now).1.heap ≠ c.sb.latest.users.read c.heap := by
  simp only [Quiet, not_or, not_forall, not_not] at hq
  obtain ⟨⟨m, hm⟩, n, hn, hbad⟩ := hq
  have hs := lists_sorted t.sb
  have hsum := t.sb.isSum_plus t.hy
  by_cases hsub : ∀ k, t.hy.Has k → t.sb.Has k
  · -- everything fits: the sums replace the sing-box counters
    refine ⟨default, fun heq => hbad ⟨hsub n hn, ?_⟩⟩
    have hl := lists_merged default hc
    have hlen : (c.merged default).length ≤ t.sb.sorted.length := by
      have hsubset : (c.merged default).map (·.name) ⊆ t.sb.sorted.map (·.name) := by
        intro k hk
        rw [hl.mem, hsum.has] at hk
        exact (hs.mem k).mpr (hk.elim id (hsub k))
      simpa using (hl.nodup.subperm hsubset).length_le
    rw [stats_sb_read default epoch now hc (sorted_length_le_merged default hc), if_pos hlen, hc.sbRead] at heq
    obtain ⟨u, hu, hun⟩ := mem_map.mp ((hs.mem n).mpr (hsub n hn))
    have hval := hs.val u hu
    have hval' := (lists_sorted _).val u (heq ▸ hu)
    rw [hval, hun, Counters.entry, Counters.entry, hsum.up, hsum.down] at hval'
    simp only [UserTraffic.mk.injEq, true_and] at hval'
    exact ⟨by simpa using hval'.1, by simpa using hval'.2⟩
  · -- a user of hysteria alone, visited first, takes the place of another one
    simp only [not_forall] at hsub
    obtain ⟨k, hk, hkn⟩ := hsub
    refine ⟨{ (default : Choice) with users := MapOrder.first k }, fun heq => hkn ?_⟩
    have hl := lists_merged { (default : Choice) with users := MapOrder.first k } hc
    have hlt : t.sb.sorted.length < (c.merged { (default : Choice) with users := MapOrder.first k }).length := by
      have hnd : (k :: t.sb.sorted.map (·.name)).Nodup := nodup_cons.mpr ⟨fun h => hkn ((hs.mem k).mp h), hs.nodup⟩
      have hsubset : k :: t.sb.sorted.map (·.name) ⊆
          (c.merged { (default : Choice) with users := MapOrder.first k }).map (·.name) := by
        intro j hj
        rw [hl.mem, hsum.has]
        rcases mem_cons.mp hj with rfl | hj
        · exact Or.inr hk
        · exact Or.inl ((hs.mem j).mp hj)
      simpa using (hnd.subperm hsubset).length_le
    obtain ⟨rest, hrest⟩ : ∃ rest, c.merged { (default : Choice) with users := MapOrder.first k } =
          (t.sb.plus t.hy).entry k :: rest :=
      range_first (holds_mergeUsers (hc.sbRead ▸ hs) hc.hyRead) ((hsum.has k).mpr (Or.inr hk))
    have hpos : 0 < t.sb.sorted.length := by
      rw [length_pos_iff]
      intro h
      simpa [h] using (hs.mem m).mpr hm
    rw [stats_sb_read _ epoch now hc (sorted_length_le_merged _ hc), if_neg (by omega), hrest, hc.sbRead] at heq
    refine (hs.mem k).mp (mem_map.mpr ⟨(t.sb.plus t.hy).entry k, ?_, rfl⟩)
    obtain ⟨L, hL⟩ := Nat.exists_eq_succ_of_ne_zero hpos.ne'
    rw [← heq, hL]
    exact mem_cons_self

theorem caches_stats (hq : Quiet t (.deliver epoch now)) : Caches (c.stats ch epoch now).1 t where
  acc := hc.acc
  sbValid := refill_valid ch.grow byName (c.merged ch) hc.sbValid
  sbFull := hc.sbFull
  sbRead := (stats_sb_kept ch epoch now hc hq).trans hc.sbRead
  hyValid := valid_of_frame (stats_hy_buf ch epoch now hc) (refill_next ch.grow byName _) hc.hyValid
  hyRead := (read_of_frame (stats_hy_buf ch epoch now hc)).symm ▸ hc.hyRead
  apart := hc.apart

end

end Deliver

/-! ### Runs of the stream -/

theorem caches_step (a : Act) (ch : Choice) (hc : Caches c t) (hq : Quiet t a) :
    Caches (c.step (a, ch)) (t.step a) := by
  rcases a with ⟨snapshot, now⟩ | ⟨sample, now⟩ | ⟨epoch, now⟩
  · rcases snapshot with _ | snapshot
    · exact hc
    · exact caches_pollSingbox ch snapshot now hc
  · rcases sample with _ | sample
    · exact hc
    · exact caches_pollHysteria ch sample now hc
  · exact caches_stats ch epoch now hc hq

/-- A delivery is right whatever the runtime decides exactly in the quiet states. -/
theorem delivers_iff (a : Act) (hc : Caches c t) : (∀ ch, Delivers (c, t) (a, ch)) ↔ Quiet t a := by
  rcases a with ⟨snapshot, now⟩ | ⟨sample, now⟩ | ⟨epoch, now⟩
  · simp [Delivers, Quiet]
  · simp [Delivers, Quiet]
  constructor
  · intro h
    by_contra hq
    obtain ⟨ch, hch⟩ := stats_sb_changed epoch now hc hq
    have hcached := congrArg (fun p => p.1.users) (h ch).2
    exact hch hcached
  · intro hq ch
    refine ⟨stats_exact ch epoch now hc, ?_⟩
    have hsb := stats_sb_kept ch epoch now hc hq
    have hhy := read_of_frame (stats_hy_buf ch epoch now hc)
    exact Prod.ext (congrArg c.sb.latest.withUsers hsb) (congrArg c.hy.latest.withUsers hhy)

theorem stream_iff : ∀ (acts : List Act) {c : Cores} {t : Totals}, Caches c t →
    ((∀ es : List (Act × Choice), es.map Prod.fst = acts → Always stepBoth Delivers (c, t) es) ↔
      Always Totals.step Quiet t acts)
  | [], c, t, _ => by
    refine ⟨fun _ => trivial, ?_⟩
    rintro - es hes
    rw [map_eq_nil_iff.mp hes]
    trivial
  | a :: acts, c, t, hc => by
    constructor
    · intro h
      -- the event itself under any choice, followed by the rest under the default one
      have hq : Quiet t a := by
        refine (delivers_iff a hc).mp fun ch => ?_
        have := h ((a, ch) :: acts.map (·, default)) (by simp [Function.comp_def])
        exact this.1
      refine ⟨hq, (stream_iff acts (caches_step a default hc hq)).mp fun es hes => ?_⟩
      exact (h ((a, default) :: es) (by rw [map_cons, hes])).2
    · rintro ⟨hq, hqs⟩ es hes
      obtain ⟨⟨a', ch⟩, rest, rfl, rfl, hrest⟩ := map_eq_cons_iff.mp hes
      exact ⟨(delivers_iff a' hc).mpr hq ch, (stream_iff acts (caches_step a' ch hc hq)).mpr hqs rest hrest⟩

/-- Every delivery of every run shows the totals and leaves the caches alone, whatever the map orders
    and the growth of slices, exactly if every delivery of the run is made in a quiet state. -/
theorem deliveries_exact_iff (seed : Counters) (acts : List Act) : (∀ es : List (Act × Choice), es.map Prod.fst = acts →
      Always stepBoth Delivers (Cores.start seed, Totals.start seed) es) ↔
    Always Totals.step Quiet (Totals.start seed) acts :=
  stream_iff acts (caches_start seed)

/-- One sing-box poll with 10 bytes of `alice`, one hysteria poll with 5, two deliveries. -/
def twoDeliveries : List Act :=
  [.pollSingbox (some ⟨10, 0, 1, [⟨"c1", "alice", 10, 0⟩]⟩) 0, .pollHysteria (some (GoMap.empty.set "alice" ⟨0, 5⟩)) 0,
   .deliver "e" 0, .deliver "e" 0]

/-- The second sample adds the hysteria bytes to a cache that already holds them. -/
theorem second_delivery_double_counts :
    let s := ((twoDeliveries.take 3).map (·, (default : Choice))).foldl stepBoth
      (Cores.start Counters.empty, Totals.start Counters.empty)
    s.2.sb.up.get "alice" + s.2.hy.up.get "alice" = 15 ∧ (s.1.stats default "e" 0).2.users = [⟨"alice", 20, 0⟩] ∧
      ¬ Delivers s (.deliver "e" 0, default) := by
  have hs : (((twoDeliveries.take 3).map (·, default)).foldl stepBoth
      (Cores.start Counters.empty, Totals.start Counters.empty)).1.stats default "e" 0 |>.2.users
      = [⟨"alice", 20, 0⟩] := by decide
  refine ⟨by decide, hs, ?_⟩
  rintro ⟨hexact, -⟩
  rw [hs] at hexact
  exact absurd (hexact.up ⟨"alice", 20, 0⟩ (by simp)) (by decide)

end Honey.Agent
