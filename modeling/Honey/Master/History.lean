import Honey.Master.Scope
import Honey.Master.Transactions

/-! The hourly history, and what is reported of it (`traffic_totals`, `traffic_series`, `traffic_by_core`).

        committed recording --> row: bytes + d --> hourly (bucket, node, user, core): bytes + d
                                     |                                |
        reset -----> row deleted ----+                                +--> totals = series = cores = sum of all d
                                                                      |
        reset ------------------- leaves it alone --------------------+

    The increment is computed twice, from the locked row and in the upsert. Both see the same row in every interleaving,
    so the history is the sum of what was added to the rows, whatever became of these since (`history_exact`). -/

namespace Honey.Master
open Honey.Schemes List

abbrev HistoryKey := ℤ × Uuid × Uuid × Core

/-! ### Reports -/

variable (db : Db)

/-- The rows behind a report: `traffic_usage_hourly h JOIN users u ON u.id = h.user_id` with the filters of the
    query, of the users that are `owned`. -/
def trafficHistory (owned : Uuid → Bool) (q : TrafficQuery) (start stop : ℤ) : List (HourlyRow × User) :=
  db.hourly.rows.filterMap fun h =>
    if start ≤ h.bucket ∧ h.bucket < stop ∧ q.nodeId.all (h.nodeId = ·) ∧ q.userId.all (h.userId = ·) ∧
        q.core.all (h.core.text = ·) then
      ((db.users.find? h.userId).filter fun u => owned u.id).map (h, ·)
    else none

def trafficTotals (owned : Uuid → Bool) (q : TrafficQuery) (start stop : ℤ) : Except Refusal (ℤ × ℤ) :=
  upDown (trafficHistory db owned q start stop)

/-- The filters of a report. -/
def TrafficQuery.covers (q : TrafficQuery) (owned : Uuid → Bool) (start stop : ℤ) (k : HistoryKey) : Bool :=
  start ≤ k.1 ∧ k.1 < stop ∧ q.nodeId.all (k.2.1 = ·) ∧ q.userId.all (k.2.2.1 = ·) ∧ q.core.all (k.2.2.2.text = ·) ∧
    owned k.2.2.1

/-- The bytes of a part of the history. -/
def Db.usage (p : HistoryKey → Bool) : ℤ × ℤ :=
  (db.hourly.total fun r => if p r.key then r.upBytes else 0,
    db.hourly.total fun r => if p r.key then r.downBytes else 0)

/-- The increments of a part of the history. -/
def increments (log : List Increment) (p : HistoryKey → Bool) : ℤ × ℤ :=
  (((log.filter fun i => p (i.hour, i.key)).map (·.bytes.1)).sum,
    ((log.filter fun i => p (i.hour, i.key)).map (·.bytes.2)).sum)

/-- Two sums as `bigint`s. -/
def bothInt (x : ℤ × ℤ) : Except Refusal (ℤ × ℤ) := do
  let up ← dbInt x.1
  let down ← dbInt x.2
  return (up, down)

section

variable {db : Db} {owned : Uuid → Bool} {q : TrafficQuery} {start stop : ℤ}

/-- No row of the history has lost its user. -/
def Db.Joined (db : Db) : Prop := ∀ r ∈ db.hourly.rows, (db.users.find? r.userId).isSome

theorem history_rows (h : db.Joined) : (trafficHistory db owned q start stop).map (·.1) =
    db.hourly.rows.filter fun r => q.covers owned start stop r.key := by
  rw [trafficHistory, map_filterMap, ← filterMap_eq_filter]
  refine filterMap_congr fun r hr => ?_
  obtain ⟨u, hu⟩ := Option.isSome_iff_exists.mp (h r hr)
  obtain ⟨-, hid⟩ := Table.find?_eq_some.mp hu
  by_cases hcovers : q.covers owned start stop r.key = true
  · obtain ⟨hstart, hstop, hnode, huser, hcore, howned⟩ := of_decide_eq_true hcovers
    have hown : owned u.id = true := by rw [hid]; exact howned
    rw [if_pos ⟨hstart, hstop, hnode, huser, hcore⟩, hu]
    simp [hcovers, hown]
  simp only [Option.guard]
  split
  · rename_i hfilter
    have hown : ¬ owned u.id = true := by
      intro howned
      rw [hid] at howned
      exact hcovers (decide_eq_true ⟨hfilter.1, hfilter.2.1, hfilter.2.2.1, hfilter.2.2.2.1, hfilter.2.2.2.2, howned⟩)
    simp [hu, hown]
  · rfl

theorem upDown_history (h : db.Joined) :
    upDown (trafficHistory db owned q start stop) = bothInt (db.usage (q.covers owned start stop)) := by
  have hsum : ∀ f : HourlyRow → ℤ, ((trafficHistory db owned q start stop).map (f ·.1)).sum =
      db.hourly.total fun r => if q.covers owned start stop r.key then f r else 0 := by
    intro f
    have hmap : (trafficHistory db owned q start stop).map (f ·.1) =
        (db.hourly.rows.filter fun r => q.covers owned start stop r.key).map f := by
      rw [← history_rows h, map_map]
      rfl
    rw [hmap]
    exact db.hourly.total_keep _ f
  simp [upDown, bothInt, Db.usage, hsum]

end

/-! ### Sums by groups -/

theorem dbInt_eq_ok {x y : ℤ} : dbInt x = .ok y ↔ InI64 x ∧ y = x := by
  rw [dbInt, bigint]
  split <;> rename_i h
  · split at h <;> simp_all [eq_comm]
  · split at h <;> simp_all

variable {rows : List (HourlyRow × User)}

theorem upDown_eq_ok {t : ℤ × ℤ} : upDown rows = .ok t ↔
    InI64 (rows.map (·.1.upBytes)).sum ∧ InI64 (rows.map (·.1.downBytes)).sum ∧
      t = ((rows.map (·.1.upBytes)).sum, (rows.map (·.1.downBytes)).sum) := by
  simp only [upDown, bind_eq_ok, dbInt_eq_ok]
  constructor
  · rintro ⟨up, ⟨hup, rfl⟩, down, ⟨hdown, rfl⟩, h⟩
    exact ⟨hup, hdown, (Except.ok.inj h).symm⟩
  · rintro ⟨hup, hdown, rfl⟩
    exact ⟨_, ⟨hup, rfl⟩, _, ⟨hdown, rfl⟩, rfl⟩

theorem inI64_part {f : HourlyRow × User → ℤ} (hnonneg : ∀ x ∈ rows, 0 ≤ f x) (h : InI64 (rows.map f).sum)
    (p : HourlyRow × User → Bool) : InI64 ((rows.filter p).map f).sum := by
  have hpart : 0 ≤ ((rows.filter p).map f).sum := by
    refine sum_nonneg fun y hy => ?_
    obtain ⟨x, hx, rfl⟩ := mem_map.mp hy
    exact hnonneg x (mem_filter.mp hx).1
  have hle : ((rows.filter p).map f).sum ≤ (rows.map f).sum := by
    refine Sublist.sum_le_sum (filter_sublist.map f) fun y hy => ?_
    obtain ⟨x, hx, rfl⟩ := mem_map.mp hy
    exact hnonneg x hx
  exact ⟨by linarith, lt_of_le_of_lt hle h.2⟩

section

variable {t : ℤ × ℤ} (hnonneg : ∀ x ∈ rows, 0 ≤ x.1.upBytes ∧ 0 ≤ x.1.downBytes) (h : upDown rows = .ok t)
include hnonneg h

/-- If the totals are reported then so are the groups, and they add up to the totals. -/
theorem groups_reported {κ : Type} [DecidableEq κ] {ks : List κ} (hnodup : ks.Nodup) {key : HourlyRow × User → κ}
    (hall : ∀ x ∈ rows, key x ∈ ks) :
    ∃ groups, ks.mapM (fun k => (upDown (rows.filter (key · = k))).map (k, ·)) = .ok groups ∧
      (groups.map (·.2.1)).sum = t.1 ∧ (groups.map (·.2.2)).sum = t.2 := by
  obtain ⟨hup, hdown, rfl⟩ := upDown_eq_ok.mp h
  refine ⟨ks.map fun k => (k, ((rows.filter (key · = k)).map (·.1.upBytes)).sum,
    ((rows.filter (key · = k)).map (·.1.downBytes)).sum), mapM_eq_ok_map fun k _ => ?_, ?_, ?_⟩
  · refine map_eq_ok.mpr ⟨_, upDown_eq_ok.mpr ⟨?_, ?_, rfl⟩, rfl⟩
    · exact inI64_part (fun x hx => (hnonneg x hx).1) hup _
    · exact inI64_part (fun x hx => (hnonneg x hx).2) hdown _
  · rw [map_map]
    exact sum_groups hnodup key _ rows hall
  · rw [map_map]
    exact sum_groups hnodup key _ rows hall

theorem series_reported (b : BucketSize) : ∃ points, trafficSeries b rows = .ok points ∧
      (points.map (·.2.1)).sum = t.1 ∧ (points.map (·.2.2)).sum = t.2 := by
  refine groups_reported hnonneg h ?_ fun x hx => ?_
  · exact (perm_insertionSort _ _).nodup_iff.mpr (nodup_dedup _)
  · rw [mem_insertionSort, mem_dedup]
    exact mem_map_of_mem hx

theorem cores_reported : ∃ cores, trafficByCore rows = .ok cores ∧
    (cores.map (·.2.1)).sum = t.1 ∧ (cores.map (·.2.2)).sum = t.2 := by
  refine groups_reported hnonneg h ?_ fun x hx => mem_filter.mpr ⟨?_, ?_⟩
  · exact Nodup.filter _ (by decide)
  · cases x.1.core <;> decide
  · exact any_eq_true.mpr ⟨x, hx, decide_eq_true rfl⟩

end

/-! ### What a commit does to the history -/

section

variable {db : Db} {x : Sample} {before : User} {row : TrafficRow} {entry : Option HourlyRow} {after : ℤ}

/-- A recording adds to the history what it adds to its row. -/
theorem usage_recorded (h : (RecordStage.commit before row entry after).Fits db x) (p : HistoryKey → Bool) :
    (db.recorded before row entry after).usage p = db.usage p +
      if p (x.hour, x.key) then (row.upBytes, row.downBytes) - db.bytes x.key else 0 := by
  obtain ⟨-, hrow, hentry, -⟩ := h
  have hdelta := (upsertRow_ok hrow).2
  obtain ⟨hup, hdown⟩ := delta_nonneg hrow
  rw [← hdelta]
  have hnone : entry = none → x.delta (db.traffic.find? x.key) = 0 := by
    rintro rfl
    have hle := hourlyRow_none hentry
    exact Prod.ext (le_antisymm hle.1 hup) (le_antisymm hle.2 hdown)
  have hups := db.hourly.total_entry (fun hn => congrArg Prod.fst (hnone hn))
    (fun r hr => ⟨(hourlyRow_ok (hr ▸ hentry)).1, (hourlyRow_ok (hr ▸ hentry)).2.1⟩) p
  have hdowns := db.hourly.total_entry (fun hn => congrArg Prod.snd (hnone hn))
    (fun r hr => ⟨(hourlyRow_ok (hr ▸ hentry)).1, (hourlyRow_ok (hr ▸ hentry)).2.2⟩) p
  refine Prod.ext ?_ ?_
  · refine hups.trans ?_
    split <;> rfl
  · refine hdowns.trans ?_
    split <;> rfl

theorem bytes_recorded (h : (RecordStage.commit before row entry after).Fits db x) :
    (db.recorded before row entry after).bytes x.key = (row.upBytes, row.downBytes) := by
  have hkey : row.key = x.key := by rw [(upsertRow_ok h.2.1).1, nextRow_key]
  have hfind : (db.traffic.put row).find? x.key = some row := by rw [← hkey, Table.find?_put_self]
  rw [Db.bytes, Db.recorded, hfind]
  rfl

theorem entry_ok (h : (RecordStage.commit before row entry after).Fits db x) {r : HourlyRow} (hr : entry = some r)
    (hnonneg : ∀ r ∈ db.hourly.rows, 0 ≤ r.upBytes ∧ 0 ≤ r.downBytes) :
    (db.users.find? r.userId).isSome ∧ 0 ≤ r.upBytes ∧ 0 ≤ r.downBytes := by
  obtain ⟨hu, hrow, hentry, -⟩ := h
  obtain ⟨hkey, hup, hdown⟩ := hourlyRow_ok (hr ▸ hentry)
  obtain ⟨hdup, hddown⟩ := delta_nonneg hrow
  have huser : r.userId = x.user := congrArg (·.2.2.1) hkey
  refine ⟨by rw [huser, hu]; rfl, ?_⟩
  rw [hup, hdown]
  cases hold : db.hourly.find? (x.hour, x.key) with
  | none => exact ⟨by simpa using hdup, by simpa using hddown⟩
  | some old =>
    obtain ⟨holdup, holddown⟩ := hnonneg old (Table.find?_eq_some.mp hold).1
    exact ⟨add_nonneg holdup hdup, add_nonneg holddown hddown⟩

end

/-! ### Every interleaving -/

theorem increments_concat (log : List Increment) (i : Increment) (p : HistoryKey → Bool) :
    increments (log ++ [i]) p = increments log p + if p (i.hour, i.key) then i.bytes else 0 := by
  by_cases hp : p (i.hour, i.key) = true <;> simp [increments, hp, Prod.ext_iff]

/-- The history is what the log says. -/
structure Booked (s : TrafficStore) : Prop where
  joined : s.db.Joined
  nonneg : ∀ r ∈ s.db.hourly.rows, 0 ≤ r.upBytes ∧ 0 ≤ r.downBytes
  usage : ∀ p, s.db.usage p = increments s.log p

theorem booked_start : Booked ⟨{ db with hourly := Table.empty }, []⟩ where
  joined _ h := by cases h
  nonneg _ h := by cases h
  usage _ := rfl

theorem booked_commit {s s' : TrafficStore} {t : TrafficTx} (h : Booked s) (hfits : t.Fits s)
    (hnext : t.next s = .commit s') : Booked s' := by
  have husers := commit_users hfits hnext
  cases t with
  | record x st =>
    obtain ⟨before, row, entry, after, rfl, rfl⟩ := commit_record hnext
    have hrows : ∀ r ∈ (s.db.recorded before row entry after).hourly.rows, r ∈ s.db.hourly.rows ∨ entry = some r := by
      intro r hr
      rcases entry with _ | e
      · exact .inl hr
      rcases Table.mem_put.mp hr with rfl | ⟨hold, -⟩
      · exact .inr rfl
      · exact .inl hold
    refine ⟨fun r hr => ?_, fun r hr => ?_, fun p => ?_⟩
    · rw [husers]
      rcases hrows r hr with hold | hnew
      · exact h.joined r hold
      · exact (entry_ok hfits hnew h.nonneg).1
    · rcases hrows r hr with hold | hnew
      · exact h.nonneg r hold
      · exact (entry_ok hfits hnew h.nonneg).2
    · rw [usage_recorded hfits, increments_concat, h.usage p]
  | reset user st =>
    obtain ⟨deleted, locked, rfl, rfl⟩ := commit_reset hnext
    refine ⟨fun r hr => ?_, h.nonneg, h.usage⟩
    rw [husers]
    exact h.joined r hr

/-- A recording that commits adds to the history of its key what it adds to its row, and its increment is logged; a
    reset leaves the history alone. -/
def CommitFollows (s s' : TrafficStore) : TrafficTx → Prop
  | .record x _ =>
    s'.log = s.log ++ [⟨x.hour, x.key, s'.db.bytes x.key - s.db.bytes x.key⟩] ∧
    ∀ p, s'.db.usage p = s.db.usage p + if p (x.hour, x.key) then s'.db.bytes x.key - s.db.bytes x.key else 0
  | .reset _ _ => s'.log = s.log ∧ s'.db.hourly = s.db.hourly

def HistoryFollows (s : TrafficServer) (e : LockEvent TrafficCall) : Prop :=
  ∀ t s', trafficLocking.committing s e = some (t, s') → CommitFollows s.store s' t

theorem follows_of_fits {s s' : TrafficStore} {t : TrafficTx} (hfits : t.Fits s) (hnext : t.next s = .commit s') :
    CommitFollows s s' t := by
  cases t with
  | record x st =>
    obtain ⟨before, row, entry, after, rfl, rfl⟩ := commit_record hnext
    have hbytes := bytes_recorded hfits
    refine ⟨by rw [hbytes], fun p => ?_⟩
    rw [usage_recorded hfits, hbytes]
  | reset user st =>
    obtain ⟨deleted, locked, rfl, rfl⟩ := commit_reset hnext
    exact ⟨rfl, rfl⟩

/-- In every interleaving of recordings and resets, from any tables without a history: every commit of a recording
    adds to the history what it adds to its row, and no reset changes the history. At the end every total that is
    reported is the sum of the increments, and so are the sums of the series and of the cores. -/
theorem history_exact (db : Db) (es : List (LockEvent TrafficCall)) :
    let start : TrafficServer := Locking.idle ⟨{ db with hourly := Table.empty }, []⟩
    let store := (es.foldl trafficLocking.step start).store
    Always trafficLocking.step HistoryFollows start es ∧ ∀ owned q since till,
      trafficTotals store.db owned q since till = bothInt (increments store.log (q.covers owned since till)) ∧
      ∀ t, trafficTotals store.db owned q since till = .ok t →
        (∀ b, ∃ points, trafficSeries b (trafficHistory store.db owned q since till) = .ok points ∧
          (points.map (·.2.1)).sum = t.1 ∧ (points.map (·.2.2)).sum = t.2) ∧
        ∃ cores, trafficByCore (trafficHistory store.db owned q since till) = .ok cores ∧
          (cores.map (·.2.1)).sum = t.1 ∧ (cores.map (·.2.2)).sum = t.2 := by
  intro start store
  have hbooked : Booked store := Locking.store_run trafficLocking_sound booked_commit (booked_start db) es
  constructor
  · have hcommits := Locking.commits_fit trafficLocking_sound ⟨{ db with hourly := Table.empty }, []⟩ es
    rw [always_iff_prefixes] at hcommits ⊢
    intro pre e suf hes t s' hcommit
    obtain ⟨hfits, hnext⟩ := hcommits pre e suf hes t s' hcommit
    exact follows_of_fits hfits hnext
  · intro owned q since till
    have hnonneg : ∀ y ∈ trafficHistory store.db owned q since till, 0 ≤ y.1.upBytes ∧ 0 ≤ y.1.downBytes := by
      intro y hy
      have hrow : y.1 ∈ (trafficHistory store.db owned q since till).map (·.1) := mem_map_of_mem hy
      rw [history_rows hbooked.joined] at hrow
      exact hbooked.nonneg y.1 (mem_filter.mp hrow).1
    refine ⟨?_, fun t ht => ⟨series_reported hnonneg ht, cores_reported hnonneg ht⟩⟩
    rw [trafficTotals, upDown_history hbooked.joined, hbooked.usage]

/-- One reading that is recorded, while a reset of the user waits. -/
def oneReading : TrafficStore :=
  ([.begin 1 (.record reading), .next 1, .next 1, .begin 2 (.reset 7 []), .next 2, .next 2, .next 1, .next 1, .next 1,
    .next 1, .next 2, .next 2, .next 2].foldl trafficLocking.step
      (Locking.idle ⟨{ limited with hourly := Table.empty }, []⟩)).store

/-- The row is gone with the reset, and the 300 bytes are reported. -/
theorem one_reading_reported : oneReading.db.bytes reading.key = 0 ∧
    trafficTotals oneReading.db (fun _ => true) ⟨none, none, none, none, none, none⟩ 0 1 = .ok (300, 0) ∧
    ∃ points, trafficSeries .day
        (trafficHistory oneReading.db (fun _ => true) ⟨none, none, none, none, none, none⟩ 0 1) = .ok points ∧
      (points.map (·.2.1)).sum = 300 ∧ (points.map (·.2.2)).sum = 0 := by
  have htotals :
      trafficTotals oneReading.db (fun _ => true) ⟨none, none, none, none, none, none⟩ 0 1 = .ok (300, 0) := by
    decide +kernel
  refine ⟨by decide +kernel, htotals, ?_⟩
  exact (((history_exact limited _).2 _ _ 0 1).2 _ htotals).1 .day

end Honey.Master
