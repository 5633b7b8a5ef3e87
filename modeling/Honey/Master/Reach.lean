import Honey.Master.Auth
import Honey.Schemes.Run

/-! Whether an inbound can be reached (`reach.rs`, `record_reachability_report`): reports of vantage points, and
    probes of the master where there are none.

        report   insert --> consensus of the last 30 minutes --> store the verdict
        probe    no report in the last 30 minutes? --> probe, for seconds --> store what it saw

    Every writer stores what it computed from an earlier read. The stored flag is the consensus of the vantage points
    as long as nothing comes between the steps of a report, and no report between those of a probe
    (`consensus_stored`); otherwise the last store wins, whatever it was computed from.

    A stored block rotates the SNI. The reports stay when the name changes, so a block of the old name rotates the new
    one too (`stale_block_rotates`).

    The CDN host goes by latency: to the first of the fastest, if it is faster by a margin. -/

namespace Honey.Master
open Honey.Schemes List Table

/-! ### Reports -/

/-- `reachability_reports`, of one inbound, oldest first. -/
structure VantageReport where
  source : String
  reachable : Bool
  createdAt : ℤ
  deriving DecidableEq, Repr

/-- `interval '30 minutes'`. -/
def reachWindow : ℤ := 1800000000

def recentReports (now : ℤ) (rows : List VantageReport) : List VantageReport :=
  rows.filter (now - reachWindow < ·.createdAt)

/-- `SELECT DISTINCT ON (source) … ORDER BY source, created_at DESC`. -/
def latestBySource (rows : List VantageReport) : List VantageReport :=
  (rows.insertionSort (·.createdAt ≤ ·.createdAt)).pwFilter (·.source ≠ ·.source)

/-- `CASE WHEN count(*) = 0 THEN NULL WHEN bool_and(reachable) THEN true ELSE false END`. -/
def verdict (rows : List VantageReport) : Option Bool :=
  if (latestBySource rows).isEmpty then none else some ((latestBySource rows).all (·.reachable))

/-- The text of the source in `report_reachability`. -/
def reportSource (source : Option String) : String :=
  let text := trim (source.getD "")
  String.ofList ((if text = "" then "vantage" else text).toList.take 64)

/-! ### Steps -/

/-- What a report or a probe does next. -/
inductive ReachTask where
  | insert (source : String) (reachable : Bool)
  | query
  | storeVerdict (v : Option Bool)
  | check
  | probe
  | storeProbe (ok : Bool)
  deriving DecidableEq

def ReachTask.isReport : ReachTask → Bool
  | .insert _ _ | .query | .storeVerdict _ => true
  | .check | .probe | .storeProbe _ => false

/-- An inbound without a pool of names, and what is in progress. -/
structure ReachState where
  clock : ℤ
  quic : Bool
  reports : List VantageReport
  reachable : Option Bool
  reachError : Option String
  tasks : Table (Prod.fst : ℕ × ReachTask → ℕ)

/-- Time passes; a report or a probe begins; or the next statement of one is made, with an error of the database or
    what a probe saw (nothing if the port is none). -/
inductive ReachEv where
  | wait (d : ℕ)
  | report (p : ℕ) (source : Option String) (reachable : Bool)
  | monitor (p : ℕ)
  | probeNow (p : ℕ)
  | next (p : ℕ) (fault : Bool) (saw : Option Bool)

def verdictError (v : Option Bool) : Option String :=
  if v = some false then some "blocked from a vantage checker" else none

def probeError (quic ok : Bool) : Option String :=
  if ok then none else some (if quic then "quic version negotiation failed" else "tcp connect failed")

namespace ReachState

variable (s : ReachState) (p : ℕ)

def goOn (t : ReachTask) : ReachState := { s with tasks := s.tasks.put (p, t) }

def finish : ReachState := { s with tasks := s.tasks.keep (·.1 ≠ p) }

/-- `set_inbound_reachability`. -/
def setReachability (reachable : Option Bool) (error : Option String) : ReachState :=
  { s with reachable := reachable, reachError := error }

def begin (t : ReachTask) : ReachState :=
  if (s.tasks.find? p).isSome then s else s.goOn p t

/-- `record_reachability_report`, `has_recent_vantage_report` and `check_one`, one statement at a time. -/
def perform (fault : Bool) (saw : Option Bool) : ReachTask → ReachState
  | .insert source reachable =>
    if fault then s.finish p
    else ({ s with reports := s.reports ++ [⟨source, reachable, s.clock⟩] } : ReachState).goOn p .query
  | .query => if fault then s.finish p else s.goOn p (.storeVerdict (verdict (recentReports s.clock s.reports)))
  | .storeVerdict v => if fault then s.finish p else (s.setReachability v (verdictError v)).finish p
  | .check => if fault = false ∧ recentReports s.clock s.reports ≠ [] then s.finish p else s.goOn p .probe
  | .probe => match saw with
    | none => s.finish p
    | some ok => s.goOn p (.storeProbe ok)
  | .storeProbe ok =>
    if fault then s.finish p else (s.setReachability (some ok) (probeError s.quic ok)).finish p

def step : ReachEv → ReachState
  | .wait d => { s with clock := s.clock + d }
  | .report p source reachable => s.begin p (.insert (reportSource source) reachable)
  | .monitor p => s.begin p .check
  | .probeNow p => s.begin p .probe
  | .next p fault saw => match s.tasks.find? p with
    | none => s
    | some x => s.perform p fault saw x.2

/-- No report yet, and nothing in progress. -/
def start (clock : ℤ) (quic : Bool) (reachable : Option Bool) (error : Option String) : ReachState :=
  ⟨clock, quic, [], reachable, error, Table.empty⟩

end ReachState

/-- The latest report of some source is a block. -/
def Blocked (rows : List VantageReport) : Prop :=
  ∃ r ∈ rows, r.reachable = false ∧ ∀ x ∈ rows, x.source = r.source → x.createdAt ≤ r.createdAt

/-- With nothing in progress and a report in the last 30 minutes, the flag is the consensus of the reports in the 30
    minutes before the last one. -/
def ReachState.Agrees (s : ReachState) : Prop :=
  s.tasks.rows = [] → ∀ r, s.reports.getLast? = some r → s.clock - reachWindow < r.createdAt →
    (Blocked (recentReports r.createdAt s.reports) → s.reachable = some false) ∧
      (¬ Blocked (recentReports r.createdAt s.reports) → s.reachable = some true)

/-- A report begins while nothing is in progress, later than the last of its source; no report leaves the 30 minutes
    between its insertion and the query; a probe begins while no report is in progress, and one that does not ask for
    reports while there is none; and the statements that decide do not fail. -/
def ReachState.Alone (s : ReachState) : ReachEv → Prop
  | .wait d => (∃ x ∈ s.tasks.rows, x.2 = .query) →
      recentReports (s.clock + d) s.reports = recentReports s.clock s.reports
  | .report _ source _ => s.tasks.rows = [] ∧ ∀ r ∈ s.reports, r.source = reportSource source → r.createdAt < s.clock
  | .monitor _ => ∀ x ∈ s.tasks.rows, x.2.isReport = false
  | .probeNow _ => (∀ x ∈ s.tasks.rows, x.2.isReport = false) ∧ recentReports s.clock s.reports = []
  | .next p fault _ => ∀ x, s.tasks.find? p = some x →
      x.2 = .query ∨ (∃ v, x.2 = .storeVerdict v) ∨ x.2 = .check → fault = false

/-! ### The consensus -/

section

variable {rows : List VantageReport} {r : VantageReport}

theorem source_split {a b c : VantageReport} (h : a.source ≠ c.source) : a.source ≠ b.source ∨ b.source ≠ c.source := by
  by_contra hboth
  rw [not_or, not_not, not_not] at hboth
  exact h (hboth.1.trans hboth.2)

theorem forall_kept : (∀ x ∈ rows.pwFilter (·.source ≠ ·.source), r.source ≠ x.source) ↔
    ∀ x ∈ rows, r.source ≠ x.source := by
  refine forall_mem_pwFilter ?_ r rows
  intro a b c h
  exact source_split h

theorem latest_of_kept : ∀ {rows : List VantageReport}, rows.Pairwise (·.createdAt ≤ ·.createdAt) →
    r ∈ rows.pwFilter (·.source ≠ ·.source) → ∀ x ∈ rows, x.source = r.source → x.createdAt ≤ r.createdAt
  | y :: rows, hsorted, hr, x, hx, hsource => by
    obtain ⟨hfirst, hsorted⟩ := pairwise_cons.mp hsorted
    by_cases hkeep : ∀ z ∈ rows.pwFilter (·.source ≠ ·.source), y.source ≠ z.source
    · rw [pwFilter_cons_of_pos hkeep] at hr
      rcases mem_cons.mp hr with rfl | hkept
      · have hnone := forall_kept.mp hkeep
        rcases mem_cons.mp hx with rfl | hx
        · exact le_refl _
        · exact absurd hsource.symm (hnone x hx)
      · rcases mem_cons.mp hx with rfl | hx
        · exact hfirst r (pwFilter_subset rows hkept)
        · exact latest_of_kept hsorted hkept x hx hsource
    · rw [pwFilter_cons_of_neg hkeep] at hr
      rcases mem_cons.mp hx with rfl | hx
      · exact hfirst r (pwFilter_subset rows hr)
      · exact latest_of_kept hsorted hr x hx hsource

theorem mem_sorted : r ∈ rows.insertionSort (·.createdAt ≤ ·.createdAt) ↔ r ∈ rows := mem_insertionSort _

theorem sorted_reports (rows : List VantageReport) :
    (rows.insertionSort (·.createdAt ≤ ·.createdAt)).Pairwise (·.createdAt ≤ ·.createdAt) :=
  pairwise_insertionSort _ rows

theorem exists_latest (hr : r ∈ rows) : ∃ x ∈ latestBySource rows, x.source = r.source := by
  by_contra hnone
  push Not at hnone
  have hall := forall_kept.mp fun x hx => (hnone x hx).symm
  exact hall r (mem_sorted.mpr hr) rfl

/-- No source has two reports of one time. -/
def Distinct (rows : List VantageReport) : Prop :=
  ∀ a ∈ rows, ∀ b ∈ rows, a.source = b.source → a.createdAt = b.createdAt → a = b

theorem blocked_of_latest (hr : r ∈ latestBySource rows) (hblock : r.reachable = false) : Blocked rows :=
  ⟨r, mem_sorted.mp (pwFilter_subset _ hr), hblock, fun x hx hsource =>
    latest_of_kept (sorted_reports rows) hr x (mem_sorted.mpr hx) hsource⟩

theorem blocked_of_verdict (h : verdict rows = some false) : Blocked rows := by
  rw [verdict] at h
  split at h
  · cases h
  obtain ⟨r, hr, hblock⟩ := all_eq_false.mp (Option.some.inj h)
  exact blocked_of_latest hr (Bool.eq_false_iff.mpr hblock)

theorem all_reachable_iff (hdistinct : Distinct rows) :
    (latestBySource rows).all (·.reachable) = true ↔ ¬ Blocked rows := by
  rw [all_eq_true]
  constructor
  · rintro hall ⟨r, hr, hblock, hlatest⟩
    obtain ⟨x, hx, hsource⟩ := exists_latest hr
    have hmem : x ∈ rows := mem_sorted.mp (pwFilter_subset _ hx)
    have hle := latest_of_kept (sorted_reports rows) hx r (mem_sorted.mpr hr) hsource.symm
    obtain rfl := hdistinct x hmem r hr hsource (le_antisymm (hlatest x hmem hsource) hle)
    cases hblock.symm.trans (hall x hx)
  · intro hnot r hr
    by_contra hblock
    exact hnot (blocked_of_latest hr (Bool.eq_false_iff.mpr hblock))

/-- The verdict on reports of which there are some: a block of one source wins. -/
theorem verdict_spec (hr : r ∈ rows) (hdistinct : Distinct rows) :
    (Blocked rows → verdict rows = some false) ∧ (¬ Blocked rows → verdict rows = some true) := by
  obtain ⟨x, hx, -⟩ := exists_latest hr
  have hsome : (latestBySource rows).isEmpty = false := by
    rw [isEmpty_eq_false_iff_exists_mem]
    exact ⟨x, hx⟩
  have hiff := all_reachable_iff hdistinct
  rw [verdict, hsome]
  constructor
  · intro hblocked
    have hall : (latestBySource rows).all (·.reachable) = false := by
      rw [Bool.eq_false_iff, Ne, hiff]
      exact not_not.mpr hblocked
    rw [hall]
    rfl
  · intro hfree
    rw [hiff.mpr hfree]
    rfl

end

/-! ### The invariant -/

namespace ReachState

/-- Outside of the two steps between which a report is recorded and not yet stored. -/
def Quiet (t : ReachTask) : Prop := t ≠ .query ∧ ∀ v, t ≠ .storeVerdict v

variable {t : ReachTask} {x : ℕ × ReachTask} {p : ℕ}

theorem quiet_of_probe (h : t.isReport = false) : Quiet t := by
  constructor
  · rintro rfl
    cases h
  · rintro v rfl
    cases h

/-- What every task relies on. A report is alone; a probe that goes on has no report to respect; and outside of a
    report the flag is the verdict on the reports up to the last one. -/
structure Steady (s : ReachState) : Prop where
  bounded : ∀ r ∈ s.reports, r.createdAt ≤ s.clock
  distinct : Distinct s.reports
  alone : ∀ x ∈ s.tasks.rows, x.2.isReport → ∀ y ∈ s.tasks.rows, y = x
  later : ∀ x ∈ s.tasks.rows, ∀ source reachable, x.2 = .insert source reachable →
    ∀ r ∈ s.reports, r.source = source → r.createdAt < s.clock
  queried : ∀ x ∈ s.tasks.rows, x.2 = .query → ∃ r, s.reports.getLast? = some r ∧
    recentReports s.clock s.reports = recentReports r.createdAt s.reports
  stored : ∀ x ∈ s.tasks.rows, ∀ v, x.2 = .storeVerdict v → ∃ r, s.reports.getLast? = some r ∧
    v = verdict (recentReports r.createdAt s.reports)
  probed : ∀ x ∈ s.tasks.rows, x.2 = .probe ∨ (∃ ok, x.2 = .storeProbe ok) → recentReports s.clock s.reports = []
  settled : (∀ x ∈ s.tasks.rows, Quiet x.2) → ∀ r, s.reports.getLast? = some r →
    s.clock - reachWindow < r.createdAt → s.reachable = verdict (recentReports r.createdAt s.reports)

variable {s : ReachState}

theorem last_recent {now : ℤ} {r : VantageReport} (hlast : s.reports.getLast? = some r)
    (hrecent : now - reachWindow < r.createdAt) : r ∈ recentReports now s.reports :=
  mem_filter.mpr ⟨mem_of_getLast? hlast, decide_eq_true hrecent⟩

theorem recent_none {now now' : ℤ} {rows : List VantageReport} (h : recentReports now rows = []) (hle : now ≤ now') :
    recentReports now' rows = [] := by
  rw [recentReports, filter_eq_nil_iff] at h ⊢
  intro r hr hrecent
  refine h r hr (decide_eq_true ?_)
  have hlater := of_decide_eq_true hrecent
  linarith

section

variable (h : s.Steady)
include h

theorem Steady.agrees : s.Agrees := by
  intro hidle r hlast hrecent
  have hself : r ∈ recentReports r.createdAt s.reports := last_recent hlast (by simp [reachWindow])
  have hdistinct : Distinct (recentReports r.createdAt s.reports) := fun a ha b hb =>
    h.distinct a (mem_filter.mp ha).1 b (mem_filter.mp hb).1
  rw [h.settled (fun x hx => by rw [hidle] at hx; cases hx) r hlast hrecent]
  exact verdict_spec hself hdistinct

omit h in
theorem steady_start (clock : ℤ) (quic : Bool) (reachable : Option Bool) (error : Option String) :
    (start clock quic reachable error).Steady where
  bounded _ h := by cases h
  distinct _ h := by cases h
  alone _ h := by cases h
  later _ h := by cases h
  queried _ h := by cases h
  stored _ h := by cases h
  probed _ h := by cases h
  settled _ _ h := by cases h

theorem steady_wait {d : ℕ} (ha : s.Alone (.wait d)) : (s.step (.wait d)).Steady where
  bounded r hr := (h.bounded r hr).trans (by simp [step])
  distinct := h.distinct
  alone := h.alone
  later x hx source reachable hinsert r hr hsource := by
    have := h.later x hx source reachable hinsert r hr hsource
    simp only [step]
    omega
  queried x hx hquery := by
    obtain ⟨r, hlast, hsame⟩ := h.queried x hx hquery
    exact ⟨r, hlast, (ha ⟨x, hx, hquery⟩).trans hsame⟩
  stored := h.stored
  probed x hx hprobe := by
    exact recent_none (h.probed x hx hprobe) (by simp [step])
  settled hout r hlast hrecent := by
    refine h.settled hout r hlast ?_
    have hlater : s.clock + (d : ℤ) - reachWindow < r.createdAt := hrecent
    linarith

omit h in
theorem same_task {y : ℕ × ReachTask} (hx : x ∈ s.tasks.rows) (hy : y ∈ s.tasks.rows) (h : x.1 = y.1) : x = y :=
  Option.some.inj ((find?_eq_some.mpr ⟨hx, h⟩).symm.trans (find?_eq_some.mpr ⟨hy, rfl⟩))

theorem Steady.finish (hx : x ∈ s.tasks.rows) (hp : x.1 = p) (hquiet : Quiet x.2) : (s.finish p).Steady where
  bounded := h.bounded
  distinct := h.distinct
  alone y hy hreport z hz := h.alone y (mem_keep.mp hy).1 hreport z (mem_keep.mp hz).1
  later y hy := h.later y (mem_keep.mp hy).1
  queried y hy := h.queried y (mem_keep.mp hy).1
  stored y hy := h.stored y (mem_keep.mp hy).1
  probed y hy := h.probed y (mem_keep.mp hy).1
  settled hout := by
    refine h.settled fun y hy => ?_
    by_cases hyp : y.1 = p
    · rw [same_task hy hx (hyp.trans hp.symm)]
      exact hquiet
    · exact hout y (mem_keep.mpr ⟨hy, decide_eq_true hyp⟩)

theorem Steady.goOn (halone : (t.isReport ∨ ∃ y ∈ s.tasks.rows, y.2.isReport) → ∀ y ∈ s.tasks.rows, y.1 = p)
    (hlater : ∀ source reachable, t = .insert source reachable →
      ∀ r ∈ s.reports, r.source = source → r.createdAt < s.clock) (hqueried : t ≠ .query)
    (hstored : ∀ v, t = .storeVerdict v → ∃ r, s.reports.getLast? = some r ∧
      v = verdict (recentReports r.createdAt s.reports))
    (hprobed : t = .probe ∨ (∃ ok, t = .storeProbe ok) → recentReports s.clock s.reports = [])
    (hsettled : Quiet t → ∀ x ∈ s.tasks.rows, x.1 = p → Quiet x.2) : (s.goOn p t).Steady where
  bounded := h.bounded
  distinct := h.distinct
  alone x hx hreport y hy := by
    have hall : ∀ z ∈ s.tasks.rows, z.1 = p := by
      refine halone ?_
      rcases mem_put.mp hx with rfl | ⟨hx, -⟩
      · exact .inl hreport
      · exact .inr ⟨x, hx, hreport⟩
    have hnew : ∀ z ∈ (s.tasks.put (p, t)).rows, z = (p, t) := by
      intro z hz
      rcases mem_put.mp hz with rfl | ⟨hz, hne⟩
      · rfl
      · exact absurd (hall z hz) hne
    rw [hnew x hx, hnew y hy]
  later := forall_put hlater h.later
  queried := forall_put (fun hquery => absurd hquery hqueried) h.queried
  stored := forall_put hstored h.stored
  probed := forall_put hprobed h.probed
  settled hout := by
    refine h.settled fun x hx => ?_
    by_cases hxp : x.1 = p
    · exact hsettled (hout (p, t) (mem_put.mpr (.inl rfl))) x hx hxp
    · exact hout x (mem_put.mpr (.inr ⟨hx, hxp⟩))

theorem Steady.goOn_probe (hx : x ∈ s.tasks.rows) (hold : x.2.isReport = false)
    (hnew : t = .probe ∨ ∃ ok, t = .storeProbe ok) (hempty : recentReports s.clock s.reports = []) :
    (s.goOn x.1 t).Steady := by
  have hprobe : t.isReport = false := by
    rcases hnew with rfl | ⟨ok, rfl⟩
    · rfl
    · rfl
  refine h.goOn ?_ ?_ ?_ ?_ (fun _ => hempty) fun _ y hy hyp => ?_
  · rintro (hreport | ⟨y, hy, hreport⟩)
    · cases hprobe.symm.trans hreport
    · rw [← h.alone y hy hreport x hx] at hreport
      cases hold.symm.trans hreport
  · rintro source reachable rfl
    cases hprobe
  · rintro rfl
    cases hprobe
  · rintro v rfl
    cases hprobe
  · rw [same_task hy hx hyp]
    exact quiet_of_probe hold

theorem steady_begin (halone : (t.isReport ∨ ∃ y ∈ s.tasks.rows, y.2.isReport) → s.tasks.rows = [])
    (hlater : ∀ source reachable, t = .insert source reachable →
      ∀ r ∈ s.reports, r.source = source → r.createdAt < s.clock)
    (hprobed : t = .probe → recentReports s.clock s.reports = []) (hfirst : Quiet t ∧ ∀ ok, t ≠ .storeProbe ok) :
    (s.begin p t).Steady := by
  rw [ReachState.begin]
  split
  · exact h
  rename_i hfree
  refine h.goOn (fun hreport y hy => ?_) hlater hfirst.1.1 (fun v hv => absurd hv (hfirst.1.2 v)) ?_
    fun _ x hx hxp => ?_
  · rw [halone hreport] at hy
    cases hy
  · rintro (hprobe | ⟨ok, hstore⟩)
    · exact hprobed hprobe
    · exact absurd hstore (hfirst.2 ok)
  · refine absurd ?_ hfree
    rw [find?_eq_some.mpr ⟨hx, hxp⟩]
    rfl

theorem Steady.setReachability (hnone : recentReports s.clock s.reports = []) (v : Option Bool)
    (error : Option String) : (s.setReachability v error).Steady := by
  refine { h with settled := fun _ r hlast hrecent => ?_ }
  have hmem : r ∈ recentReports s.clock s.reports := last_recent hlast hrecent
  rw [hnone] at hmem
  cases hmem

theorem steady_insert {source : String} {reachable : Bool}
    (hx : (p, ReachTask.insert source reachable) ∈ s.tasks.rows) :
    (({ s with reports := s.reports ++ [⟨source, reachable, s.clock⟩] } : ReachState).goOn p .query).Steady := by
  have honly : ∀ x ∈ (s.tasks.put (p, ReachTask.query)).rows, x = (p, .query) := by
    intro x hx'
    rcases mem_put.mp hx' with rfl | ⟨hx', hne⟩
    · rfl
    · exact absurd (congrArg Prod.fst (h.alone _ hx rfl x hx')) hne
  have hlater := h.later _ hx source reachable rfl
  refine ⟨fun r hr => ?_, fun a ha b hb hsource htime => ?_, fun x hx' _ y hy => ?_, fun x hx' => ?_, fun x hx' _ => ?_,
    fun x hx' => ?_, fun x hx' => ?_, fun hout => ?_⟩
  · rcases mem_append.mp hr with hr | hr
    · exact h.bounded r hr
    · obtain rfl := mem_singleton.mp hr
      exact le_refl _
  · rcases mem_append.mp ha with ha | ha
    · rcases mem_append.mp hb with hb | hb
      · exact h.distinct a ha b hb hsource htime
      · obtain rfl := mem_singleton.mp hb
        exact absurd htime (hlater a ha hsource).ne
    · obtain rfl := mem_singleton.mp ha
      rcases mem_append.mp hb with hb | hb
      · exact absurd htime.symm (hlater b hb hsource.symm).ne
      · exact (mem_singleton.mp hb).symm
  · rw [honly x hx', honly y hy]
  · rw [honly x hx']
    exact nofun
  · exact ⟨⟨source, reachable, s.clock⟩, getLast?_concat, rfl⟩
  · rw [honly x hx']
    exact nofun
  · rw [honly x hx']
    rintro (hprobe | ⟨ok, hstore⟩)
    · cases hprobe
    · cases hstore
  · exact absurd rfl (hout _ (mem_put.mpr (.inl rfl))).1

theorem steady_store {v : Option Bool} (hx : (p, ReachTask.storeVerdict v) ∈ s.tasks.rows) :
    ((s.setReachability v (verdictError v)).finish p).Steady := by
  have hnone : ∀ x, x ∉ (s.tasks.keep (·.1 ≠ p)).rows := by
    intro x hx'
    obtain ⟨hmem, hne⟩ := mem_keep.mp hx'
    exact of_decide_eq_true hne (congrArg Prod.fst (h.alone _ hx rfl x hmem))
  obtain ⟨r, hlast, hv⟩ := h.stored _ hx v rfl
  refine ⟨h.bounded, h.distinct, fun x hx' => absurd hx' (hnone x), fun x hx' => absurd hx' (hnone x),
    fun x hx' => absurd hx' (hnone x), fun x hx' => absurd hx' (hnone x), fun x hx' => absurd hx' (hnone x),
    fun _ r' hlast' _ => ?_⟩
  obtain rfl := Option.some.inj (hlast.symm.trans hlast')
  exact hv

theorem steady_next {fault : Bool} {saw : Option Bool} (ha : s.Alone (.next p fault saw)) :
    (s.step (.next p fault saw)).Steady := by
  rw [step]
  split
  · exact h
  rename_i x hfind
  obtain ⟨hx, rfl⟩ := find?_eq_some.mp hfind
  have hfault := ha x hfind
  obtain ⟨p, t⟩ := x
  cases t with
  | insert source reachable =>
    rw [perform]
    split
    · exact h.finish hx rfl ⟨nofun, nofun⟩
    · exact steady_insert h hx
  | query =>
    obtain rfl := hfault (.inl rfl)
    obtain ⟨r, hlast, hsame⟩ := h.queried _ hx rfl
    refine h.goOn (fun _ y hy => congrArg Prod.fst (h.alone _ hx rfl y hy)) nofun nofun ?_ ?_ ?_
    · intro v hv
      rw [hsame] at hv
      exact ⟨r, hlast, (ReachTask.storeVerdict.inj hv).symm⟩
    · rintro (hprobe | ⟨ok, hstore⟩)
      · cases hprobe
      · cases hstore
    · exact fun hquiet => absurd rfl (hquiet.2 _)
  | storeVerdict v =>
    obtain rfl := hfault (.inr (.inl ⟨v, rfl⟩))
    exact steady_store h hx
  | check =>
    obtain rfl := hfault (.inr (.inr rfl))
    rw [perform]
    split
    · exact h.finish hx rfl ⟨nofun, nofun⟩
    · rename_i hnone
      have hempty : recentReports s.clock s.reports = [] := by simpa using hnone
      exact h.goOn_probe hx rfl (.inl rfl) hempty
  | probe =>
    have hempty := h.probed _ hx (.inl rfl)
    cases saw with
    | none => exact h.finish hx rfl ⟨nofun, nofun⟩
    | some ok => exact h.goOn_probe hx rfl (.inr ⟨ok, rfl⟩) hempty
  | storeProbe ok =>
    have hempty := h.probed _ hx (.inr ⟨ok, rfl⟩)
    rw [perform]
    split
    · exact h.finish hx rfl ⟨nofun, nofun⟩
    · exact (h.setReachability hempty _ _).finish hx rfl ⟨nofun, nofun⟩

theorem steady_step {e : ReachEv} (ha : s.Alone e) : (s.step e).Steady := by
  cases e with
  | wait d => exact steady_wait h ha
  | report p source reachable =>
    refine steady_begin h (fun _ => ha.1) ?_ nofun ⟨⟨nofun, nofun⟩, nofun⟩
    intro source' reachable' hinsert r hr hsource
    obtain ⟨hsame, -⟩ := ReachTask.insert.inj hinsert
    exact ha.2 r hr (hsource.trans hsame.symm)
  | monitor p =>
    refine steady_begin h ?_ nofun nofun ⟨⟨nofun, nofun⟩, nofun⟩
    rintro (hreport | ⟨y, hy, hreport⟩)
    · cases hreport
    · cases (ha y hy).symm.trans hreport
  | probeNow p =>
    refine steady_begin h ?_ nofun (fun _ => ha.2) ⟨⟨nofun, nofun⟩, nofun⟩
    rintro (hreport | ⟨y, hy, hreport⟩)
    · cases hreport
    · cases (ha.1 y hy).symm.trans hreport
  | next p fault saw => exact steady_next h ha

end

end ReachState

/-! ### The flag in every run -/

open ReachState

/-- In a run of which no report is disturbed and no probe overtaken by one, whenever nothing is in progress and a report
    is not older than 30 minutes, the flag is the consensus of the vantage points: a block of one of them wins. -/
theorem consensus_stored (clock : ℤ) (quic : Bool) (reachable : Option Bool) (error : Option String)
    (es : List ReachEv) (halone : Always step Alone (start clock quic reachable error) es) :
    Always step (fun s e => (s.step e).Agrees) (start clock quic reachable error) es := by
  refine always_of_inv ?_ ?_ es _ (steady_start clock quic reachable error) halone
  · intro s e h ha
    exact steady_step h ha
  · intro s e h ha
    exact (steady_step h ha).agrees

theorem alone_next (s : ReachState) (p : ℕ) (saw : Option Bool) : s.Alone (.next p false saw) := fun _ _ _ => rfl

/-- A vantage point reports a block; an hour later the master probes. -/
def reportThenProbe : List ReachEv :=
  [.report 1 (some "eu") false, .next 1 false none, .next 1 false none, .next 1 false none,
    .wait 3600000000, .monitor 2, .next 2 false none, .next 2 false (some true), .next 2 false none]

theorem reportThenProbe_agrees :
    Always step (fun s e => (s.step e).Agrees) (start 0 false none none) reportThenProbe := by
  refine consensus_stored 0 false none none reportThenProbe ?_
  simp only [reportThenProbe, always_cons, always_nil, alone_next, true_and, and_true]
  refine ⟨⟨rfl, ?_⟩, ?_, ?_⟩
  · intro r hr
    cases hr
  · rintro ⟨x, hx, -⟩
    cases hx
  · intro x hx
    cases hx

/-- The monitor finds no report and probes; meanwhile a vantage point reports a block; then the probe stores what it
    saw. -/
def overtakenProbe : List ReachEv :=
  [.monitor 1, .next 1 false none, .report 2 (some "eu") false, .next 2 false none, .next 2 false none,
    .next 2 false none, .next 1 false (some true), .next 1 false none]

/-- Two vantage points report at once; the verdict computed before the block is stored after it. -/
def overtakenReport : List ReachEv :=
  [.report 1 (some "us") true, .next 1 false none, .next 1 false none, .report 2 (some "eu") false,
    .next 2 false none, .next 2 false none, .next 2 false none, .next 1 false none]

theorem eu_blocks (us : List VantageReport) (hus : ∀ r ∈ us, r.source = "us") : Blocked (us ++ [⟨"eu", false, 0⟩]) := by
  refine ⟨⟨"eu", false, 0⟩, by simp, rfl, fun x hx hsource => ?_⟩
  rcases mem_append.mp hx with hx | hx
  · rw [hus x hx] at hsource
    exact absurd hsource (by decide)
  · obtain rfl := mem_singleton.mp hx
    exact le_refl _

theorem stale_stores_win :
    let probed := overtakenProbe.foldl step (start 0 false none none)
    let reported := overtakenReport.foldl step (start 0 false none none)
    (probed.reachable = some true ∧ ¬ probed.Agrees) ∧ reported.reachable = some true ∧ ¬ reported.Agrees := by
  refine ⟨⟨by decide, fun h => ?_⟩, by decide, fun h => ?_⟩
  · have hflag := (h (by decide) ⟨"eu", false, 0⟩ (by decide) (by decide)).1 (eu_blocks [] nofun)
    exact absurd hflag (by decide)
  · have hflag := (h (by decide) ⟨"eu", false, 0⟩ (by decide) (by decide)).1 (eu_blocks [⟨"us", true, 0⟩] (by simp))
    exact absurd hflag (by decide)

/-! ### Rotation of the SNI -/

/-- The statements of `rotate_inbound_sni`. -/
inductive SniStage where
  | select
  | update (next : String)
  deriving DecidableEq

/-- An inbound with a pool of names, and the reports that rotate it; `since` holds the reports on the name in force. -/
structure SniState where
  reach : ReachState
  serverName : Option String
  sniPool : List String
  stages : Table (Prod.fst : ℕ × SniStage → ℕ)
  since : List VantageReport

/-- A step of a report or a probe; the next statement of a rotation; or an update of the inbound. -/
inductive SniEv where
  | reach (e : ReachEv)
  | rotate (p : ℕ) (fault : Bool)
  | edit (serverName : Option String) (sniPool : List String)

/-- The first name of the pool that is another one. -/
def nextSni (current : Option String) (pool : List String) : Option String :=
  pool.find? fun s => trim s ≠ "" ∧ some s ≠ current

namespace SniState

variable (s : SniState)

/-- `report_reachability` goes on to rotate once a block is stored. -/
def blockStored : ReachEv → Option ℕ
  | .next p false _ => if (s.reach.tasks.find? p).map (·.2) = some (.storeVerdict (some false)) then some p else none
  | _ => none

def drop (p : ℕ) : SniState := { s with stages := s.stages.keep (·.1 ≠ p) }

/-- `rotate_inbound_sni`, one statement at a time; an inbound that is gone counts as a fault. -/
def rotate (p : ℕ) (fault : Bool) : SniState :=
  match s.stages.find? p, fault with
  | none, _ => s
  | some _, true => s.drop p
  | some (_, .select), false => match nextSni s.serverName s.sniPool with
    | none => s.drop p
    | some next => { s with stages := s.stages.put (p, .update next) }
  | some (_, .update next), false => { s.drop p with
      serverName := some next, reach := s.reach.setReachability none none, since := [] }

def step : SniEv → SniState
  | .reach e => { s with
      reach := s.reach.step e
      since := s.since ++ (s.reach.step e).reports.drop s.reach.reports.length
      stages := match s.blockStored e with
        | some p => s.stages.put (p, .select)
        | none => s.stages }
  | .rotate p fault => s.rotate p fault
  | .edit name pool => { s with
      serverName := name, sniPool := pool, since := if name = s.serverName then s.since else [] }

/-- The event writes another name by itself. -/
def rotates : SniEv → Bool
  | .rotate p false => (s.stages.find? p).any (·.2 ≠ .select)
  | _ => false

/-- A block was reported on the name in force. -/
def Warned : Prop := ∃ r ∈ s.since, r.reachable = false

/-- No report but that of `p` is about to rotate. -/
def Others (p : Option ℕ) : Prop :=
  (∀ x ∈ s.stages.rows, some x.1 = p) ∧ ∀ x ∈ s.reach.tasks.rows, x.2 ≠ .storeVerdict (some false)

/-- When a report asks for the consensus, no block from before the name in force is still the latest of its source
    within 30 minutes; and no name changes while another report is about to rotate. -/
def Current : SniEv → Prop
  | .reach (.next p _ _) => (s.reach.tasks.find? p).map (·.2) = some .query →
      ∀ r ∈ recentReports s.reach.clock s.reach.reports, r.reachable = false →
        (∀ x ∈ recentReports s.reach.clock s.reach.reports, x.source = r.source → x.createdAt ≤ r.createdAt) →
        r ∈ s.since
  | .rotate p false => s.rotates (.rotate p false) → s.Others (some p)
  | .edit name _ => name ≠ s.serverName → s.Others none
  | _ => True

/-- Whoever is about to rotate has a reason. -/
def Justified : Prop :=
  ((∃ x ∈ s.reach.tasks.rows, x.2 = .storeVerdict (some false)) ∨ s.stages.rows ≠ []) → s.Warned

variable {s}

theorem verdict_of_step {r : ReachState} {e : ReachEv} {x : ℕ × ReachTask} {v : Option Bool}
    (hx : x ∈ (r.step e).tasks.rows) (hv : x.2 = .storeVerdict v) : x ∈ r.tasks.rows ∨ ∃ p fault saw,
      e = .next p fault saw ∧ (r.tasks.find? p).map (·.2) = some .query ∧
        v = verdict (recentReports r.clock r.reports) := by
  have hbegin : ∀ p t, x ∈ (r.begin p t).tasks.rows → x.2 = t ∨ x ∈ r.tasks.rows := by
    intro p t h
    rw [ReachState.begin] at h
    split at h
    · exact .inr h
    · exact (mem_put.mp h).imp (congrArg Prod.snd) And.left
  cases e with
  | wait d => exact .inl hx
  | report p source reachable | monitor p | probeNow p =>
    exact .inl ((hbegin _ _ hx).resolve_left fun h => nomatch hv.symm.trans h)
  | next p fault saw =>
    rw [ReachState.step] at hx
    split at hx
    · exact .inl hx
    rename_i y hfind
    have hgo : ∀ {q : ReachState} {t : ReachTask}, q.tasks = r.tasks → x ∈ (q.goOn p t).tasks.rows →
        x.2 = t ∨ x ∈ r.tasks.rows := fun hq h => hq ▸ (mem_put.mp h).imp (congrArg Prod.snd) And.left
    have hend : ∀ {q : ReachState}, q.tasks = r.tasks → x ∈ (q.finish p).tasks.rows → x ∈ r.tasks.rows :=
      fun hq h => hq ▸ (mem_keep.mp h).1
    obtain ⟨p', t⟩ := y
    cases t with
    | query =>
      rw [ReachState.perform] at hx
      split at hx
      · exact .inl (hend rfl hx)
      obtain h | h := hgo rfl hx
      · exact .inr ⟨p, fault, saw, rfl, by rw [hfind]; rfl, ReachTask.storeVerdict.inj (hv.symm.trans h)⟩
      · exact .inl h
    | probe => cases saw with
      | none => exact .inl (hend rfl hx)
      | some ok => exact .inl ((hgo rfl hx).resolve_left fun h => nomatch hv.symm.trans h)
    | insert _ _ | check =>
      rw [ReachState.perform] at hx
      split at hx
      · exact .inl (hend rfl hx)
      · exact .inl ((hgo rfl hx).resolve_left fun h => nomatch hv.symm.trans h)
    | storeVerdict _ | storeProbe _ =>
      rw [ReachState.perform] at hx
      split at hx
      · exact .inl (hend rfl hx)
      · exact .inl (hend rfl hx)

/-- Fewer rotations, and the same reports. -/
theorem Justified.of_fewer {s' : SniState} (h : s.Justified) (hreach : s'.reach.tasks = s.reach.tasks)
    (hstages : s'.stages.rows ≠ [] → s.stages.rows ≠ []) (hsince : s'.since = s.since) : s'.Justified := by
  intro hpending
  rw [hreach] at hpending
  obtain ⟨r, hr, hblock⟩ := h (hpending.imp_right hstages)
  exact ⟨r, hsince ▸ hr, hblock⟩

theorem justified_of_none {s' : SniState} (htasks : ∀ x ∈ s'.reach.tasks.rows, x.2 ≠ .storeVerdict (some false))
    (hstages : s'.stages.rows = []) : s'.Justified := by
  rintro (⟨x, hx, hv⟩ | hne)
  · exact absurd hv (htasks x hx)
  · exact absurd hstages hne

theorem justified_drop (h : s.Justified) (p : ℕ) : (s.drop p).Justified :=
  h.of_fewer rfl (fun hne hnil => hne (by simp [drop, keep, hnil])) rfl

theorem justified_reach (h : s.Justified) {e : ReachEv} (hc : s.Current (.reach e)) :
    (s.step (.reach e)).Justified := by
  have hgrow : s.Warned → (s.step (.reach e)).Warned := fun ⟨r, hr, hblock⟩ => ⟨r, mem_append_left _ hr, hblock⟩
  rintro (⟨x, hx, hv⟩ | hstages)
  · obtain hx | ⟨p, fault, saw, rfl, hquery, hverdict⟩ := verdict_of_step hx hv
    · exact hgrow (h (.inl ⟨x, hx, hv⟩))
    · obtain ⟨r, hr, hblock, hlatest⟩ := blocked_of_verdict hverdict.symm
      exact hgrow ⟨r, hc hquery r hr hblock hlatest, hblock⟩
  -- a rotation begins once a block is stored
  cases e with
  | next p fault saw =>
    cases fault with
    | true => exact hgrow (h (.inr hstages))
    | false =>
      by_cases hblock : (s.reach.tasks.find? p).map (·.2) = some (.storeVerdict (some false))
      · obtain ⟨x, hfind, hx⟩ := Option.map_eq_some_iff.mp hblock
        exact hgrow (h (.inl ⟨x, (find?_eq_some.mp hfind).1, hx⟩))
      · simp only [step, blockStored, if_neg hblock] at hstages
        exact hgrow (h (.inr hstages))
  | wait d | report p source reachable | monitor p | probeNow p => exact hgrow (h (.inr hstages))

theorem justified_rotate (h : s.Justified) {p : ℕ} {fault : Bool} (hc : s.Current (.rotate p fault)) :
    (s.rotate p fault).Justified := by
  unfold rotate
  split
  · exact h
  · exact justified_drop h p
  · split
    · exact justified_drop h p
    · rename_i hfind _ _ _
      exact h.of_fewer rfl (fun _ => ne_nil_of_mem (find?_eq_some.mp hfind).1) rfl
  · rename_i next hfind
    obtain ⟨hstages, htasks⟩ := hc (by rw [rotates, hfind]; rfl)
    refine justified_of_none htasks (eq_nil_iff_forall_not_mem.mpr fun x hx => ?_)
    obtain ⟨hx, hne⟩ := mem_keep.mp hx
    exact of_decide_eq_true hne (Option.some.inj (hstages x hx))

theorem justified_step {e : SniEv} (h : s.Justified) (hc : s.Current e) : (s.step e).Justified := by
  cases e with
  | reach e => exact justified_reach h hc
  | rotate p fault => exact justified_rotate h hc
  | edit name pool =>
    by_cases hname : name = s.serverName
    · exact h.of_fewer rfl id (if_pos hname)
    · obtain ⟨hstages, htasks⟩ := hc hname
      exact justified_of_none htasks (eq_nil_iff_forall_not_mem.mpr fun x hx => nomatch hstages x hx)

end SniState

/-- Nothing reported yet. -/
def SniState.start (clock : ℤ) (quic : Bool) (name : Option String) (pool : List String) : SniState :=
  ⟨.start clock quic none none, name, pool, Table.empty, []⟩

/-- In a run in which no stale consensus counts and no name changes under a rotation, the SNI is rotated only after a
    block of the name in force was reported. -/
theorem rotated_only_when_blocked (clock : ℤ) (quic : Bool) (name : Option String) (pool : List String)
    (es : List SniEv) (hcurrent : Always SniState.step SniState.Current (.start clock quic name pool) es) :
    Always SniState.step (fun s e => s.rotates e → s.Warned) (.start clock quic name pool) es := by
  refine always_of_inv (fun s e h hc => SniState.justified_step h hc) ?_ es _ ?_ hcurrent
  · intro s e h _ hrotates
    cases e with
    | reach e => cases hrotates
    | edit name pool => cases hrotates
    | rotate p fault => cases fault with
      | true => cases hrotates
      | false =>
        obtain ⟨x, hfind, -⟩ := (Option.any_eq_true ..).mp hrotates
        exact h (.inr (ne_nil_of_mem (find?_eq_some.mp hfind).1))
  · exact SniState.justified_of_none (fun x hx => nomatch hx) rfl

/-- A report of handler `p`, up to its last statement. -/
def reportOf (p : ℕ) (source : String) (reachable : Bool) : List SniEv :=
  [.reach (.report p (some source) reachable), .reach (.next p false none), .reach (.next p false none),
    .reach (.next p false none), .rotate p false]

/-- A report of a block rotates, and so does one of the next name half an hour later. -/
def blockThenBlock : List SniEv :=
  reportOf 1 "eu" false ++ [.rotate 1 false, .reach (.wait 1800000000)] ++ reportOf 2 "us" false ++ [.rotate 2 false]

theorem blocks_rotate : Always SniState.step (fun s e => s.rotates e → s.Warned)
    (.start 0 false (some "a.example") ["a.example", "b.example"]) blockThenBlock := by
  refine rotated_only_when_blocked _ _ _ _ _ ?_
  simp only [blockThenBlock, reportOf, cons_append, nil_append, always_cons, always_nil, and_true]
  refine ⟨trivial, ?_, ?_, ?_, ?_, ?_, trivial, trivial, ?_, ?_, ?_, ?_, ?_⟩
  all_goals simp only [SniState.Current, SniState.Others]; decide

/-- A block rotates; a minute later another vantage point finds the new name reachable. -/
def blockThenReachable : List SniEv :=
  reportOf 1 "eu" false ++ [.rotate 1 false, .reach (.wait 60000000)] ++ reportOf 2 "us" true

/-- The name that nobody has reported is rotated away. -/
theorem stale_block_rotates :
    let s := blockThenReachable.foldl SniState.step (.start 0 false (some "a.example") ["a.example", "b.example"])
    s.rotates (.rotate 2 false) ∧ s.serverName = some "b.example" ∧ ∀ r ∈ s.since, r.reachable = true := by
  exact ⟨by decide, by decide, by decide⟩

/-! ### Rotations in a row -/

/-- The names that rotations in a row pick, as long as they pick one. -/
def rotations (pool : List String) : ℕ → Option String → List String
  | 0, _ => []
  | n + 1, current => match nextSni current pool with
    | none => []
    | some next => next :: rotations pool n (some next)

/-- No rotation picks the name in force, and as many rotations as there are names pick every name, if each of them
    picks one. -/
def RotatesThrough (pool : List String) (current : Option String) : Prop :=
  (∀ name next, nextSni name pool = some next → name ≠ some next) ∧
    ((rotations pool pool.length current).length = pool.length → ∀ s ∈ pool, s ∈ rotations pool pool.length current)

theorem nextSni_cons {a : String} (ha : trim a ≠ "") (current : Option String) (pool : List String) :
    nextSni current (a :: pool) = if some a = current then nextSni current pool else some a := by
  by_cases hcur : some a = current <;> simp [nextSni, ha, hcur]

/-- The rotations never come to a third name. -/
theorem rotations_two {a b : String} {pool : List String} (ha : trim a ≠ "") (hb : trim b ≠ "") (hab : a ≠ b) :
    ∀ (n : ℕ) (current : Option String), (rotations (a :: b :: pool) n current).length = n ∧
      ∀ s ∈ rotations (a :: b :: pool) n current, s = a ∨ s = b
  | 0, _ => ⟨rfl, by simp [rotations]⟩
  | n + 1, current => by
    have hnext : ∃ s, nextSni current (a :: b :: pool) = some s ∧ (s = a ∨ s = b) := by
      rw [nextSni_cons ha, nextSni_cons hb]
      by_cases hcur : some a = current
      · refine ⟨b, ?_, .inr rfl⟩
        rw [if_pos hcur, if_neg fun h => hab (Option.some.inj (hcur.trans h.symm))]
      · exact ⟨a, if_neg hcur, .inl rfl⟩
    obtain ⟨s, hs, hor⟩ := hnext
    obtain ⟨hlen, hmem⟩ := rotations_two ha hb hab n _
    simp only [rotations, hs]
    exact ⟨congrArg _ hlen, forall_mem_cons.mpr ⟨hor, hmem⟩⟩

/-- Rotations in a row come to every name exactly if there are at most two. -/
theorem rotates_through_iff {pool : List String} (hnodup : pool.Nodup) (hblank : ∀ s ∈ pool, trim s ≠ "")
    (current : Option String) : RotatesThrough pool current ↔ pool.length ≤ 2 := by
  have hnever : ∀ name next, nextSni name pool = some next → name ≠ some next := by
    rintro _ next h rfl
    simpa using find?_some h
  rw [RotatesThrough, and_iff_right hnever]
  match pool with
  | [] => simp
  | [a] =>
    have ha := hblank a mem_cons_self
    by_cases hcur : some a = current <;> simp [rotations, nextSni, ha, hcur]
  | [a, b] =>
    have ha := hblank a mem_cons_self
    have hb := hblank b (by simp)
    have hab : a ≠ b := by simpa using hnodup
    by_cases hcur : some a = current
    · subst hcur
      simp [rotations, nextSni_cons ha, nextSni_cons hb, hab, hab.symm]
    · simp [rotations, nextSni_cons ha, nextSni_cons hb, hcur, hab.symm]
  | a :: b :: c :: pool =>
    simp only [nodup_cons, mem_cons, not_or] at hnodup
    simp only [forall_mem_cons] at hblank
    obtain ⟨hlen, htwo⟩ := @rotations_two a b _ hblank.1 hblank.2.1 hnodup.1.1
      (a :: b :: c :: pool).length current
    refine iff_of_false (fun h => ?_) (by simp)
    rcases htwo c (h hlen c (by simp)) with rfl | rfl
    · exact hnodup.1.2.1 rfl
    · exact hnodup.2.1.1 rfl

theorem two_names_rotate : RotatesThrough ["a.example", "b.example"] (some "a.example") :=
  (rotates_through_iff (by decide) (by decide) _).mpr (by decide)

/-- With three names the rotation goes back and forth between two. -/
theorem third_name_never_picked : ¬ RotatesThrough ["a.example", "b.example", "c.example"] none :=
  fun h => absurd (h.2 (by decide) "c.example" (by decide)) (by decide)

/-! ### The CDN host -/

/-- The hosts that answered, with their latencies in milliseconds. -/
def reachableHosts (measured : List (String × Option ℕ)) : List (String × ℕ) :=
  measured.filterMap fun m => m.2.map (m.1, ·)

/-- `pick_best_cdn`; of hosts that are equally fast `min_by_key` takes the first. -/
def pickBestCdn (measured : List (String × Option ℕ)) (current : Option String) (marginPct : ℕ) : Option String := do
  let best ← (reachableHosts measured).argmin (·.2)
  match current.bind fun c => (measured.find? (·.1 = c)).bind (·.2) with
  | none => if some best.1 ≠ current then some best.1 else none
  | some cur =>
    if best.1 = current.getD "" then none
    else if best.2 ≤ min (cur * (100 - marginPct)) (2 ^ 32 - 1) / 100 then some best.1 else none

section Cdn

variable {measured : List (String × Option ℕ)} {current : Option String} {best : String × ℕ}

/-- The first host of minimal latency among those that answered. -/
def Fastest (measured : List (String × Option ℕ)) (best : String × ℕ) : Prop :=
  (reachableHosts measured).find? (·.2 = best.2) = some best ∧ ∀ m ∈ reachableHosts measured, best.2 ≤ m.2

/-- Where the current host is measured and has answered, `lat` is lower by the margin. -/
def BeatsCurrent (measured : List (String × Option ℕ)) (current : Option String) (marginPct lat : ℕ) : Prop :=
  ∀ c ∈ current, ∀ cur, measured.find? (·.1 = c) = some (c, some cur) → 100 * lat ≤ cur * (100 - marginPct)

theorem find?_argmin {α : Type*} {f : α → ℕ} : ∀ {l : List α} {a : α}, l.argmin f = some a →
    l.find? (f · = f a) = some a
  | b :: l, a, h => by
    rw [argmin_cons] at h
    cases ht : l.argmin f with
    | none =>
      obtain rfl : b = a := by simpa [ht] using h
      simp
    | some c =>
      simp only [ht] at h
      split at h <;> obtain rfl := Option.some.inj h
      · rw [find?_cons_of_neg (by simp; omega), find?_argmin ht]
      · simp

theorem Fastest.unique {b : String × ℕ} (h : Fastest measured best) (hb : Fastest measured b) : best = b := by
  have heq : best.2 = b.2 := (h.2 b (mem_of_find?_eq_some hb.1)).antisymm (hb.2 best (mem_of_find?_eq_some h.1))
  exact Option.some.inj (h.1.symm.trans (heq ▸ hb.1))

theorem currentLatency_eq_some {cur : ℕ} : (current.bind fun c => (measured.find? (·.1 = c)).bind (·.2)) = some cur ↔
      ∃ c ∈ current, measured.find? (·.1 = c) = some (c, some cur) := by
  simp only [Option.bind_eq_some_iff, Option.mem_def]
  refine exists_congr fun c => and_congr_right fun _ => ⟨?_, fun h => ⟨_, h, rfl⟩⟩
  rintro ⟨⟨c', lat⟩, hfind, rfl⟩
  rw [hfind, show c' = c by simpa using find?_some hfind]

/-- A switch is to the first of the fastest hosts, if that is another one and lower by the margin; and there is no
    second one from the same measurements. -/
theorem pickBestCdn_iff (hlat : ∀ m ∈ measured, ∀ l ∈ m.2, l ≤ 10000) (current : Option String) (marginPct : ℕ) :
    (∀ host, pickBestCdn measured current marginPct = some host ↔
      ∃ lat, Fastest measured (host, lat) ∧ current ≠ some host ∧ BeatsCurrent measured current marginPct lat) ∧
    ∀ host, pickBestCdn measured current marginPct = some host → pickBestCdn measured (some host) marginPct = none := by
  have hiff : ∀ current host, pickBestCdn measured current marginPct = some host ↔
      ∃ lat, Fastest measured (host, lat) ∧ current ≠ some host ∧ BeatsCurrent measured current marginPct lat := by
    intro current host
    cases h : (reachableHosts measured).argmin (·.2) with
    | none => simp [pickBestCdn, Fastest, argmin_eq_none.mp h]
    | some best =>
      have hbest : Fastest measured best := ⟨find?_argmin h, fun m hm => le_of_mem_argmin hm h⟩
      trans best.1 = host ∧ current ≠ some host ∧ BeatsCurrent measured current marginPct best.2
      · simp only [pickBestCdn, h, Option.bind_eq_bind, Option.bind_some]
        cases hcur : current.bind fun c => (measured.find? (·.1 = c)).bind (·.2) with
        | none =>
          have hbeats : BeatsCurrent measured current marginPct best.2 := fun c hc cur hfind =>
            absurd (hcur.symm.trans (currentLatency_eq_some.mpr ⟨c, hc, hfind⟩)) (Option.some_ne_none _).symm
          simp only [hbeats, and_true]
          split <;> grind
        | some cur =>
          obtain ⟨c, rfl, hfind⟩ := currentLatency_eq_some.mp hcur
          have hle := hlat _ (mem_of_find?_eq_some hfind) cur rfl
          have hfit : cur * (100 - marginPct) ≤ 2 ^ 32 - 1 :=
            (Nat.mul_le_mul hle (Nat.sub_le 100 marginPct)).trans (by decide)
          have hbeats : BeatsCurrent measured (some c) marginPct best.2 ↔ best.2 ≤ cur * (100 - marginPct) / 100 := by
            rw [Nat.le_div_iff_mul_le (by decide), mul_comm]
            exact ⟨fun hb => hb c rfl cur hfind, fun hb c' hc cur' hfind' => by grind⟩
          simp only [min_eq_left hfit, ← hbeats, Option.getD_some]
          grind
      · constructor
        · rintro ⟨rfl, hrest⟩
          exact ⟨_, hbest, hrest⟩
        · rintro ⟨lat, hfastest, hrest⟩
          obtain rfl := hbest.unique hfastest
          exact ⟨rfl, hrest⟩
  refine ⟨hiff current, fun host h => Option.eq_none_iff_forall_ne_some.mpr fun host' h' => ?_⟩
  obtain ⟨lat, hfastest, -⟩ := (hiff _ _).mp h
  obtain ⟨lat', hfastest', hne, -⟩ := (hiff _ _).mp h'
  exact hne (congrArg (some ·.1) (hfastest.unique hfastest'))

end Cdn

theorem faster_host_picked :
    pickBestCdn [("a.example", some 100), ("b.example", some 60)] (some "a.example") 30 = some "b.example" ∧
    pickBestCdn [("a.example", some 100), ("b.example", some 60)] (some "b.example") 30 = none :=
  ⟨by decide, (pickBestCdn_iff (by simp) _ 30).2 _ (by decide : pickBestCdn _ (some "a.example") 30 = _)⟩

end Honey.Master
