import Honey.Agent.Acme
import Honey.Agent.Exits
import Honey.Billing
import Honey.Master.Rebuild

/-! The cutoff of users over their quota between two pushes (`captureQuota` and `EnforceQuota` of
    `server.go`, `localquota.go`, `accountingLoop` of `main.go`), in a node with traffic.

        Apply succeeds --> quotas of the spec, baseline := totals, nobody suppressed
        tick --> poll hysteria --> read Clash --> over the baseline by the quota? --> suppressed
                                       +-- no answer: the rest of the tick is skipped

    The totals are those of the sing-box accumulator, and the quotas are in memory only. So a user that has
    moved its quota is suppressed from the next tick on in the runs whose steps are `Counted`
    (`quota_cut_off`): bytes through hysteria, bytes of connections that close between two polls, a tick
    without Clash and a restart are the ways around it. -/

namespace Honey
open Schemes Agent Master List GoMap Table UInt64 Except

/-! ### The decision -/

/-- The quota of an entry, in the 64 bits of the message. -/
def Master.InboundUser.quota (u : InboundUser) : UInt64 := .ofNat u.quotaBytes

def Master.NodeSpec.users (spec : NodeSpec) : List InboundUser := spec.inbounds.flatMap (·.users)

/-- `UserTotals`. -/
def Agent.Counters.totals (c : Counters) : GoMap String UInt64 where
  keys := c.up.keys
  get n := c.up.get n + c.down.get n
  nodup := c.up.nodup
  get_absent n hn := by
    rw [c.up_absent hn, c.down_absent hn]
    rfl

namespace Localquota

/-- The loop body of `Decide`. -/
def exceeds (totals baseline quota : GoMap String UInt64) (name : String) : Bool :=
  let delta := if baseline.get name < totals.get name then totals.get name - baseline.get name else 0
  quota.get name ≠ 0 ∧ quota.get name ≤ delta

def decide (ω : MapOrder String) (totals baseline quota : GoMap String UInt64) : GoMap String Bool :=
  (ω.visit quota.keys).foldl
    (fun out name => if exceeds totals baseline quota name then out.set name true else out) empty

def changed (a b : GoMap String Bool) : Bool := a.keys.length ≠ b.keys.length ∨ a.keys.any (!b.get ·)

end Localquota

/-- What the server remembers of the last push. -/
structure Quotas where
  (bytes baseline : GoMap String UInt64)
  suppressed : GoMap String Bool

/-- The quotas of `New`. -/
def Quotas.new : Quotas := ⟨empty, empty, empty⟩

/-- The map that `captureQuota` fills. -/
def quotaMap (us : List InboundUser) : GoMap String UInt64 :=
  us.foldl (fun m u => if 0 < u.quota then m.set u.name u.quota else m) empty

def captureQuota (totals : GoMap String UInt64) (spec : NodeSpec) : Quotas :=
  ⟨quotaMap spec.users, totals, empty⟩

/-- `EnforceQuota`: the quotas, the connections it closes and the line it logs. `conns` is what Clash lists, and
    `closes` says which requests to close a connection it takes. -/
def Quotas.enforce (ω : MapOrder String) (totals : GoMap String UInt64) (q : Quotas)
    (conns : Option (List Conn)) (closes : String → Bool) : Quotas × List String × Option String :=
  let suppressed := Localquota.decide ω totals q.baseline q.bytes
  let changed := Localquota.changed suppressed q.suppressed
  let q := { q with suppressed := suppressed }
  match if suppressed.keys = [] then none else conns with
  | none => (q, [], none)
  | some conns =>
    let ids := (conns.filter fun c => suppressed.get c.user).map (·.id)
    let closed := ids.filter fun id => id ≠ "" ∧ closes id
    (q, closed,
      if closed ≠ [] ∧ changed then
        some ("local quota: cut " ++ toString closed.length ++ " connection(s) for " ++
          toString suppressed.keys.length ++ " over-quota user(s)")
      else none)

/-! ### The node -/

/-- A call of `Apply`; ACME rewrites no user. -/
structure Push extends Agent.Call where
  users_kept : ∀ spec', outcomes.finalSpec spec = .ok spec' → spec'.users = spec.users

/-- The spec as it is at the end of the call. -/
def Push.final (p : Push) : NodeSpec := (p.outcomes.finalSpec p.spec).toOption.getD p.spec

/-- The call comes to its end. -/
def Push.Succeeds (srv : Server) (a : AgentState) (p : Push) : Prop :=
  (applySpec srv p.outcomes p.exits p.spec a).2 = none

instance (srv : Server) (a : AgentState) (p : Push) : Decidable (p.Succeeds srv a) :=
  inferInstanceAs (Decidable ((applySpec srv p.outcomes p.exits p.spec a).2 = none))

/-- How the parts of a tick go: what hysteria and Clash answer, whether Clash lists its connections again, which
    ones it closes, whether the file can be written. -/
structure Tick where
  hysteria : Option (GoMap String Traffic)
  clash : Option Snapshot
  lists : Bool
  closes : String → Bool
  saves : Bool
  now : ℤ
  choice : Choice
  order : MapOrder String

/-- A node. Beside the agent and the live connections of sing-box: the entries of the last successful `Apply`, what
    every user has moved since, and the users that a tick has found over their quota since. -/
structure Station where
  agent : Process
  node : AgentState
  quotas : Quotas
  ticks : ℕ
  conns : Table Conn.id
  opened : List String
  pushed : List InboundUser
  moved : String → ℕ
  due : List String

/-- What can happen. `hysteria` is traffic through the hysteria core, `restart` a new agent on the cores it finds. -/
inductive StationEv where
  | connect (id user : String)
  | transfer (id : String) (up down : UInt64)
  | close (id : String)
  | restartCore
  | hysteria (name : String) (bytes : ℕ)
  | tick (t : Tick)
  | apply (p : Push)
  | restart (random : Option (Fin 16 → UInt8)) (node : AgentState)

/-- The quota that entries push for a name: the last one above 0. -/
def pushedQuota (us : List InboundUser) (name : String) : UInt64 :=
  lastWrite (fun u => if u.name = name ∧ 0 < u.quota then some u.quota else none) 0 us

namespace Station

def start (disk : Option Store) (random : Option (Fin 16 → UInt8)) (node : AgentState) : Station where
  agent := Process.boot disk random empty
  node := node
  quotas := Quotas.new
  ticks := 0
  conns := empty
  opened := []
  pushed := []
  moved := fun _ => 0
  due := []

variable (s : Station) (name : String)

/-- The quota of the last successful `Apply`. -/
def quota : UInt64 := pushedQuota s.pushed name

def suppressed : Bool := s.quotas.suppressed.get name

/-- The users that have moved their quota. -/
def spent : List String :=
  (s.pushed.map (·.name)).filter fun name => 0 < s.quota name ∧ (s.quota name).toNat ≤ s.moved name

/-- The body of `accountingLoop`. -/
def tick (t : Tick) : Station :=
  let agent := (s.agent.step (.pollHysteria t.hysteria t.now, t.choice)).1
  match t.clash with
  | none => { s with agent := agent, due := s.due ++ s.spent }
  | some snapshot =>
    let agent := (agent.step (.pollSingbox (some snapshot) t.now, t.choice)).1
    let (quotas, closed, _) := s.quotas.enforce t.order agent.cores.sb.stats.user.totals
      (if t.lists then some s.conns.rows else none) t.closes
    let agent := (agent.step (.setCounters, t.choice)).1
    let agent := if (s.ticks + 1) % 15 = 0 ∧ t.saves then (agent.step (.save, t.choice)).1 else agent
    { s with
      agent := agent
      quotas := quotas
      ticks := s.ticks + 1
      conns := s.conns.keep (·.id ∉ closed)
      due := s.due ++ s.spent }

/-- One event. An event that cannot happen (an id used twice, a counter past its end, a snapshot of other connections
    than the live ones) changes nothing. -/
def step (srv : Server) (s : Station) : StationEv → Station
  | .connect id user =>
    if id ∈ s.opened then s
    else { s with conns := s.conns.put ⟨id, user, 0, 0⟩, opened := id :: s.opened }
  | .transfer id up down => match s.conns.find? id with
    | none => s
    | some c =>
      if c.up.toNat + up.toNat < 2 ^ 64 ∧ c.down.toNat + down.toNat < 2 ^ 64 then
        { s with
          conns := s.conns.put (moreBytes c up down)
          moved := fun name => if name = c.user then s.moved name + (up.toNat + down.toNat) else s.moved name }
      else s
  | .close id => { s with conns := s.conns.keep (·.id ≠ id) }
  | .restartCore => { s with conns := empty }
  | .hysteria name bytes =>
    { s with moved := fun who => if who = name then s.moved who + bytes else s.moved who }
  | .tick t => if t.clash.all fun snapshot => snapshot.conns.isPerm s.conns.rows then s.tick t else s
  | .apply p =>
    let node := (Agent.apply srv p.outcomes p.exits p.spec s.node).1
    if p.Succeeds srv s.node then
      { s with
        node := node
        quotas := captureQuota s.agent.cores.sb.stats.user.totals p.final
        pushed := p.spec.users
        moved := fun _ => 0
        due := [] }
    else { s with node := node }
  | .restart random node =>
    { s with agent := (s.agent.step (.restart random, default)).1, node := node, quotas := Quotas.new, ticks := 0 }

/-- Whoever a tick has found over its quota is suppressed. -/
def CutOff : Prop := ∀ name ∈ s.due, s.suppressed name = true

/-- Whoever was pushed with quota 0 is not. -/
def Spares : Prop :=
  ∀ name, (∀ u ∈ s.pushed, u.name = name → u.quota = 0) → s.suppressed name = false

/-- The bytes of the user in the accumulator, and those of its live connections that no poll has seen. -/
def counted : ℤ :=
  s.agent.cores.sb.stats.user.bytes .uplink name + s.agent.cores.sb.stats.user.bytes .downlink name

def waiting : ℤ :=
  unseen .uplink name s.agent.cores.sb.stats s.conns + unseen .downlink name s.agent.cores.sb.stats s.conns

/-- The connection takes no byte along that counts. -/
def Lossless (c : Conn) : Prop :=
  0 < s.quota c.user → s.suppressed c.user = true ∨ ∀ d : Direction, s.agent.cores.sb.stats.seen d c.id = c.bytes d

/-- The steps in which every byte of a user with a quota, who is not suppressed yet, is counted: connections close
    after they were polled; nothing goes through hysteria; Clash answers if somebody is over its quota, and no total
    reaches the end of its 64 bits; the agent restarts while there is no quota. -/
def Counted : StationEv → Prop
  | .close id => ∀ c ∈ s.conns.rows, c.id = id → s.Lossless c
  | .restartCore => ∀ c ∈ s.conns.rows, s.Lossless c
  | .hysteria name bytes => 0 < s.quota name → s.suppressed name = true ∨ bytes = 0
  | .tick t => (t.clash = none → ∀ name ∈ s.spent, s.suppressed name = true) ∧
      ∀ name, 0 < s.quota name → name ≠ "" ∧ s.counted name + s.waiting name < 2 ^ 64
  | .restart _ _ => ∀ name, s.quota name = 0
  | .connect _ _ | .transfer _ _ _ | .apply _ => True

end Station

/-! ### What the decision says -/

section

variable {totals baseline quota : GoMap String UInt64} {name : String} {us : List InboundUser}

theorem exceeds_iff : Localquota.exceeds totals baseline quota name = true ↔
    0 < quota.get name ∧ (baseline.get name).toNat + (quota.get name).toNat ≤ (totals.get name).toNat := by
  have hq : 0 < quota.get name ↔ 0 < (quota.get name).toNat := lt_iff_toNat_lt
  have hzero : quota.get name ≠ 0 ↔ 0 < quota.get name := UInt64.pos_iff_ne_zero.symm
  rw [Localquota.exceeds, decide_eq_true_iff, hzero]
  refine and_congr_right fun hpos => ?_
  rw [hq] at hpos
  rw [le_iff_toNat_le]
  split
  · rename_i hlt
    rw [UInt64.toNat_sub_of_le _ _ (UInt64.le_of_lt hlt)]
    omega
  · rename_i hle
    rw [lt_iff_toNat_lt] at hle
    rw [UInt64.toNat_zero]
    omega

/-- Whom `Decide` lists, whatever order it visits the quotas in. -/
theorem decide_iff (ω : MapOrder String) : (Localquota.decide ω totals baseline quota).get name = true ↔
    0 < quota.get name ∧ (baseline.get name).toNat + (quota.get name).toNat ≤ (totals.get name).toNat := by
  rw [Localquota.decide, get_foldl_mark, ω.mem_visit, exceeds_iff]
  constructor
  · rintro (hempty | ⟨-, h⟩)
    · cases hempty
    · exact h
  · intro h
    refine .inr ⟨?_, h⟩
    by_contra habsent
    rw [quota.get_absent name habsent] at h
    exact absurd h.1 (by decide)

theorem quotaMap_get (us : List InboundUser) (name : String) : (quotaMap us).get name = pushedQuota us name := by
  -- generalised over the map already filled
  have key : ∀ (us : List InboundUser) (m : GoMap String UInt64),
      (us.foldl (fun m u => if 0 < u.quota then m.set u.name u.quota else m) m).get name =
        lastWrite (fun u => if u.name = name ∧ 0 < u.quota then some u.quota else none) (m.get name) us := by
    intro us
    induction us with
    | nil => exact fun m => rfl
    | cons u us ih =>
      intro m
      rw [foldl_cons, ih, lastWrite_cons]
      by_cases hpos : 0 < u.quota
      · by_cases hname : u.name = name
        · rw [if_pos hpos, if_pos ⟨hname, hpos⟩, hname, get_set_self]
          rfl
        · rw [if_pos hpos, if_neg fun h => hname h.1, get_set_of_ne _ (Ne.symm hname)]
          rfl
      · rw [if_neg hpos, if_neg fun h => hpos h.2]
        rfl
  exact key us empty

theorem pushedQuota_pos (h : 0 < pushedQuota us name) : ∃ u ∈ us, u.name = name ∧ 0 < u.quota := by
  by_contra hnone
  have hzero : pushedQuota us name = 0 := by
    refine lastWrite_eq_zero fun u hu => if_neg ?_
    rintro ⟨hname, hpos⟩
    exact hnone ⟨u, hu, hname, hpos⟩
  rw [hzero] at h
  exact absurd h (by decide)

theorem Push.final_users (p : Push) : p.final.users = p.spec.users := by
  rw [Push.final]
  cases hfinal : p.outcomes.finalSpec p.spec with
  | error e => rfl
  | ok spec' => exact p.users_kept spec' hfinal

theorem enforce_quotas (ω : MapOrder String) (totals : GoMap String UInt64) (q : Quotas) (conns : Option (List Conn))
    (closes : String → Bool) : (q.enforce ω totals conns closes).1 =
      { q with suppressed := Localquota.decide ω totals q.baseline q.bytes } := by
  rw [Quotas.enforce]
  split
  · rfl
  · rfl

end

namespace Station

variable {srv : Server} {s : Station}

/-! ### A tick -/

variable {t : Tick} {snapshot : Snapshot} {name : String}

theorem tick_unreachable (h : t.clash = none) :
    ∃ agent, s.tick t = { s with agent := agent, due := s.due ++ s.spent } ∧ agent.cores.sb = s.agent.cores.sb := by
  refine ⟨(s.agent.step (.pollHysteria t.hysteria t.now, t.choice)).1, ?_, ?_⟩
  · simp [tick, h]
  · cases t.hysteria with
    | none => rfl
    | some sample => rfl

theorem tick_reachable (h : t.clash = some snapshot) : ∃ agent conns, s.tick t =
        { s with
          agent := agent
          quotas := { s.quotas with
            suppressed := Localquota.decide t.order agent.cores.sb.stats.user.totals s.quotas.baseline s.quotas.bytes }
          ticks := s.ticks + 1
          conns := conns
          due := s.due ++ s.spent } ∧
      agent.cores.sb.stats = (accumulate s.agent.cores.sb.stats snapshot t.now).1 ∧
      ∀ c ∈ conns.rows, c ∈ s.conns.rows := by
  set first := (s.agent.step (.pollHysteria t.hysteria t.now, t.choice)).1 with hfirst
  set polled := (first.step (.pollSingbox (some snapshot) t.now, t.choice)).1 with hpolled
  have hsb : first.cores.sb = s.agent.cores.sb := by
    rw [hfirst]
    cases t.hysteria with
    | none => rfl
    | some sample => rfl
  have hstats : polled.cores.sb.stats = (accumulate s.agent.cores.sb.stats snapshot t.now).1 := by
    rw [← hsb]
    rfl
  rcases hq : s.quotas.enforce t.order polled.cores.sb.stats.user.totals
    (if t.lists then some s.conns.rows else none) t.closes with ⟨quotas, closed, line⟩
  have hquotas := (congrArg Prod.fst hq).symm.trans (enforce_quotas ..)
  refine ⟨if (s.ticks + 1) % 15 = 0 ∧ t.saves then ((polled.step (.setCounters, t.choice)).1.step (.save, t.choice)).1
    else (polled.step (.setCounters, t.choice)).1, s.conns.keep fun c => c.id ∉ closed, ?_, ?_, ?_⟩
  · simp only [tick, h, ← hfirst, ← hpolled, hq, hquotas]
    split
    · rfl
    · rfl
  · split
    · exact hstats
    · exact hstats
  · exact fun c hc => (mem_keep.mp hc).1

/-! ### In every run -/

/-- What holds whatever happens: the accumulator watches the wire, and only users with a quota are due or suppressed. -/
structure Sound (s : Station) : Prop where
  watches : ∀ d, Watches d s.agent.cores.sb.stats s.conns s.opened
  limits : ∀ name, 0 < s.quotas.bytes.get name → 0 < s.quota name
  cut : ∀ name, s.suppressed name = true → 0 < s.quota name
  due : ∀ name ∈ s.due, 0 < s.quota name

theorem mem_spent (h : name ∈ s.spent) : 0 < s.quota name ∧ (s.quota name).toNat ≤ s.moved name := by
  simpa using (mem_filter.mp h).2

theorem Sound.spares (h : s.Sound) : s.Spares := by
  intro name hzero
  rw [← Bool.not_eq_true]
  intro hcut
  obtain ⟨u, hu, hname, hpos⟩ := pushedQuota_pos (h.cut name hcut)
  rw [hzero u hu hname] at hpos
  exact absurd hpos (by decide)

theorem sound_start (disk : Option Store) (random : Option (Fin 16 → UInt8)) (node : AgentState) :
    (start disk random node).Sound where
  watches d := ⟨fun id _ => by cases d <;> rfl, fun c hc => absurd hc not_mem_nil⟩
  limits name h := absurd (show (0 : UInt64) < 0 from h) (by decide)
  cut name h := by cases h
  due name h := by cases h

theorem sound_due (h : s.Sound) : ∀ name ∈ s.due ++ s.spent, 0 < s.quota name := by
  intro name hname
  rcases mem_append.mp hname with hname | hname
  · exact h.due name hname
  · exact (mem_spent hname).1

theorem sound_tick (h : s.Sound) (hp : t.clash.all fun snapshot => snapshot.conns.isPerm s.conns.rows) :
    (s.tick t).Sound := by
  cases hclash : t.clash with
  | none =>
    obtain ⟨agent, heq, hsb⟩ := tick_unreachable hclash
    rw [heq]
    refine ⟨fun d => ?_, h.limits, h.cut, sound_due h⟩
    simp only [hsb]
    exact h.watches d
  | some snapshot =>
    rw [hclash, Option.all_some, isPerm_iff] at hp
    obtain ⟨agent, conns, heq, hstats, hsub⟩ := tick_reachable hclash
    rw [heq]
    refine ⟨fun d => ?_, h.limits, fun name hcut => ?_, sound_due h⟩
    · simp only [hstats]
      exact ((h.watches d).poll hp).fewer hsub
    · exact h.limits name ((decide_iff t.order).mp hcut).1

theorem sound_apply (h : s.Sound) (p : Push) : (s.step srv (.apply p)).Sound := by
  simp only [step]
  split
  · refine ⟨h.watches, fun name hpos => ?_, fun name hcut => ?_, fun name hdue => ?_⟩
    · rw [captureQuota, quotaMap_get, Push.final_users] at hpos
      exact hpos
    · cases hcut
    · cases hdue
  · exact ⟨h.watches, h.limits, h.cut, h.due⟩

theorem sound_step (srv : Server) (s : Station) (e : StationEv) (h : s.Sound) : (s.step srv e).Sound := by
  cases e with
  | connect id user =>
    simp only [step]
    split
    · exact h
    · exact ⟨fun d => (h.watches d).connect ‹_› user, h.limits, h.cut, h.due⟩
  | transfer id up down =>
    simp only [step]
    rcases hc : s.conns.find? id with _ | c
    · exact h
    obtain ⟨-, rfl⟩ := find?_eq_some.mp hc
    dsimp only
    split
    · exact ⟨fun d => (h.watches d).transfer ‹_› hc, h.limits, h.cut, h.due⟩
    · exact h
  | close id =>
    exact ⟨fun d => (h.watches d).fewer fun c hc => (mem_keep.mp hc).1, h.limits, h.cut, h.due⟩
  | restartCore =>
    exact ⟨fun d => (h.watches d).fewer fun c hc => absurd hc not_mem_nil, h.limits, h.cut, h.due⟩
  | hysteria name bytes => exact ⟨h.watches, h.limits, h.cut, h.due⟩
  | tick t =>
    simp only [step]
    split
    · exact sound_tick h ‹_›
    · exact h
  | apply p => exact sound_apply h p
  | restart random node =>
    refine ⟨fun d => ⟨fun id _ => ?_, fun c hc => ⟨((h.watches d).live c hc).1, ?_⟩⟩, fun name hpos => ?_,
      fun name hcut => ?_, h.due⟩
    · cases d <;> rfl
    · have hzero : (s.step srv (.restart random node)).agent.cores.sb.stats.seen d c.id = 0 := by cases d <;> rfl
      rw [hzero]
      exact UInt64.zero_le
    · exact absurd (show 0 < 0 from hpos) (by decide)
    · cases hcut

/-! ### While every byte counts -/

/-- One user with a quota. Once suppressed it stays over its quota; before, all it has moved is in the accumulator or
    waits to be seen. -/
structure Tracks (s : Station) (name : String) : Prop where
  limit : s.quotas.bytes.get name = s.quota name
  reached : s.suppressed name = true → ((s.quotas.baseline.get name).toNat : ℤ) + (s.quota name).toNat ≤ s.counted name
  followed : s.suppressed name = true ∨
    ((s.quotas.baseline.get name).toNat : ℤ) + s.moved name ≤ s.counted name + s.waiting name
  cut : name ∈ s.due → s.suppressed name = true

def Follows (s : Station) : Prop := ∀ name, 0 < s.quota name → s.Tracks name

theorem Follows.cutOff (h : s.Follows) (hsound : s.Sound) : s.CutOff :=
  fun name hdue => (h name (hsound.due name hdue)).cut hdue

theorem Sound.waiting_nonneg (h : s.Sound) (name : String) : 0 ≤ s.waiting name :=
  add_nonneg (h.watches _).unseen_nonneg (h.watches _).unseen_nonneg

theorem totals_toNat (s : Station) (name : String) :
    ((s.agent.cores.sb.stats.user.totals.get name).toNat : ℤ) = s.counted name % 2 ^ 64 := by
  norm_cast

theorem counted_nonneg (s : Station) (name : String) : 0 ≤ s.counted name :=
  add_nonneg (bytes_range .uplink name _).1 (bytes_range .downlink name _).1

theorem totals_le_counted (s : Station) (name : String) :
    ((s.agent.cores.sb.stats.user.totals.get name).toNat : ℤ) ≤ s.counted name := by
  have hnonneg := s.counted_nonneg name
  rw [totals_toNat]
  omega

theorem Tracks.frame {s' : Station} (h : s.Tracks name) (hquotas : s'.quotas = s.quotas)
    (hpushed : s'.pushed = s.pushed) (hstats : s'.agent.cores.sb.stats = s.agent.cores.sb.stats)
    (hdue : name ∈ s'.due → name ∈ s.due ∨ s.suppressed name = true)
    (hmoved : s.suppressed name = true ∨ s.waiting name + s'.moved name ≤ s'.waiting name + s.moved name) :
    s'.Tracks name := by
  have hquota : s'.quota name = s.quota name := by rw [quota, hpushed, quota]
  have hcut : s'.suppressed name = s.suppressed name := by rw [suppressed, hquotas, suppressed]
  have hcounted : s'.counted name = s.counted name := by rw [counted, hstats, counted]
  refine ⟨?_, ?_, ?_, ?_⟩
  · rw [hquotas, hquota]
    exact h.limit
  · rw [hcut, hquotas, hquota, hcounted]
    exact h.reached
  · rw [hcut, hquotas]
    rcases hmoved with hcut | hmoved
    · exact .inl hcut
    · refine h.followed.imp_right fun hfollowed => ?_
      linarith
  · rw [hcut]
    intro hname
    exact (hdue hname).elim h.cut id

theorem follows_connect (hsound : s.Sound) (h : s.Follows) (id user : String) :
    (s.step srv (.connect id user)).Follows := by
  simp only [step]
  split
  · exact h
  rename_i hid
  intro name hpos
  refine (h name hpos).frame rfl rfl rfl .inl (.inr ?_)
  simp only [waiting, (hsound.watches _).unseen_connect hid user]
  exact le_refl _

theorem follows_transfer (h : s.Follows) (id : String) (up down : UInt64) :
    (s.step srv (.transfer id up down)).Follows := by
  simp only [step]
  rcases hc : s.conns.find? id with _ | c
  · exact h
  obtain ⟨-, rfl⟩ := find?_eq_some.mp hc
  dsimp only
  split
  · rename_i hfit
    intro name hpos
    refine (h name hpos).frame rfl rfl rfl .inl (.inr ?_)
    simp only [waiting, unseen_transfer hfit hc, Direction.pick]
    split
    · push_cast
      linarith
    · linarith
  · exact h

theorem follows_fewer (h : s.Follows) {conns : Table Conn.id}
    (hsame : ∀ name d, 0 < s.quota name → s.suppressed name = false →
      unseen d name s.agent.cores.sb.stats conns = unseen d name s.agent.cores.sb.stats s.conns) :
    Follows { s with conns := conns } := by
  intro name hpos
  refine (h name hpos).frame rfl rfl rfl .inl ?_
  cases hcut : s.suppressed name with
  | true => exact .inl rfl
  | false =>
    right
    simp only [waiting, hsame name _ hpos hcut]
    exact le_refl _

theorem follows_close (h : s.Follows) {id : String} (hc : s.Counted (.close id)) :
    (s.step srv (.close id)).Follows := by
  refine follows_fewer h fun name d hpos hcut => ?_
  rw [unseen, total_keep]
  refine total_congr fun c hmem => ?_
  by_cases hid : c.id = id
  · by_cases hname : c.user = name
    · subst hname
      have hseen := ((hc c hmem hid hpos).resolve_left (by rw [hcut]; decide)) d
      rw [hseen]
      simp
    · simp [hname]
  · simp [hid]

theorem follows_restartCore (h : s.Follows) (hc : s.Counted .restartCore) : (s.step srv .restartCore).Follows := by
  refine follows_fewer h fun name d hpos hcut => ?_
  rw [unseen_empty, unseen_of_seen]
  rintro c hmem rfl
  exact ((hc c hmem hpos).resolve_left (by rw [hcut]; decide)) d

theorem follows_hysteria (h : s.Follows) {bytes : ℕ} (hc : s.Counted (.hysteria name bytes)) :
    (s.step srv (.hysteria name bytes)).Follows := by
  intro who hpos
  refine (h who hpos).frame rfl rfl rfl .inl ?_
  by_cases hwho : who = name
  · subst hwho
    rcases hc hpos with hcut | rfl
    · exact .inl hcut
    · simp [step]
  · simp [step, waiting, hwho]

section

variable (hsound : s.Sound)
include hsound

theorem counted_poll (now : ℤ) (hp : snapshot.conns.Perm s.conns.rows) (hname : name ≠ "")
    (hlt : s.counted name + s.waiting name < 2 ^ 64) {s' : Station}
    (hstats : s'.agent.cores.sb.stats = (accumulate s.agent.cores.sb.stats snapshot now).1) :
    s'.counted name = s.counted name + s.waiting name := by
  have hnd : (snapshot.conns.map (·.id)).Nodup := (hp.map _).nodup_iff.mpr s.conns.nodup
  have hrange : ∀ d, 0 ≤ s.agent.cores.sb.stats.user.bytes d name ∧ 0 ≤ unseen d name s.agent.cores.sb.stats s.conns :=
    fun d => ⟨(bytes_range d name _).1, (hsound.watches d).unseen_nonneg⟩
  have hdir : ∀ d,
      s.agent.cores.sb.stats.user.bytes d name + unseen d name s.agent.cores.sb.stats s.conns < 2 * 2 ^ 63 →
      s'.agent.cores.sb.stats.user.bytes d name =
        s.agent.cores.sb.stats.user.bytes d name + unseen d name s.agent.cores.sb.stats s.conns := by
    intro d hd
    rw [hstats, ← unseenOf_perm hp]
    rw [← unseenOf_perm hp] at hd
    exact foldl_account_bytes d hname snapshot.conns _ hnd
      (fun c hc => ((hsound.watches d).live c (hp.mem_iff.mp hc)).2) hd
  obtain ⟨hup, hup'⟩ := hrange .uplink
  obtain ⟨hdown, hdown'⟩ := hrange .downlink
  simp only [counted, waiting] at hlt ⊢
  rw [hdir .uplink (by linarith), hdir .downlink (by linarith)]
  ring

/-- After a tick with Clash nothing of a user's traffic waits, and the user is suppressed exactly if what is counted of
    it is over the baseline by its quota. -/
theorem tick_decides (hclash : t.clash = some snapshot) (hp : snapshot.conns.Perm s.conns.rows)
    (hpos : 0 < s.quotas.bytes.get name) (hname : name ≠ "") (hlt : s.counted name + s.waiting name < 2 ^ 64) :
    (s.tick t).counted name = s.counted name + s.waiting name ∧ (s.tick t).waiting name = 0 ∧
      ((s.tick t).suppressed name = true ↔ ((s.quotas.baseline.get name).toNat : ℤ) + (s.quotas.bytes.get name).toNat ≤
        s.counted name + s.waiting name) := by
  obtain ⟨agent, conns, heq, hstats, hsub⟩ := tick_reachable hclash
  rw [heq]
  have hcounted : (s.tick t).counted name = s.counted name + s.waiting name := by
    refine counted_poll hsound t.now hp hname hlt ?_
    rw [heq]
    exact hstats
  rw [heq] at hcounted
  have hzero : ∀ d, unseen d name agent.cores.sb.stats conns = 0 := by
    intro d
    refine unseen_of_seen fun c hmem _ => ?_
    rw [hstats]
    exact seen_poll hp c (hsub c hmem)
  have htotal : ((agent.cores.sb.stats.user.totals.get name).toNat : ℤ) = s.counted name + s.waiting name := by
    rw [← hcounted, ← Int.emod_eq_of_lt (counted_nonneg _ _) (hcounted.trans_lt hlt), ← totals_toNat]
  refine ⟨hcounted, by simp [waiting, hzero], ?_⟩
  refine (decide_iff t.order).trans ?_
  rw [and_iff_right hpos, ← htotal]
  exact Int.ofNat_le.symm

omit hsound in
theorem follows_unreachable (h : s.Follows) (hc : s.Counted (.tick t)) (hclash : t.clash = none) :
    (s.tick t).Follows := by
  obtain ⟨agent, heq, hsb⟩ := tick_unreachable (s := s) hclash
  rw [heq]
  intro name hpos
  refine (h name hpos).frame rfl rfl (by simp only [hsb]) ?_ (.inr ?_)
  · intro hdue
    exact (mem_append.mp hdue).imp_right (hc.1 hclash name)
  · simp only [waiting, hsb]
    exact le_refl _

theorem follows_reachable (h : s.Follows) (hc : s.Counted (.tick t))
    (hclash : t.clash = some snapshot) (hp : snapshot.conns.Perm s.conns.rows) : (s.tick t).Follows := by
  obtain ⟨agent, conns, heq, -, -⟩ := tick_reachable hclash
  have hbaseline : (s.tick t).quotas.baseline = s.quotas.baseline := by rw [heq]
  have hmoved : (s.tick t).moved = s.moved := by rw [heq]
  have hdue : (s.tick t).due = s.due ++ s.spent := by rw [heq]
  intro name hpos
  have hquota : (s.tick t).quota name = s.quota name := by
    rw [heq]
    rfl
  rw [hquota] at hpos
  obtain ⟨hname, hlt⟩ := hc.2 name hpos
  have htrack := h name hpos
  obtain ⟨hcounted, hwaiting, hcut⟩ := tick_decides hsound hclash hp (by rwa [htrack.limit]) hname hlt
  rw [htrack.limit] at hcut
  have hwait := hsound.waiting_nonneg name
  -- once suppressed the user stays over its quota, and so it is suppressed again
  have hkeeps : s.suppressed name = true → (s.tick t).suppressed name = true := by
    intro hbefore
    rw [hcut]
    linarith [htrack.reached hbefore]
  refine ⟨?_, ?_, ?_, ?_⟩
  · rw [hquota, ← htrack.limit, heq]
  · rw [hquota, hbaseline, hcounted]
    exact hcut.mp
  · rw [hbaseline, hmoved, hwaiting, hcounted, add_zero]
    exact htrack.followed.imp_left hkeeps
  · intro hmem
    rw [hdue] at hmem
    rcases mem_append.mp hmem with hbefore | hspent
    · exact hkeeps (htrack.cut hbefore)
    rcases htrack.followed with hbefore | hfollowed
    · exact hkeeps hbefore
    · have hle : ((s.quota name).toNat : ℤ) ≤ s.moved name := by exact_mod_cast (mem_spent hspent).2
      rw [hcut]
      linarith

theorem follows_tick (h : s.Follows) (hc : s.Counted (.tick t))
    (hp : t.clash.all fun snapshot => snapshot.conns.isPerm s.conns.rows) : (s.tick t).Follows := by
  cases hclash : t.clash with
  | none => exact follows_unreachable h hc hclash
  | some snapshot =>
    rw [hclash, Option.all_some, isPerm_iff] at hp
    exact follows_reachable hsound h hc hclash hp

/-- A push starts anew, wherever it finds the node. -/
theorem follows_push {p : Push} (hp : p.Succeeds srv s.node) : (s.step srv (.apply p)).Follows := by
  have hstep : s.step srv (.apply p) =
      { s with
        node := (Agent.apply srv p.outcomes p.exits p.spec s.node).1
        quotas := captureQuota s.agent.cores.sb.stats.user.totals p.final
        pushed := p.spec.users
        moved := fun _ => 0
        due := [] } := by
    simp only [step]
    rw [if_pos hp]
  rw [hstep]
  intro name hpos
  refine ⟨?_, nofun, .inr ?_, nofun⟩
  · simp only [captureQuota, quotaMap_get, Push.final_users]
    rfl
  · have htotal := s.totals_le_counted name
    have hwait := hsound.waiting_nonneg name
    exact htotal.trans (le_add_of_nonneg_right hwait)

theorem follows_step (h : s.Follows) {e : StationEv} (hc : s.Counted e) : (s.step srv e).Follows := by
  cases e with
  | connect id user => exact follows_connect hsound h id user
  | transfer id up down => exact follows_transfer h id up down
  | close id => exact follows_close h hc
  | restartCore => exact follows_restartCore h hc
  | hysteria name bytes => exact follows_hysteria h hc
  | tick t =>
    simp only [step]
    split
    · exact follows_tick hsound h hc ‹_›
    · exact h
  | apply p =>
    by_cases hp : p.Succeeds srv s.node
    · exact follows_push hsound hp
    · simp only [step, if_neg hp]
      exact fun name hpos => (h name hpos).frame rfl rfl rfl .inl (.inr (le_refl _))
  | restart random node =>
    intro name hpos
    have hzero : s.quota name = 0 := hc name
    have hpos' : 0 < s.quota name := hpos
    rw [hzero] at hpos'
    exact absurd hpos' (by decide)

end

end Station

/-! ### The master -/

theorem quotaBytes_pos {u : User} {now : ℤ} (ib : Inbound) (hactive : u.isActive now)
    (hlimit : 0 < u.trafficLimitBytes) : 0 < (inboundUser ib u).quotaBytes := by
  have hleft : u.usedTrafficBytes < u.trafficLimitBytes := by
    by_contra hge
    rw [User.isActive, User.suppressedReason] at hactive
    split at hactive
    · cases hactive
    split at hactive
    · cases hactive
    · rw [if_pos ⟨hlimit, not_lt.mp hge⟩] at hactive
      cases hactive
  simp only [inboundUser, if_pos hlimit]
  omega

/-- The entries of a spec: those of active users, with a quota if the user has a limit, and those of chains. -/
def EmitsLimits (db : Db) (now : ℤ) (spec : NodeSpec) : Prop :=
  ∀ e ∈ spec.users, (∃ u ∈ db.users.rows, e.name = u.username ∧ u.isActive now = true ∧
    (0 < u.trafficLimitBytes → 0 < e.quotaBytes)) ∨ ∃ i ∈ db.inbounds.rows, e.name = chainLabel i

theorem emits_limits {env : Env} {keys : Keys} {db : Db} {node : Uuid} {now : ℤ} {spec : NodeSpec}
    (h : (buildNodeSpec env keys db node now).2 = .ok spec) : EmitsLimits db now spec := by
  intro e he
  obtain ⟨ib, hib, he⟩ := mem_flatMap.mp he
  obtain ⟨active, -, -, hinbounds, -⟩ := buildNodeSpec_ok (Prod.ext rfl h)
  simp only [buildInbounds, bind_eq_ok] at hinbounds
  obtain ⟨rows, -, users, husers, ibs, hibs, hret⟩ := hinbounds
  obtain ⟨rfl, rfl⟩ := Prod.mk.inj (ok.inj hret)
  obtain ⟨row, -, hbuild⟩ := mapM_mem hibs ib hib
  obtain ⟨port, chain, upstream, tls, -, hchain, -, -, rfl⟩ := buildInbound_eq_ok.mp hbuild
  rcases mem_append.mp he with he | he
  · obtain ⟨u, hu, rfl⟩ := mem_map.mp he
    obtain ⟨hmem, hactive⟩ := mem_filter.mp hu
    obtain ⟨stored, hstored, hdecrypt⟩ := mapM_mem husers u hmem
    simp only [Env.decryptUser, bind_eq_ok] at hdecrypt
    obtain ⟨password, -, uuid, -, hret⟩ := hdecrypt
    obtain rfl := ok.inj hret
    refine .inl ⟨stored, ?_, rfl, hactive, quotaBytes_pos row hactive⟩
    exact (mem_filter.mp ((mem_insertionSort _).mp hstored)).1
  · obtain ⟨c, hc, rfl⟩ := mem_map.mp he
    obtain ⟨i, hi, hentry⟩ := mapM_mem hchain c hc
    obtain ⟨password, -, hret⟩ := bind_eq_ok.mp hentry
    obtain rfl := ok.inj hret
    exact .inr ⟨i, (mem_filter.mp hi).1, rfl⟩

/-! ### The cutoff in every run -/

/-- After a run of anything nobody is suppressed that was pushed with quota 0. From the next push that succeeds on, as
    long as every byte of the users with a quota is counted, everybody that a tick has found over its quota is
    suppressed. And the master pushes a quota above 0 for every active user with a limit. -/
theorem quota_cut_off (srv : Server) (disk : Option Store) (random : Option (Fin 16 → UInt8)) (node : AgentState)
    (before : List StationEv) :
    let s := before.foldl (Station.step srv) (Station.start disk random node)
    s.Spares ∧ (∀ (p : Push) (es : List StationEv), p.Succeeds srv s.node →
        Always (Station.step srv) Station.Counted (s.step srv (.apply p)) es →
        Always (Station.step srv) (fun s e => (s.step srv e).CutOff) (s.step srv (.apply p)) es) ∧
      ∀ (env : Env) (keys : Keys) (db : Db) (id : Uuid) (now : ℤ) (spec : NodeSpec),
        (buildNodeSpec env keys db id now).2 = .ok spec → EmitsLimits db now spec := by
  intro s
  have hsound : s.Sound := inv_foldl (Station.sound_step srv) before _ (Station.sound_start disk random node)
  refine ⟨hsound.spares, fun p es hp hcounted => ?_, fun _ _ _ _ _ _ h => emits_limits h⟩
  have hstep : ∀ (s : Station) e, s.Sound ∧ s.Follows → s.Counted e →
      (s.step srv e).Sound ∧ (s.step srv e).Follows := by
    rintro s e ⟨hs, hf⟩ hc
    exact ⟨Station.sound_step srv s e hs, Station.follows_step hs hf hc⟩
  refine always_of_inv hstep (fun s e hs hc => ?_) es _
    ⟨Station.sound_step srv s _ hsound, Station.follows_push hsound hp⟩ hcounted
  exact (hstep s e hs hc).2.cutOff (hstep s e hs hc).1

/-! ### Runs -/

/-- `alice` may move 10 bytes. -/
def tenBytes : Push where
  spec := { emptySpec with inbounds := [{ vlessOf "singbox" with users := [⟨"alice", "u", "p", "", 10⟩] }] }
  outcomes := smooth
  exits := noExits
  users_kept spec' h := by rw [← ok.inj h]

/-- A tick in which everything answers. -/
def fullTick (conns : List Conn) : Tick :=
  ⟨some empty, some ⟨0, 0, 0, conns⟩, true, fun _ => true, true, 0, default, default⟩

instance (s : Station) : Decidable s.CutOff := inferInstanceAs (Decidable (∀ name ∈ s.due, s.suppressed name = true))

/-- Ten bytes through a connection that lives until it is polled. -/
def tenMoved : List StationEv :=
  [.connect "c1" "alice", .transfer "c1" 4 6, .tick (fullTick [⟨"c1", "alice", 4, 6⟩])]

def Station.after (es : List StationEv) : Station :=
  (StationEv.apply tenBytes :: es).foldl (Station.step plainServer) (Station.start none none freshAgent)

theorem tenMoved_cut_off :
    let s := (Station.start none none freshAgent).step plainServer (.apply tenBytes)
    Always (Station.step plainServer) (fun s e => (s.step plainServer e).CutOff) s tenMoved ∧
      (Station.after tenMoved).due = ["alice"] ∧ (Station.after tenMoved).suppressed "alice" = true := by
  refine ⟨?_, by decide, by decide⟩
  refine (quota_cut_off plainServer none none freshAgent []).2.1 tenBytes tenMoved (by decide) ?_
  simp only [tenMoved, always_cons, always_nil, Station.Counted, true_and, and_true]
  refine ⟨?_, fun name hpos => ?_⟩
  · intro hclash
    cases hclash
  obtain ⟨u, hu, rfl, -⟩ := pushedQuota_pos hpos
  have hu' : u ∈ [(⟨"alice", "u", "p", "", 10⟩ : InboundUser)] := hu
  obtain rfl := mem_singleton.mp hu'
  exact ⟨by decide, by decide⟩

/-- Ten bytes through hysteria. -/
def throughHysteria : List StationEv := [.hysteria "alice" 10, .tick (fullTick [])]

/-- Ten bytes through a connection that closes before it is polled. -/
def betweenPolls : List StationEv := [.connect "c1" "alice", .transfer "c1" 4 6, .close "c1", .tick (fullTick [])]

/-- Clash does not answer. -/
def withoutClash : List StationEv :=
  [.connect "c1" "alice", .transfer "c1" 4 6, .tick { fullTick [] with clash := none }]

/-- The agent restarts after it has suppressed `alice`. -/
def afterRestart : List StationEv := tenMoved ++ [.restart none freshAgent]

/-- Four ways to move the quota without being suppressed. -/
theorem quota_bypassed : ¬ (Station.after throughHysteria).CutOff ∧ ¬ (Station.after betweenPolls).CutOff ∧
    ¬ (Station.after withoutClash).CutOff ∧ ¬ (Station.after afterRestart).CutOff := by decide

end Honey
