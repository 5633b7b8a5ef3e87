import Honey.Agent.Stats
import Honey.Agent.Xray

/-! The accounting of the agent over its whole life: the store of `accounting.go`, the loop and the
    signal path of `main.go`, and the samples the two streams deliver under the store's epoch.

    Three accumulators with different lifetimes feed streams that share one epoch:

        sing-box   seeded from the store       survives a restart as far as the store was saved
        hysteria   in the agent's memory       starts from zero with the agent
        xray       in the xray process         starts from zero with that process

    So a delivered counter never falls (`steady_run_never_drops`) in the runs whose steps are `Steady`:
    a stop of the last two loses no bytes, and the store holds what sing-box has counted. -/

namespace Honey.Agent
open Honey.Schemes List Option UInt64 GoMap Nat

structure Counter where
  (up down : UInt64)
  deriving DecidableEq, Repr, Inhabited

/-- `accounting.Store`, in memory and as its file decodes. -/
structure Store where
  epoch : String
  users : GoMap String Counter

/-- Two hexadecimal digits. -/
def hexByte (b : UInt8) : List Char :=
  [digitChar (b.toNat / 16), digitChar (b.toNat % 16)]

/-- `newEpoch`; `none` is a random source that fails. -/
def newEpoch : Option (Fin 16 → UInt8) → String
  | none => "epoch"
  | some b => String.ofList ((List.ofFn b).flatMap hexByte)

variable (disk : Option Store) (random : Option (Fin 16 → UInt8))

/-- `Load`; `none` is a file that is missing or does not decode. -/
def load : Store :=
  let s := disk.getD ⟨"", empty⟩
  if s.epoch = "" then { s with epoch := newEpoch random } else s

/-- `SetCounters`: one loop over `up`, one over `down`. -/
def Store.setCounters (s : Store) (c : Counters) : Store :=
  let users := c.up.keys.foldl (fun m n => m.set n { m.get n with up := c.up.get n }) empty
  let users := c.down.keys.foldl (fun m n => m.set n { m.get n with down := c.down.get n }) users
  { s with users := users }

def Store.counters (s : Store) : Counters :=
  ⟨s.users.mapVal (·.up) rfl, s.users.mapVal (·.down) rfl, rfl⟩

theorem counters_setCounters (s : Store) (c : Counters) (n : String) :
    (s.setCounters c).counters.entry n = c.entry n := by
  have hup := get_foldl_set (fun n (v : Counter) => { v with up := c.up.get n }) c.up.keys empty c.up.nodup
  have hdown := get_foldl_set (fun n (v : Counter) => { v with down := c.down.get n })
    c.down.keys (c.up.keys.foldl (fun m n => m.set n { m.get n with up := c.up.get n }) empty) c.down.nodup
  have hget : (s.setCounters c).users.get n = ⟨c.up.get n, c.down.get n⟩ := by
    refine (hdown n).trans ?_
    rw [hup n, ← c.same]
    split
    · rfl
    · rename_i hn
      rw [c.up_absent hn, c.down_absent hn]
      rfl
  simp [Counters.entry, Store.counters, mapVal, hget]

/-! ### The process -/

/-- The agent, the store's file and the xray process beside it. -/
structure Process where
  disk : Option Store
  store : Store
  cores : Cores
  stopping : Bool
  xray : XrayCounters
  xrayPrev : Option (UInt64 × UInt64)

/-- The start of `main`: load the store, seed the sing-box accumulator. -/
def Process.boot (xray : XrayCounters) : Process where
  disk := disk
  store := load disk random
  cores := Cores.start (load disk random).counters
  stopping := false
  xray := xray
  xrayPrev := none

/-- The streams a master can open: `coreKey` knows no other kind. -/
inductive CoreKind where | singbox | xray
  deriving DecidableEq, Repr

/-- What happens to the agent. A tick of `accountingLoop` is `pollHysteria`, `pollSingbox`,
    `setCounters` and sometimes `save`; `signal` is the shutdown path, which saves, and `restart` the
    next process. `xrayStart` is a new xray process, `xrayCount` traffic through it. -/
inductive Ev where
  | pollHysteria (sample : Option (GoMap String Traffic)) (now : ℤ)
  | pollSingbox (snapshot : Option Snapshot) (now : ℤ)
  | setCounters
  | save
  | signal
  | restart (random : Option (Fin 16 → UInt8))
  | xrayStart
  | xrayCount (name : String) (value : ℕ)
  | openXray
  | deliver (now : ℤ)
  | deliverXray (secs : Float) (now : ℤ)

/-- One event, and the sample it sends. -/
def Process.step (a : Process) (e : Ev × Choice) : Process × Option (CoreKind × StatSample) :=
  match e.1 with
  | .pollHysteria sample now => ({ a with cores := a.cores.pollHysteria e.2 sample now }, none)
  | .pollSingbox snapshot now => ({ a with cores := a.cores.pollSingbox e.2 snapshot now }, none)
  | .setCounters => ({ a with store := a.store.setCounters a.cores.sb.stats.user }, none)
  | .save => ({ a with disk := some a.store }, none)
  | .signal => ({ a with disk := some a.store, stopping := true }, none)
  | .restart random => (Process.boot a.disk random a.xray, none)
  | .xrayStart => ({ a with xray := empty }, none)
  | .xrayCount name value => ({ a with xray := a.xray.count name value }, none)
  | .openXray => ({ a with xrayPrev := none }, none)
  | .deliver now =>
    let (cores, sample) := a.cores.stats e.2 a.store.epoch now
    ({ a with cores := cores }, some (.singbox, sample))
  | .deliverXray secs now =>
    let st := xrayStat e.2.users a.xrayPrev secs (queryStats e.2.sample a.xray)
    ({ a with xrayPrev := some (st.nodeUp, st.nodeDown) },
      some (.xray, ⟨now / 1000000, st.nodeUp, st.nodeDown, st.upSpeed, st.downSpeed,
        st.connections, a.store.epoch, st.users⟩))

/-- The agent, the cumulative bytes behind its sing-box stream, and all samples sent so far. -/
structure Node where
  agent : Process
  totals : Totals
  sent : List (CoreKind × StatSample)

def Node.start : Node where
  agent := Process.boot disk random empty
  totals := Totals.start (load disk random).counters
  sent := []

def Node.step (n : Node) (e : Ev × Choice) : Node where
  agent := (n.agent.step e).1
  totals := match e.1 with
    | .pollHysteria sample now => n.totals.step (.pollHysteria sample now)
    | .pollSingbox snapshot now => n.totals.step (.pollSingbox snapshot now)
    | .restart random => Totals.start (load n.agent.disk random).counters
    | _ => n.totals
  sent := n.sent ++ (n.agent.step e).2.toList

/-- No counter of `s` is below the one that `s'` showed for the same user. -/
def AtLeast (s' s : StatSample) : Prop :=
  ∀ u ∈ s'.users, ∀ v ∈ s.users, u.name = v.name → u.up ≤ v.up ∧ u.down ≤ v.down

/-- What the event sends is at least every sample the same stream sent under the same epoch. -/
def NeverDrops (n : Node) (e : Ev × Choice) : Prop :=
  ∀ k s, (n.agent.step e).2 = some (k, s) → ∀ s', (k, s') ∈ n.sent → s'.epoch = s.epoch → AtLeast s' s

/-- Adding the connection's bytes to its user does not pass the end of `uint64`. -/
def NoWrap (st : TrafficState) (c : Conn) : Prop :=
  c.user ≠ "" → (st.user.up.get c.user).toNat + (increment c.up (st.connUp.get c.id)).toNat < 2 ^ 64 ∧
    (st.user.down.get c.user).toNat + (increment c.down (st.connDown.get c.id)).toNat < 2 ^ 64

/-- The steps after which the streams go on where they were. -/
def Steady (n : Node) (e : Ev × Choice) : Prop :=
  match e.1 with
  | .pollHysteria (some sample) _ => ∀ k, (n.totals.hy.up.get k).toNat + (sample.get k).rx.toNat < 2 ^ 64 ∧
        (n.totals.hy.down.get k).toNat + (sample.get k).tx.toNat < 2 ^ 64
  | .pollSingbox (some snapshot) _ => Always account NoWrap n.totals.acc snapshot.conns
  | .restart _ =>
    -- a graceful restart: the store was saved on the way down, and it holds all there was
    n.agent.stopping ∧ (∀ k, n.totals.hy.up.get k = 0 ∧ n.totals.hy.down.get k = 0) ∧
      ∀ k, (n.agent.disk.map (·.counters.entry k)) = some (n.totals.acc.user.entry k)
  | .xrayStart => ∀ name, n.agent.xray.get name = 0
  | .deliver now =>
    -- the two cached samples can be merged in place, and no user of hysteria waits for the first
    -- sing-box poll to bring its seeded counters back
    Quiet n.totals (.deliver n.agent.store.epoch now) ∧
      ∀ k, n.totals.hy.Has k → n.totals.sb.entry k = n.totals.acc.user.entry k
  | _ => True

/-! ### Steady steps -/

theorem account_mono {st : TrafficState} {c : Conn} (h : NoWrap st c) (k : String) :
    st.user.up.get k ≤ (account st c).user.up.get k ∧ st.user.down.get k ≤ (account st c).user.down.get k := by
  simp only [account]
  by_cases hu : c.user = ""
  · simp [hu]
  obtain ⟨hup, hdown⟩ := h hu
  rw [if_neg hu, Counters.up_add, Counters.down_add]
  rcases eq_or_ne k c.user with rfl | hne
  · simp only [if_true, le_iff_toNat_le, UInt64.toNat_add]
    rw [mod_eq_of_lt hup, mod_eq_of_lt hdown]
    exact ⟨le_add_right _ _, le_add_right _ _⟩
  · simp [hne]

theorem foldl_account_mono (k : String) : ∀ (cs : List Conn) (st : TrafficState), Always account NoWrap st cs →
    st.user.up.get k ≤ (cs.foldl account st).user.up.get k ∧ st.user.down.get k ≤ (cs.foldl account st).user.down.get k
  | [], _, _ => ⟨UInt64.le_refl _, UInt64.le_refl _⟩
  | c :: cs, st, h => by
    have h₁ := account_mono h.1 k
    have h₂ := foldl_account_mono k cs _ h.2
    exact ⟨UInt64.le_trans h₁.1 h₂.1, UInt64.le_trans h₁.2 h₂.2⟩

/-- What carries the samples sent so far: the counters behind a stream are at least what it showed. -/
structure Node.Inv (n : Node) : Prop where
  caches : Caches n.agent.cores n.totals
  published : ∀ k, n.totals.sb.Has k → n.totals.sb.entry k = n.totals.acc.user.entry k
  xrayLt : ∀ name, n.agent.xray.get name < 2 ^ 63
  singbox : ∀ s, (CoreKind.singbox, s) ∈ n.sent → ∀ u ∈ s.users,
    u.up.toNat ≤ (n.totals.acc.user.up.get u.name).toNat + (n.totals.hy.up.get u.name).toNat ∧ u.down.toNat ≤
        (n.totals.acc.user.down.get u.name).toNat + (n.totals.hy.down.get u.name).toNat
  xray : ∀ s, (CoreKind.xray, s) ∈ n.sent → ∀ u ∈ s.users,
    u.up ≤ shown n.agent.xray u.name "uplink" ∧ u.down ≤ shown n.agent.xray u.name "downlink"

theorem inv_start : (Node.start disk random).Inv where
  caches := caches_start _
  published k hk := by simp [Node.start, Totals.start, Counters.Has, Counters.empty] at hk
  xrayLt name := by simp [Node.start, Process.boot]
  singbox s hs := by simp [Node.start] at hs
  xray s hs := by simp [Node.start] at hs

variable {n : Node} {now : ℤ} {ch : Choice}

/-- A steady delivery shows the counters behind the stream, without a wrap. -/
theorem deliver_shows (hn : n.Inv) (hs : Steady n (.deliver now, ch)) {u : UserTraffic}
    (hu : u ∈ (n.agent.cores.stats ch n.agent.store.epoch now).2.users) :
    u.up.toNat = (n.totals.acc.user.up.get u.name).toNat + (n.totals.hy.up.get u.name).toNat ∧ u.down.toNat =
        (n.totals.acc.user.down.get u.name).toNat + (n.totals.hy.down.get u.name).toNat := by
  obtain ⟨hq, hseed⟩ := hs
  have hex := stats_exact ch n.agent.store.epoch now hn.caches
  have hentry : n.totals.sb.entry u.name = n.totals.acc.user.entry u.name := by
    rcases (hex.mem u.name).mp (mem_map_of_mem hu) with h | h
    · exact hn.published _ h
    · exact hseed _ h
  -- one of the two terms is zero in a quiet state
  have hzero : (n.totals.sb.up.get u.name = 0 ∧ n.totals.sb.down.get u.name = 0) ∨
      (n.totals.hy.up.get u.name = 0 ∧ n.totals.hy.down.get u.name = 0) := by
    rcases hq with hnone | hall
    · exact Or.inl ⟨n.totals.sb.up_absent (hnone _), n.totals.sb.down_absent (hnone _)⟩
    · by_cases hh : n.totals.hy.Has u.name
      · exact Or.inr (hall _ hh).2
      · exact Or.inr ⟨n.totals.hy.up_absent hh, n.totals.hy.down_absent hh⟩
  simp only [Counters.entry, UserTraffic.mk.injEq, true_and] at hentry
  rw [hex.up u hu, hex.down u hu, ← hentry.1, ← hentry.2]
  rcases hzero with ⟨h₁, h₂⟩ | ⟨h₁, h₂⟩
  · simp [h₁, h₂]
  · simp [h₁, h₂]

theorem bound_mono {k : String} {u d : UInt64} {a a' h h' : Counters}
    (hb : u.toNat ≤ (a.up.get k).toNat + (h.up.get k).toNat ∧ d.toNat ≤ (a.down.get k).toNat + (h.down.get k).toNat)
    (ha : a.up.get k ≤ a'.up.get k ∧ a.down.get k ≤ a'.down.get k)
    (hh : h.up.get k ≤ h'.up.get k ∧ h.down.get k ≤ h'.down.get k) :
    u.toNat ≤ (a'.up.get k).toNat + (h'.up.get k).toNat ∧ d.toNat ≤ (a'.down.get k).toNat + (h'.down.get k).toNat := by
  simp only [le_iff_toNat_le] at ha hh
  omega

theorem mem_sent {e : Ev × Choice} {x : CoreKind × StatSample} (h : x ∈ (n.step e).sent) :
    x ∈ n.sent ∨ (n.agent.step e).2 = some x := by
  rwa [Node.step, mem_append, mem_toList] at h

theorem inv_pollSingbox {snapshot : Snapshot} (hn : n.Inv) (hs : Steady n (.pollSingbox (some snapshot) now, ch)) :
    (n.step (.pollSingbox (some snapshot) now, ch)).Inv where
  caches := caches_pollSingbox ch snapshot now hn.caches
  published _ _ := rfl
  xrayLt := hn.xrayLt
  singbox s hmem u hu := by
    replace hmem := (mem_sent hmem).resolve_right (by rintro ⟨⟩)
    have hacc := foldl_account_mono u.name snapshot.conns n.totals.acc hs
    simp only [Node.step, Totals.step, accumulate_user]
    exact bound_mono (hn.singbox s hmem u hu) hacc ⟨UInt64.le_refl _, UInt64.le_refl _⟩
  xray s hmem := hn.xray s ((mem_sent hmem).resolve_right (by rintro ⟨⟩))

theorem inv_pollHysteria {sample : GoMap String Traffic} (hn : n.Inv)
    (hs : Steady n (.pollHysteria (some sample) now, ch)) : (n.step (.pollHysteria (some sample) now, ch)).Inv where
  caches := caches_pollHysteria ch sample now hn.caches
  published := hn.published
  xrayLt := hn.xrayLt
  singbox s hmem u hu := by
    replace hmem := (mem_sent hmem).resolve_right (by rintro ⟨⟩)
    obtain ⟨hup, hdown⟩ := hs u.name
    have hsum := n.totals.hy.isSum_plus (sampleCounters sample)
    have hhy : n.totals.hy.up.get u.name ≤ (n.totals.hy.plus (sampleCounters sample)).up.get u.name ∧
        n.totals.hy.down.get u.name ≤ (n.totals.hy.plus (sampleCounters sample)).down.get u.name := by
      rw [hsum.up, hsum.down, UInt64.le_iff_toNat_le, UInt64.le_iff_toNat_le, UInt64.toNat_add, UInt64.toNat_add]
      simp only [sampleCounters, mapVal]
      rw [mod_eq_of_lt hup, mod_eq_of_lt hdown]
      exact ⟨le_add_right _ _, le_add_right _ _⟩
    exact bound_mono (hn.singbox s hmem u hu) ⟨UInt64.le_refl _, UInt64.le_refl _⟩ hhy
  xray s hmem := hn.xray s ((mem_sent hmem).resolve_right (by rintro ⟨⟩))

theorem load_counters : (load disk random).counters = (disk.getD ⟨"", empty⟩).counters := by
  simp only [load]
  split <;> rfl

theorem inv_restart {random : Option (Fin 16 → UInt8)} (hn : n.Inv) (hs : Steady n (.restart random, ch)) :
    (n.step (.restart random, ch)).Inv where
  caches := caches_start _
  published k hk := by simp [Node.step, Totals.start, Counters.Has, Counters.empty] at hk
  xrayLt := hn.xrayLt
  singbox s hmem u hu := by
    replace hmem := (mem_sent hmem).resolve_right (by rintro ⟨⟩)
    obtain ⟨-, hzero, hdisk⟩ := hs
    obtain ⟨d, hd, hdk⟩ := map_eq_some_iff.mp (hdisk u.name)
    have hseed : (Node.step n (.restart random, ch)).totals.acc.user.entry u.name = n.totals.acc.user.entry u.name := by
      simp only [Node.step, Totals.start, hd]
      rw [seedUsers_entry, load_counters, getD_some, hdk]
    simp only [Counters.entry, UserTraffic.mk.injEq, true_and] at hseed
    have hold := hn.singbox s hmem u hu
    rw [(hzero u.name).1, (hzero u.name).2] at hold
    rw [hseed.1, hseed.2]
    simp only [UInt64.toNat_zero] at hold
    omega
  xray s hmem := hn.xray s ((mem_sent hmem).resolve_right (by rintro ⟨⟩))

/-- The xray counters may go from `n` to `n'` when that lowers nothing they have shown. -/
theorem inv_xray {n' : Node} (hn : n.Inv) (hcores : n'.agent.cores = n.agent.cores) (htotals : n'.totals = n.totals)
    (hsent : n'.sent = n.sent) (hlt : ∀ name, n'.agent.xray.get name < 2 ^ 63)
    (hle : ∀ name, n.agent.xray.get name ≤ n'.agent.xray.get name) : n'.Inv where
  caches := by rw [hcores, htotals]; exact hn.caches
  published := by rw [htotals]; exact hn.published
  xrayLt := hlt
  singbox := by rw [hsent, htotals]; exact hn.singbox
  xray s hs u hu := by
    rw [hsent] at hs
    have h := hn.xray s hs u hu
    exact ⟨UInt64.le_trans h.1 (shown_mono hle hlt), UInt64.le_trans h.2 (shown_mono hle hlt)⟩

theorem inv_deliver (hn : n.Inv) (hs : Steady n (.deliver now, ch)) : (n.step (.deliver now, ch)).Inv where
  caches := caches_stats ch n.agent.store.epoch now hn.caches hs.1
  published := hn.published
  xrayLt := hn.xrayLt
  singbox s hmem u hu := by
    rcases mem_sent hmem with hmem | hsend
    · exact hn.singbox s hmem u hu
    obtain ⟨-, rfl⟩ := Prod.mk.inj (Option.some.inj hsend)
    have h := deliver_shows hn hs hu
    exact ⟨h.1.le, h.2.le⟩
  xray s hmem := hn.xray s ((mem_sent hmem).resolve_right (by rintro ⟨⟩))

theorem inv_deliverXray {secs : Float} (hn : n.Inv) : (n.step (.deliverXray secs now, ch)).Inv where
  caches := hn.caches
  published := hn.published
  xrayLt := hn.xrayLt
  singbox s hmem := hn.singbox s ((mem_sent hmem).resolve_right (by rintro ⟨⟩))
  xray s hmem u hu := by
    rcases mem_sent hmem with hmem | hsend
    · exact hn.xray s hmem u hu
    obtain ⟨-, rfl⟩ := Prod.mk.inj (Option.some.inj hsend)
    have h := xrayStat_users ch.sample ch.users n.agent.xrayPrev secs n.agent.xray hu
    exact ⟨h.1 ▸ UInt64.le_refl _, h.2 ▸ UInt64.le_refl _⟩

theorem inv_step (n : Node) (e : Ev × Choice) (hn : n.Inv) (hs : Steady n e) : (n.step e).Inv := by
  obtain ⟨e, ch⟩ := e
  cases e with
  | pollHysteria sample now =>
    cases sample with
    | none => exact inv_xray hn rfl rfl (append_nil _) hn.xrayLt fun _ => le_refl _
    | some sample => exact inv_pollHysteria hn hs
  | pollSingbox snapshot now =>
    cases snapshot with
    | none => exact inv_xray hn rfl rfl (append_nil _) hn.xrayLt fun _ => le_refl _
    | some snapshot => exact inv_pollSingbox hn hs
  | restart random => exact inv_restart hn hs
  | deliver now => exact inv_deliver hn hs
  | deliverXray secs now => exact inv_deliverXray hn
  | xrayStart =>
    refine inv_xray hn rfl rfl (append_nil _) (fun name => by simp [Node.step, Process.step]) ?_
    intro name
    simp [hs name]
  | xrayCount name value =>
    exact inv_xray hn rfl rfl (append_nil _) (count_lt hn.xrayLt name value) (le_count n.agent.xray name value)
  | setCounters | save | signal | openXray =>
    exact inv_xray hn rfl rfl (append_nil _) hn.xrayLt fun _ => le_refl _

theorem neverDrops_of_steady (n : Node) (e : Ev × Choice) (hn : n.Inv) (hs : Steady n e) : NeverDrops n e := by
  obtain ⟨e, ch⟩ := e
  intro k s hsend s' hsent _ u hu v hv huv
  cases e with
  | deliver now =>
    obtain ⟨rfl, rfl⟩ := Prod.mk.inj (some.inj hsend)
    have hold := hn.singbox s' hsent u hu
    have hnew := deliver_shows hn hs hv
    rw [le_iff_toNat_le, le_iff_toNat_le, hnew.1, hnew.2, ← huv]
    exact hold
  | deliverXray secs now =>
    obtain ⟨rfl, rfl⟩ := Prod.mk.inj (some.inj hsend)
    have hold := hn.xray s' hsent u hu
    have hnew := xrayStat_users ch.sample ch.users n.agent.xrayPrev secs n.agent.xray hv
    rw [hnew.1, hnew.2, ← huv]
    exact hold
  | _ => cases hsend

/-- In every run of steady steps the counters delivered on one stream under one epoch never fall. -/
theorem steady_run_never_drops (disk : Option Store) (random : Option (Fin 16 → UInt8))
    (es : List (Ev × Choice)) (h : Always Node.step Steady (Node.start disk random) es) :
    Always Node.step NeverDrops (Node.start disk random) es :=
  always_of_inv inv_step neverDrops_of_steady es _ (inv_start disk random) h

/-- A life with a restart: 10 bytes of `alice`, delivered, stored and saved, then 2 more. -/
def steadyLife : List (Ev × Choice) :=
  [(.pollSingbox (some ⟨10, 0, 1, [⟨"c1", "alice", 10, 0⟩]⟩) 0, default), (.deliver 0, default),
   (.setCounters, default), (.signal, default), (.restart none, default),
   (.pollSingbox (some ⟨2, 0, 1, [⟨"c2", "alice", 2, 0⟩]⟩) 0, default), (.deliver 0, default)]

theorem steadyLife_never_drops : Always Node.step NeverDrops (Node.start none none) steadyLife := by
  refine steady_run_never_drops none none steadyLife ?_
  refine ⟨⟨fun _ => ⟨by decide, by decide⟩, trivial⟩, ⟨Or.inr ?_, ?_⟩, trivial, trivial,
    ⟨rfl, fun _ => ⟨rfl, rfl⟩, fun k => ?_⟩, ⟨fun _ => ⟨by decide, by decide⟩, trivial⟩,
    ⟨Or.inr ?_, ?_⟩, trivial⟩
  · exact fun k hk => absurd hk not_mem_nil
  · exact fun k hk => absurd hk not_mem_nil
  · exact congrArg some (counters_setCounters _ _ k)
  · exact fun k hk => absurd hk not_mem_nil
  · exact fun k hk => absurd hk not_mem_nil

theorem not_neverDrops {e : Ev × Choice} {k : CoreKind} {s s' : StatSample} {u v : UserTraffic}
    (hsend : (n.agent.step e).2 = some (k, s)) (hsent : (k, s') ∈ n.sent) (hepoch : s'.epoch = s.epoch)
    (hu : u ∈ s'.users) (hv : v ∈ s.users) (huv : u.name = v.name) (hlt : v.up < u.up) : ¬ NeverDrops n e := by
  intro h
  have hle := (h k s hsend s' hsent hepoch u hu v hv huv).1
  rw [le_iff_toNat_le] at hle
  rw [lt_iff_toNat_lt] at hlt
  omega

/-- Hysteria traffic of `alice` around a graceful restart, and xray traffic of `bob` around a restart of xray. -/
def restarts : List (Ev × Choice) :=
  [(.pollHysteria (some (empty.set "alice" ⟨0, 5⟩)) 0, default), (.deliver 0, default),
   (.xrayCount "user>>>bob>>>traffic>>>uplink" 9, default), (.deliverXray 1 0, default),
   (.signal, default), (.restart none, default), (.xrayStart, default),
   (.pollHysteria (some (empty.set "alice" ⟨0, 1⟩)) 0, default),
   (.xrayCount "user>>>bob>>>traffic>>>uplink" 2, default)]

/-- Under one epoch `alice` goes from 5 to 1 and `bob` from 9 to 2. -/
theorem restarts_drop : ¬ NeverDrops (restarts.foldl Node.step (Node.start none none)) (.deliver 0, default) ∧
      ¬ NeverDrops (restarts.foldl Node.step (Node.start none none)) (.deliverXray 1 0, default) := by
  constructor
  · exact not_neverDrops (u := ⟨"alice", 5, 0⟩) (v := ⟨"alice", 1, 0⟩) rfl mem_cons_self rfl
      (by decide) (by decide) rfl (by decide)
  · exact not_neverDrops (u := ⟨"bob", 9, 0⟩) (v := ⟨"bob", 2, 0⟩) rfl
      (mem_cons_of_mem _ mem_cons_self) rfl (by decide) (by decide) rfl (by decide)

end Honey.Agent
