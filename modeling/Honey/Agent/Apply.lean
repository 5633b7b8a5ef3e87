import Honey.Agent.Planes
import Honey.Agent.Process
import Honey.Agent.Users

/-! `Apply` of the agent (`grpcserver/server.go`): one call of the master brings a whole node to a spec.

        planes -- ACME candidate -- build, validate -- ACME certificates -- build, validate
           |                                 |                                   |
           |              an error so far leaves the cores alone ----------------+
           v
        stop the cores without inbounds -- swap the config of the others -- reply
             marker, stop                    swap, marker
                                             +-- error: start the stopped ones again

    The planes are synced before anything is checked and nothing takes them back; a core that was swapped
    before the failing one keeps its new config. So a call that fails leaves the node as it was only in
    the cases of `Traceless`. -/

namespace Honey.Agent
open Honey.Master Honey.Schemes List Function

/-! ### The call -/

/-- `sort.Strings` of the keys of `s.cores`. -/
def kinds : List ServerCore := [.hysteria, .singbox, .xray]

def ServerCore.key : ServerCore → String
  | .hysteria => "hysteria"
  | .singbox => "singbox"
  | .xray => "xray"

/-- The core of an inbound of the spec. -/
def serverOf (ib : SpecInbound) : ServerCore := coreOfInbound ib.type ib.core

/-- The ACME manager with the answers it gives in this call: it may rewrite settings of an inbound but
    moves none to another core. -/
structure Acme where
  (prepare activate : NodeSpec → Except String NodeSpec)
  prepare_servers : ∀ s s', prepare s = .ok s' → s'.inbounds.map serverOf = s.inbounds.map serverOf
  activate_servers : ∀ s s', activate s = .ok s' → s'.inbounds.map serverOf = s.inbounds.map serverOf

/-- The fixed parts of the agent. -/
structure Server where
  tools : Tools
  sha : String → String
  buildConfig : ServerCore → NodeSpec → Except String String
  buildConfig_ne : ∀ k spec cfg, spec.inbounds ≠ [] → buildConfig k spec = .ok cfg → cfg ≠ ""

/-- How everything outside answers in one call. `check` is `Validate` of the managers, before and after
    the certificates are in place. -/
structure Outcomes where
  planes : PlaneOutcomes
  acme : Option Acme
  check : Bool → ServerCore → String → Option String
  inactive : ServerCore → Writing
  swap : ServerCore → Swap
  active : ServerCore → Writing
  relaunch : ServerCore → Launch
  reactive : ServerCore → Writing

/-- Where in the call a core may exit on its own. -/
inductive Point where
  | stop (k : ServerCore)
  | apply (k : ServerCore)
  | mark (k : ServerCore)
  | settle
  | reply
  deriving DecidableEq, Repr

abbrev Exits := Point → ServerCore → Option CoreProcess.Exit

/-- No core exits on its own. -/
def noExits : Exits := fun _ _ => none

abbrev CoreMap := ServerCore → Core

/-- The cores that exit at one point. -/
def reapAt (x : ServerCore → Option CoreProcess.Exit) (cs : CoreMap) : CoreMap :=
  fun k => { cs k with proc := (cs k).proc.reapIf (x k) }

/-! ### The candidate -/

/-- The part of a spec that is for one core. -/
def coreSpec (spec : NodeSpec) (k : ServerCore) : NodeSpec :=
  { spec with inbounds := spec.inbounds.filter fun ib => serverOf ib = k }

variable (srv : Server)

/-- The loop body of `validateCandidate`: the config of one core, none if it has no inbounds. -/
def candidate (check : ServerCore → String → Option String) (spec : NodeSpec)
    (k : ServerCore) : Except String (ServerCore × Option String) :=
  if (coreSpec spec k).inbounds = [] then .ok (k, none)
  else
    match srv.buildConfig k (coreSpec spec k) with
    | .error e => .error ("build " ++ k.key ++ " config: " ++ e)
    | .ok cfg =>
      match check k cfg with
      | some e => .error ("validate " ++ k.key ++ " config: " ++ e)
      | none => .ok (k, some cfg)

def validateCandidate (check : ServerCore → String → Option String) (spec : NodeSpec) :
    Except String (List (ServerCore × Option String)) :=
  kinds.mapM (candidate srv check spec)

variable (o : Outcomes)

def Outcomes.prepareACME (issue : Bool) (spec : NodeSpec) : Except String NodeSpec :=
  match o.acme with
  | none => .ok spec
  | some a => if issue then a.activate spec else a.prepare spec

/-- Everything of `Apply` before the cores are touched: what every core shall run on. The certificates
    are issued after a first build has passed, and the build is done again. -/
def plan (spec : NodeSpec) : Except String (List (ServerCore × Option String)) := do
  let spec ← withPrefix "prepare ACME candidate: " (o.prepareACME false spec)
  let configs ← validateCandidate srv (o.check false) spec
  if o.acme.isSome then
    let spec ← withPrefix "activate ACME certificate: " (o.prepareACME true spec)
    validateCandidate srv (o.check true) spec
  else return configs

/-- The cores without inbounds. -/
def unwanted (configs : List (ServerCore × Option String)) : List ServerCore :=
  (configs.filter (·.2.isNone)).map Prod.fst

/-- The cores with inbounds and the config of each. -/
def wanted (configs : List (ServerCore × Option String)) : List (ServerCore × String) :=
  configs.filterMap fun x => x.2.map (x.1, ·)

/-! ### The cores -/

/-- The first loop. -/
def stopLoop (o : Outcomes) (x : Exits) : List ServerCore → CoreMap → List ServerCore →
    Except (CoreMap × String) (CoreMap × List ServerCore)
  | [], cs, stopped => .ok (cs, stopped)
  | k :: ks, cs, stopped =>
    let cs := reapAt (x (.stop k)) cs
    let c := cs k
    match c.markInactive (o.inactive k) with
    | (c', some e) => .error (update cs k c', "mark " ++ k.key ++ " inactive: " ++ e)
    | (c', none) =>
      stopLoop o x ks (update cs k { c' with proc := c'.proc.stop })
        (if c.proc.loaded.isSome then stopped ++ [k] else stopped)

/-- `Start("")` of the cores that were stopped; the errors. -/
def restart (o : Outcomes) : List ServerCore → CoreMap → CoreMap × List String
  | [], cs => (cs, [])
  | k :: ks, cs =>
    let (p, err) := (cs k).proc.start (o.relaunch k) ""
    let (cs, errs) := restart o ks (update cs k { cs k with proc := p })
    (cs, err.toList ++ errs)

/-- The markers of the cores without inbounds that run again. -/
def remark (sha : String → String) (o : Outcomes) : List ServerCore → CoreMap → CoreMap
  | [], cs => cs
  | k :: ks, cs =>
    remark sha o ks (if (cs k).proc.loaded.isSome then update cs k ((cs k).markActive sha (o.reactive k)).1
       else cs)

/-- The second loop. -/
def applyLoop (sha : String → String) (o : Outcomes) (x : Exits) (idle stopped : List ServerCore) :
    List (ServerCore × String) → CoreMap → Except (CoreMap × String) CoreMap
  | [], cs => .ok cs
  | (k, cfg) :: rest, cs =>
    let cs := reapAt (x (.apply k)) cs
    match (cs k).proc.apply (o.swap k) cfg with
    | (p, some e) =>
      let (cs, errs) := restart o stopped (update cs k { cs k with proc := p })
      let e := if errs = [] then e else e ++ "; restore previous cores: " ++ "; ".intercalate errs
      .error (remark sha o idle cs, "apply " ++ k.key ++ " config: " ++ e)
    | (p, none) =>
      let cs := reapAt (x (.mark k)) (update cs k { cs k with proc := p })
      match (cs k).markActive sha (o.active k) with
      | (c, some e) => .error (update cs k c, "mark " ++ k.key ++ " active: " ++ e)
      | (c, none) => applyLoop sha o x idle stopped rest (update cs k c)

/-- The third loop. -/
def settleLoop (sha : String → String) (o : Outcomes) : List ServerCore → CoreMap → Except (CoreMap × String) CoreMap
  | [], cs => .ok cs
  | k :: ks, cs =>
    if (cs k).proc.loaded.isSome then
      match (cs k).markActive sha (o.reactive k) with
      | (c, some e) => .error (update cs k c, "mark " ++ k.key ++ " active: " ++ e)
      | (c, none) => settleLoop sha o ks (update cs k c)
    else settleLoop sha o ks cs

/-- The three loops. -/
def applyCores (x : Exits) (configs : List (ServerCore × Option String))
    (cs : CoreMap) : Except (CoreMap × String) CoreMap := do
  let (cs, stopped) ← stopLoop o x (unwanted configs) cs []
  let cs ← applyLoop srv.sha o x (unwanted configs) stopped (wanted configs) cs
  settleLoop srv.sha o (unwanted configs) (reapAt (x .settle) cs)

/-! ### The reply -/

inductive ProtoState where | stopped | running | errored
  deriving DecidableEq, Repr

structure CoreStatus where
  state : ProtoState
  pid : ℕ
  message : String
  deriving DecidableEq, Repr

variable (cs : CoreMap)

/-- The loop body of `aggregateStatus`: the state, the first PID and the parts of the message. -/
def tally (acc : ProtoState × ℕ × List String) (k : ServerCore) : ProtoState × ℕ × List String :=
  match (cs k).proc.phase with
  | .running pid _ =>
    (.running, if acc.2.1 = 0 then pid else acc.2.1, acc.2.2 ++ [k.key ++ "=running"])
  | .errored => (if acc.1 = .running then .running else .errored, acc.2.1, acc.2.2 ++ [k.key ++ "=errored"])
  | .stopped => (acc.1, acc.2.1, acc.2.2 ++ [k.key ++ "=stopped"])

def aggregateStatus (err : Option String) : CoreStatus :=
  let (state, pid, parts) := kinds.foldl (tally cs) (.stopped, 0, [])
  match err with
  | none => ⟨state, pid, " ".intercalate parts⟩
  | some e => ⟨.errored, pid, e⟩

structure AgentState where
  planes : Planes
  cores : CoreMap

/-- The planes and cores after a call, and the error if there was one. -/
def applySpec (x : Exits) (spec : NodeSpec) (a : AgentState) : CoreMap × Option String :=
  match plan srv o spec with
  | .error e => (a.cores, some e)
  | .ok configs =>
    match applyCores srv o x configs a.cores with
    | .error (cs, e) => (cs, some e)
    | .ok cs => (cs, none)

def apply (x : Exits) (spec : NodeSpec) (a : AgentState) : AgentState × CoreStatus :=
  let (cs, err) := applySpec srv o x spec a
  let cs := reapAt (x .reply) cs
  (⟨a.planes.sync srv.tools o.planes spec, cs⟩, aggregateStatus cs err)

/-- `ensure_apply_success` of the master. -/
def ensureApplySuccess (status : CoreStatus) : Except String CoreStatus :=
  if status.state = .errored then
    .error ("agent apply failed: " ++
      if status.message = "" then "agent reported an errored core" else status.message)
  else .ok status

/-! ### The candidate that passes -/

section

variable {srv : Server} {o : Outcomes} {spec : NodeSpec} {configs : List (ServerCore × Option String)}

/-- The spec with its certificates in place. -/
def Outcomes.finalSpec (o : Outcomes) (spec : NodeSpec) : Except String NodeSpec := do
  o.prepareACME true (← o.prepareACME false spec)

theorem prepareACME_servers {issue : Bool} {spec' : NodeSpec} (h : o.prepareACME issue spec = .ok spec') :
    spec'.inbounds.map serverOf = spec.inbounds.map serverOf := by
  rw [Outcomes.prepareACME] at h
  split at h
  · rw [← Except.ok.inj h]
  rename_i a _
  cases issue with
  | true => exact a.activate_servers _ _ h
  | false => exact a.prepare_servers _ _ h

theorem finalSpec_servers {spec' : NodeSpec} (h : o.finalSpec spec = .ok spec') :
    spec'.inbounds.map serverOf = spec.inbounds.map serverOf := by
  obtain ⟨mid, hmid, hfinal⟩ := bind_eq_ok.mp h
  exact (prepareACME_servers hfinal).trans (prepareACME_servers hmid)

theorem coreSpec_eq_nil_iff {spec' : NodeSpec} (h : o.finalSpec spec = .ok spec') (k : ServerCore) :
    (coreSpec spec' k).inbounds = [] ↔ ∀ ib ∈ spec.inbounds, serverOf ib ≠ k := by
  have hmap : ∀ s : NodeSpec, (coreSpec s k).inbounds = [] ↔ k ∉ s.inbounds.map serverOf := by
    simp [coreSpec]
  rw [hmap, finalSpec_servers h, mem_map]
  push Not
  rfl

theorem plan_ok (h : plan srv o spec = .ok configs) : ∃ spec' check, o.finalSpec spec = .ok spec' ∧
    validateCandidate srv check spec' = .ok configs := by
  obtain ⟨mid, hmid, h⟩ := bind_eq_ok.mp h
  obtain ⟨first, hfirst, h⟩ := bind_eq_ok.mp h
  rw [withPrefix_eq_ok] at hmid
  split at h
  · obtain ⟨final, hfinal, h⟩ := bind_eq_ok.mp h
    rw [withPrefix_eq_ok] at hfinal
    exact ⟨final, _, bind_eq_ok.mpr ⟨mid, hmid, hfinal⟩, h⟩
  · rename_i hacme
    refine ⟨mid, _, bind_eq_ok.mpr ⟨mid, hmid, ?_⟩, (Except.ok.inj h) ▸ hfirst⟩
    rw [Outcomes.prepareACME, Option.not_isSome_iff_eq_none.mp hacme]

theorem candidate_ok {check : ServerCore → String → Option String} {k : ServerCore}
    {x : ServerCore × Option String} (h : candidate srv check spec k = .ok x) : x.1 = k ∧
    (x.2 = none ↔ (coreSpec spec k).inbounds = []) ∧
    ∀ cfg, x.2 = some cfg → srv.buildConfig k (coreSpec spec k) = .ok cfg := by
  rw [candidate] at h
  split at h
  · rename_i hnil
    rw [← Except.ok.inj h]
    exact ⟨rfl, by simp [hnil], nofun⟩
  rename_i hnil
  split at h
  · cases h
  rename_i hbuild
  split at h
  · cases h
  · rw [← Except.ok.inj h]
    exact ⟨rfl, by simp [hnil], fun cfg' hcfg => Option.some.inj hcfg ▸ hbuild⟩

theorem plan_keys (h : plan srv o spec = .ok configs) : configs.map Prod.fst = kinds := by
  obtain ⟨spec', check, -, hval⟩ := plan_ok h
  have hkeys := mapM_keeps (p := id) (fun k x hx => (candidate_ok hx).1) hval
  rwa [map_id] at hkeys

theorem mem_kinds (k : ServerCore) : k ∈ kinds := by
  cases k with
  | hysteria | singbox | xray => decide

/-- What the candidate has for a core: nothing if it has no inbounds, else the config built for it. -/
theorem plan_mem (h : plan srv o spec = .ok configs) : ∃ spec', o.finalSpec spec = .ok spec' ∧
    ∀ x ∈ configs, (x.2 = none ↔ ∀ ib ∈ spec.inbounds, serverOf ib ≠ x.1) ∧
      ∀ cfg, x.2 = some cfg → srv.buildConfig x.1 (coreSpec spec' x.1) = .ok cfg ∧ cfg ≠ "" := by
  obtain ⟨spec', check, hfinal, hval⟩ := plan_ok h
  refine ⟨spec', hfinal, fun x hx => ?_⟩
  obtain ⟨k, -, hcand⟩ := mapM_mem hval x hx
  obtain ⟨rfl, hnone, hsome⟩ := candidate_ok hcand
  refine ⟨hnone.trans (coreSpec_eq_nil_iff hfinal x.1), fun cfg hcfg => ⟨hsome cfg hcfg, ?_⟩⟩
  refine srv.buildConfig_ne x.1 _ cfg (fun hnil => ?_) (hsome cfg hcfg)
  rw [hnone.mpr hnil] at hcfg
  cases hcfg

end

/-! ### The cores with and without inbounds -/

section

variable {configs : List (ServerCore × Option String)}

theorem mem_unwanted {k : ServerCore} : k ∈ unwanted configs ↔ (k, none) ∈ configs := by
  simp [unwanted]

theorem mem_wanted {k : ServerCore} {cfg : String} : (k, cfg) ∈ wanted configs ↔ (k, some cfg) ∈ configs := by
  simp only [wanted, mem_filterMap]
  constructor
  · rintro ⟨⟨k', c⟩, hmem, h⟩
    obtain ⟨cfg', rfl, hpair⟩ := Option.map_eq_some_iff.mp h
    obtain ⟨rfl, rfl⟩ := Prod.mk.inj hpair
    exact hmem
  · intro h
    exact ⟨(k, some cfg), h, rfl⟩

theorem plan_ready {srv : Server} {o : Outcomes} {spec : NodeSpec} (h : plan srv o spec = .ok configs) :
    (configs.map Prod.fst).Nodup ∧ ∀ w ∈ wanted configs, w.2 ≠ "" := by
  obtain ⟨spec', -, hmem⟩ := plan_mem h
  refine ⟨?_, fun w hw => ((hmem _ (mem_wanted.mp hw)).2 w.2 rfl).2⟩
  rw [plan_keys h]
  decide

theorem wanted_keys : ∀ configs : List (ServerCore × Option String),
    (wanted configs).map Prod.fst = (configs.filter (·.2.isSome)).map Prod.fst
  | [] => rfl
  | (_, none) :: configs => wanted_keys configs
  | (_, some _) :: configs => congrArg _ (wanted_keys configs)

theorem nodup_unwanted (h : (configs.map Prod.fst).Nodup) : (unwanted configs).Nodup :=
  (filter_sublist.map Prod.fst).nodup h

theorem nodup_wanted (h : (configs.map Prod.fst).Nodup) : ((wanted configs).map Prod.fst).Nodup := by
  rw [wanted_keys]
  exact (filter_sublist.map Prod.fst).nodup h

theorem not_mem_unwanted (h : (configs.map Prod.fst).Nodup) {x : ServerCore × String}
    (hx : x ∈ wanted configs) : x.1 ∉ unwanted configs := by
  intro hk
  have hpair := inj_on_of_nodup_map h (mem_wanted.mp hx) (mem_unwanted.mp hk) rfl
  cases hpair

end

/-! ### The steps of the loops -/

/-- The marker that a write leaves if it fails. -/
def Writing.left (w : Writing) (m : Option Marker) : Option Marker :=
  match w with
  | .lost _ => none
  | _ => m

theorem Core.writeRecoveryState_failed {w : Writing} (h : w ≠ .written) (m : Marker) (c : Core) :
    ∃ e, c.writeRecoveryState w m = ({ c with marker := w.left c.marker }, some e) := by
  cases w with
  | written => exact absurd rfl h
  | refused e | lost e => exact ⟨e, rfl⟩

/-- The swap of a core succeeds. -/
def Swaps (x : ServerCore × String) : Prop :=
  (o.swap x.1).refuses (cs x.1).proc.checks = false

/-- A core is swapped and marked. -/
def GoesThrough (x : ServerCore × String) : Prop :=
  Swaps o cs x ∧ o.active x.1 = .written

/-- Every step of the loops succeeds. -/
def Passes (configs : List (ServerCore × Option String)) (cs : CoreMap) : Prop :=
  (∀ k ∈ unwanted configs, o.inactive k = .written) ∧ ∀ w ∈ wanted configs, GoesThrough o cs w

/-- Every step of the call succeeds, but for the planes. -/
def Succeeds (spec : NodeSpec) (a : AgentState) : Prop :=
  ∃ configs, plan srv o spec = .ok configs ∧ Passes o configs a.cores

/-! ### The summary -/

theorem forall_core {P : ServerCore → Prop} : (∀ k, P k) ↔ P .hysteria ∧ P .singbox ∧ P .xray := by
  constructor
  · intro h
    exact ⟨h _, h _, h _⟩
  · rintro ⟨hh, hs, hx⟩ k
    cases k with
    | hysteria => exact hh
    | singbox => exact hs
    | xray => exact hx

theorem exists_core {P : ServerCore → Prop} : (∃ k, P k) ↔ P .hysteria ∨ P .singbox ∨ P .xray := by
  constructor
  · rintro ⟨k, hk⟩
    cases k with
    | hysteria => exact .inl hk
    | singbox => exact .inr (.inl hk)
    | xray => exact .inr (.inr hk)
  · rintro (h | h | h)
    · exact ⟨_, h⟩
    · exact ⟨_, h⟩
    · exact ⟨_, h⟩

/-- Without an error the summary is errored exactly if no core runs and one is errored. -/
theorem aggregateStatus_errored_iff : (aggregateStatus cs none).state = .errored ↔
    (∀ k, (cs k).proc.loaded = none) ∧ ∃ k, (cs k).proc.phase = .errored := by
  rw [forall_core, exists_core]
  simp only [aggregateStatus, kinds, foldl_cons, tally, CoreProcess.loaded]
  rcases (cs .hysteria).proc.phase with _ | ⟨p₁, c₁⟩ | _ <;>
    rcases (cs .singbox).proc.phase with _ | ⟨p₂, c₂⟩ | _ <;>
    rcases (cs .xray).proc.phase with _ | ⟨p₃, c₃⟩ | _ <;> simp

/-- The master takes every state but errored for success. -/
theorem ensureApplySuccess_ok_iff (status : CoreStatus) :
    (∃ s, ensureApplySuccess status = .ok s) ↔ status.state ≠ .errored := by
  rw [ensureApplySuccess]
  split
  · rename_i h
    simp [h]
  · rename_i h
    simp [h]

/-! ### Sequences of calls -/

/-- A call of the master, with how everything goes in it. -/
structure Call where
  spec : NodeSpec
  outcomes : Outcomes
  exits : Exits

def step (a : AgentState) (c : Call) : AgentState :=
  (apply srv c.outcomes c.exits c.spec a).1

/-- The commands of the planes all succeed, and the spec is steady on the planes. -/
def SteadyCall (a : AgentState) (c : Call) : Prop :=
  c.outcomes.planes = allUp ∧ a.planes.Steady srv.tools c.spec

/-- In a run of steady calls the planes are those of the last spec after every call. -/
theorem steady_calls_exact (srv : Server) (a : AgentState) (hbal : Wg.Balanced srv.tools a.planes.wg)
    (calls : List Call) (h : Always (step srv) (SteadyCall srv) a calls) :
    Always (step srv) (fun a c => (step srv a c).planes.Exact srv.tools c.spec) a calls := by
  have hexact : ∀ a c, Wg.Balanced srv.tools a.planes.wg → SteadyCall srv a c →
      (step srv a c).planes.Exact srv.tools c.spec := by
    rintro a c hbal ⟨hup, hsteady⟩
    have hplanes : (step srv a c).planes = a.planes.sync srv.tools allUp c.spec := by
      rw [← hup]
      rfl
    rw [hplanes]
    exact Planes.exact_sync hbal hsteady
  exact always_of_inv (fun a c hbal hc => (hexact a c hbal hc).nat) hexact calls a hbal h

/-! ### A node -/

/-- Every core builds a config that is just its name. -/
def plainServer : Server where
  tools := ⟨fun _ => .null, fun _ => none, id⟩
  sha := id
  buildConfig k _ := .ok k.key
  buildConfig_ne k _ cfg _ h := by
    rw [← Except.ok.inj h]
    cases k with
    | hysteria | singbox | xray => decide

/-- Everything succeeds. -/
def smooth : Outcomes where
  planes := allUp
  acme := none
  check _ _ _ := none
  inactive _ := .written
  swap _ := ⟨none, none, none, none, ⟨none, none, .ok 7⟩, none, ⟨none, none, .ok 8⟩⟩
  active _ := .written
  relaunch _ := ⟨none, none, .ok 9⟩
  reactive _ := .written

/-- Nothing has ever been applied. -/
def freshAgent : AgentState where
  planes := ⟨[], ⟨fun _ => none, Table.empty, []⟩, Table.empty⟩
  cores k := ⟨⟨k.key, k.key ++ ".json", k ≠ .hysteria, .stopped, "", none⟩, none⟩

def emptySpec : NodeSpec := ⟨"info", "", "", [], [], []⟩

/-- One WireGuard interface. -/
def officeSpec (peers : List WireguardPeer) : NodeSpec :=
  { emptySpec with wireguard := [⟨"Office", 51820, "key", "10.7.0.1/24", 0, false, "", peers⟩] }

/-- An interface that gets a peer: the second spec is steady on what the first one left. -/
theorem office_peer_exact : Always (step plainServer)
      (fun a c => (step plainServer a c).planes.Exact plainServer.tools c.spec) freshAgent
      [⟨officeSpec [], smooth, noExits⟩, ⟨officeSpec [⟨"pub", "10.7.0.2/32"⟩], smooth, noExits⟩] := by
  refine steady_calls_exact plainServer freshAgent (.refl _) _ ⟨⟨rfl, ?_⟩, ⟨rfl, ?_⟩, trivial⟩
  · exact ⟨by decide, by decide, by decide, by decide, by decide⟩
  · exact ⟨by decide, by decide, by decide, by decide, by decide⟩

/-- An interface that a spec leaves out stays up, and so does its rule. -/
theorem dropped_interface_stays :
    (∃ s, ensureApplySuccess (apply plainServer smooth noExits (officeSpec []) freshAgent).2 = .ok s) ∧
    (∃ s, ensureApplySuccess (apply plainServer smooth noExits emptySpec
      (apply plainServer smooth noExits (officeSpec []) freshAgent).1).2 = .ok s) ∧
    ¬ (apply plainServer smooth noExits emptySpec
      (apply plainServer smooth noExits (officeSpec []) freshAgent).1).1.planes.Exact plainServer.tools emptySpec := by
  refine ⟨⟨_, rfl⟩, ⟨_, rfl⟩, fun h => ?_⟩
  have hlen := h.live.length_eq
  revert hlen
  decide

end Honey.Agent
