import Honey.Agent.Process
import Honey.Schemes.Run

/-! Concurrent calls on one managed core: pushes (`Apply` with a config), certificate reloads (`Apply`
    without one), `Start` and `Stop`, and exits of the process, in any interleaving. A step is a
    critical section of the process's mutex, a file write or a rename.

        Apply   candidate -- check -- read -- stop -- wait -- rename -- start
                                              + mutex +          + mutex +
        Apply ""                      check -- stop -- wait --------- start
        Start                                                         start
        Stop                                  stop -- wait

    Between its stop and its start another call may start the process on the old file; the `Apply` then finds it running
    and returns. A `Stop` that falls there is undone by the start. Both are ruled out if an `Apply` with a config
    overlaps with no other call that starts the process, and a `Stop` begins only when none is in progress. -/

namespace Honey.Agent
open Honey.Schemes Function CoreProcess Prod Option

inductive ProcCall where
  | start (config : String)
  | stop
  | apply (config : String)
  deriving DecidableEq, Repr

/-- The process and its mutex's fields. The runs of the process are numbered, and `born` is the time of
    the latest start. -/
structure Shared where
  proc : CoreProcess
  stopping : Bool
  exited : Option CoreProcess.Exit
  (run born clock : ℕ)
  deriving DecidableEq, Repr

/-- How the system calls of one step go. -/
structure SysCalls where
  fault : Option String
  launch : Launch
  restore : Option (String × Option String)

namespace Shared

/-- The critical section of `Start`. -/
def start (s : Shared) (l : Launch) (config : String) : Shared × Option String :=
  let (p, err) := s.proc.start l config
  if s.proc.loaded = none ∧ err = none then
    ({ s with proc := p, stopping := false, exited := none, run := s.run + 1, born := s.clock }, none)
  else ({ s with proc := p }, err)

/-- The critical section of `Stop`: the run to wait for, if there is one. -/
def stop (s : Shared) : Shared × Option ℕ :=
  if s.proc.loaded = none then ({ s with proc := s.proc.stop }, none)
  else ({ s with stopping := true }, some s.run)

/-- The channel of the run is closed: `reap` is through with it. -/
def reaped (s : Shared) (run : ℕ) : Bool := s.proc.loaded = none || s.run ≠ run

def tick (s : Shared) : Shared := { s with clock := s.clock + 1 }

/-- The critical section of `reap`. -/
def reap (s : Shared) : Shared :=
  match s.exited with
  | none => s
  | some x =>
    { s with proc := if s.stopping then s.proc.stop else s.proc.reap x, exited := none }

end Shared

/-- Where a call stands: what it does next. -/
inductive Pc where
  | start (config : String)
  | stop
  | stopWait (run : ℕ)
  | reload
  | reloadStop
  | reloadWait (run : ℕ)
  | reloadStart
  | candidate (config : String)
  | check (config : String)
  | read (config : String)
  | applyStop (config : String) (old : Option String)
  | applyWait (config : String) (old : Option String) (run : ℕ)
  | rename (config : String) (old : Option String)
  | reinstall (err : String)
  | install (config : String) (old : Option String) (placed : ℕ)
  | restore (old err : String)
  | restart (err : String)
  deriving DecidableEq, Repr

def ProcCall.entry : ProcCall → Pc
  | .start config => .start config
  | .stop => .stop
  | .apply config => if config = "" then .reload else .candidate config

/-- A step of a call leads to its next, or returns. -/
inductive Next where
  | goto (pc : Pc)
  | ret (err : Option String)
  deriving DecidableEq, Repr

def Pc.step (o : SysCalls) (s : Shared) : Pc → Shared × Next
  | .start config => ((s.start o.launch config).1, .ret (s.start o.launch config).2)
  | .stop => match s.stop with
    | (s, none) => (s, .ret none)
    | (s, some run) => (s, .goto (.stopWait run))
  | .stopWait run => (s, if s.reaped run then .ret none else .goto (.stopWait run))
  | .reload => match s.proc.check o.fault with
    | some e => (s, .ret (some e))
    | none => (s, .goto .reloadStop)
  | .reloadStop => match s.stop with
    | (s, none) => (s, .goto .reloadStart)
    | (s, some run) => (s, .goto (.reloadWait run))
  | .reloadWait run => (s, if s.reaped run then .goto .reloadStart else .goto (.reloadWait run))
  | .reloadStart => ((s.start o.launch "").1, .ret (s.start o.launch "").2)
  | .candidate config => match o.fault with
    | some e => (s, .ret (some e))
    | none => (s, .goto (.check config))
  | .check config => match s.proc.check o.fault with
    | some e => (s, .ret (some e))
    | none => (s, .goto (.read config))
  | .read config => match o.fault with
    | some e => (s, .ret (some ("read current " ++ s.proc.name ++ " config: " ++ e)))
    | none => (s, .goto (.applyStop config s.proc.config))
  | .applyStop config old => match s.stop with
    | (s, none) => (s, .goto (.rename config old))
    | (s, some run) => (s, .goto (.applyWait config old run))
  | .applyWait config old run =>
    (s, if s.reaped run then .goto (.rename config old) else .goto (.applyWait config old run))
  | .rename config old => match o.fault with
    | some e => (s, .goto (.reinstall ("install candidate " ++ s.proc.name ++ " config: " ++ e)))
    | none => ({ s with proc := { s.proc with config := some config } }, .goto (.install config old s.clock))
  | .reinstall err => ((s.start o.launch "").1, .ret (some err))
  | .install _ old _ => match s.start o.launch "" with
    | (s, none) => (s, .ret none)
    | (s, some e) => match old with
      | none => (s, .ret (some e))
      | some text => (s, .goto (.restore text e))
  | .restore old err => match o.restore with
    | some (e, left) => ({ s with proc := { s.proc with config := left } }, .ret (some
        ("apply new " ++ s.proc.name ++ " config: " ++ err ++ "; restore config: " ++ e)))
    | none => ({ s with proc := { s.proc with config := some old } }, .goto (.restart err))
  | .restart err => match s.start o.launch "" with
    | (s, some e) => (s, .ret (some
        ("apply new " ++ s.proc.name ++ " config: " ++ err ++ "; restart previous config: " ++ e)))
    | (s, none) => (s, .ret (some
        ("apply new " ++ s.proc.name ++ " config: " ++ err ++ "; previous config restored")))

/-! ### The machine -/

/-- The calls in progress, and the last one to begin. -/
structure Machine where
  shared : Shared
  calls : ℕ → Option Pc
  last : Option (ℕ × ProcCall)

inductive ProcEvent where
  | begin (id : ℕ) (call : ProcCall)
  | step (id : ℕ) (o : SysCalls)
  | exit (x : CoreProcess.Exit)
  | reap

namespace Machine

/-- What the process runs on, unless it has exited. -/
def runningOn (m : Machine) : Option (Option String) :=
  if m.shared.exited = none then m.shared.proc.loaded else none

def act (m : Machine) : ProcEvent → Machine
  | .begin id call =>
    if m.calls id = none then
      { m with calls := update m.calls id (some call.entry), last := some (id, call) }
    else m
  | .step id o => match m.calls id with
    | none => m
    | some pc => match pc.step o m.shared with
      | (s, .goto pc') => { m with shared := s, calls := update m.calls id (some pc') }
      | (s, .ret _) => { m with shared := s, calls := update m.calls id none }
  | .exit x =>
    if m.shared.proc.loaded ≠ none ∧ m.shared.exited = none then
      { m with shared := { m.shared with exited := some x } }
    else m
  | .reap => { m with shared := m.shared.reap }

/-- Every step takes time. -/
def step (m : Machine) (e : ProcEvent) : Machine := { m.act e with shared := (m.act e).shared.tick }

end Machine

/-- The call may start the process. -/
def Pc.starts : Pc → Bool
  | .stop | .stopWait _ => false
  | _ => true

/-- The call is an `Apply` with a config. -/
def Pc.swaps : Pc → Bool
  | .candidate _ | .check _ | .read _ | .applyStop _ _ | .applyWait _ _ _ | .rename _ _ | .reinstall _
  | .install _ _ _ | .restore _ _ | .restart _ => true
  | _ => false

/-- A call that starts the process does not overlap with an `Apply` with a config, and a `Stop` does
    not begin while one that starts the process is in progress. -/
def ProcEvent.Orderly (m : Machine) : ProcEvent → Prop
  | .begin _ (.start _) => ∀ id pc, m.calls id = some pc → pc.swaps = false
  | .begin _ .stop => ∀ id pc, m.calls id = some pc → pc.starts = false
  | .begin _ (.apply config) => ∀ id pc, m.calls id = some pc →
      if config = "" then pc.swaps = false else pc.starts = false
  | .step _ _ | .exit _ | .reap => True

/-- After the step: if it was the last one of an `Apply` with a config that returns nil, with no other call in progress,
    then the process that runs was started after the config was put in place, and runs on what is on disk; and if the
    last call to begin was a `Stop` and it has returned, no process runs. -/
structure ProcEvent.Settled (m : Machine) (e : ProcEvent) : Prop where
  applied : ∀ id o pc, e = .step id o → m.calls id = some pc → pc.swaps = true →
    (pc.step o m.shared).2 = .ret none → (∀ id', id' ≠ id → m.calls id' = none) →
    ∀ loaded, (m.step e).runningOn = some loaded → loaded = (m.step e).shared.proc.config ∧
        ∃ config old placed, pc = .install config old placed ∧ loaded = some config ∧ placed < (m.step e).shared.born
  stopped : ∀ id, (m.step e).last = some (id, .stop) → (m.step e).calls id = none → (m.step e).runningOn = none

/-! ### What a step can do -/

/-- Nothing was started and no file written since; the process may have ended. -/
structure Shared.Quieter (s s' : Shared) : Prop where
  loaded : s'.proc.loaded = s.proc.loaded ∨ s'.proc.loaded = none
  config : s'.proc.config = s.proc.config
  run : s'.run = s.run
  clock : s.clock ≤ s'.clock

/-- What is true of the process where an `Apply` stands. -/
def Pc.Fits (s : Shared) : Pc → Prop
  | .applyWait _ _ run => s.run = run
  | .rename _ _ => s.proc.loaded = none
  | .install config _ placed =>
    s.proc.loaded = none ∧ s.proc.config = some config ∧ placed < s.clock
  | _ => True

variable {s : Shared} {pc : Pc} {o : SysCalls}

theorem Shared.Quieter.fits {s' : Shared} (h : s.Quieter s') (hpc : pc.Fits s) : pc.Fits s' := by
  have hnone : s.proc.loaded = none → s'.proc.loaded = none := by
    intro hs
    rcases h.loaded with heq | heq
    · rw [heq, hs]
    · exact heq
  cases pc with
  | applyWait config old run => exact h.run.trans hpc
  | rename config old => exact hnone hpc
  | install config old placed =>
    exact ⟨hnone hpc.1, h.config.trans hpc.2.1, hpc.2.2.trans_le h.clock⟩
  | _ => trivial

theorem Shared.stop_cases (s : Shared) : (s.proc.loaded = none ∧ s.stop = ({ s with proc := s.proc.stop }, none)) ∨
      (s.proc.loaded ≠ none ∧ s.stop = ({ s with stopping := true }, some s.run)) := by
  by_cases h : s.proc.loaded = none
  · exact .inl ⟨h, if_pos h⟩
  · exact .inr ⟨h, if_neg h⟩

theorem Shared.quieter_stop (s : Shared) : s.Quieter s.stop.1 := by
  rcases s.stop_cases with ⟨h, hs⟩ | ⟨-, hs⟩
  · rw [hs]
    exact ⟨.inr rfl, rfl, rfl, le_rfl⟩
  · rw [hs]
    exact ⟨.inl rfl, rfl, rfl, le_rfl⟩

theorem CoreProcess.config_reap (x : CoreProcess.Exit) (p : CoreProcess) :
    (p.reap x).config = p.config ∧ (p.reap x).loaded = none := by
  cases hp : p.phase with
  | running pid c =>
    cases x with
    | clean | failed e => simp [reap, hp, loaded]
  | stopped | errored => simp [reap, hp, loaded]

theorem Shared.quieter_reap (s : Shared) : s.Quieter s.reap := by
  rw [reap]
  split
  · exact ⟨.inl rfl, rfl, rfl, le_rfl⟩
  rename_i x hx
  obtain ⟨hconfig, hloaded⟩ := s.proc.config_reap x
  cases s.stopping with
  | true => exact ⟨.inr rfl, rfl, rfl, le_rfl⟩
  | false => exact ⟨.inr hloaded, hconfig, rfl, le_rfl⟩

/-- A start of an idle process, from the file: it runs on the file, or fails. -/
theorem Shared.start_idle (h : s.proc.loaded = none) (l : Launch) : (∃ s' e, s.start l "" = (s', some e)) ∨
      ∃ s', s.start l "" = (s', none) ∧ s'.proc.loaded = some s.proc.config ∧
        s'.proc.config = s.proc.config ∧ s'.born = s.clock := by
  rw [start]
  rcases start_cases l h with ⟨-, e, hstart⟩ | ⟨-, pid, hstart⟩
  · simp only [hstart]
    exact .inl ⟨_, e, if_neg (by simp)⟩
  · simp only [hstart]
    rw [if_pos ⟨h, trivial⟩]
    exact .inr ⟨_, rfl, rfl, rfl, rfl⟩

theorem Pc.step_stop (hpc : pc.starts = false) (o : SysCalls) (s : Shared) : s.Quieter (pc.step o s).1 ∧
      ((∃ run, (pc.step o s).2 = .goto (.stopWait run) ∧ (pc = .stop → run = s.run) ∧
          (∀ r, pc = .stopWait r → run = r)) ∨
        (pc.step o s).2 = .ret none ∧ (pc = .stop → (pc.step o s).1.proc.loaded = none) ∧
          (∀ r, pc = .stopWait r → s.run = r → (pc.step o s).1.proc.loaded = none)) := by
  cases pc with
  | stop =>
    have hquiet := s.quieter_stop
    rw [Pc.step]
    rcases s.stop_cases with ⟨h, hs⟩ | ⟨-, hs⟩
    · rw [hs] at hquiet ⊢
      exact ⟨hquiet, .inr ⟨rfl, fun _ => rfl, fun r hr => by cases hr⟩⟩
    · rw [hs] at hquiet ⊢
      exact ⟨hquiet, .inl ⟨s.run, rfl, fun _ => rfl, fun r hr => by cases hr⟩⟩
  | stopWait run =>
    rw [Pc.step]
    refine ⟨⟨.inl rfl, rfl, rfl, le_rfl⟩, ?_⟩
    split
    · rename_i hreaped
      refine .inr ⟨rfl, fun h => (by cases h), fun r hr hrun => ?_⟩
      obtain rfl := Pc.stopWait.inj hr
      simpa [Shared.reaped, hrun] using hreaped
    · exact .inl ⟨run, rfl, fun h => (by cases h), fun r hr => Pc.stopWait.inj hr⟩
  | _ => cases hpc

/-- Where the call stands then, if it has not returned. -/
def Next.goesOn : Next → Option Pc
  | .goto pc => some pc
  | .ret _ => none

theorem Next.goesOn_eq_some {n : Next} : n.goesOn = some pc ↔ n = .goto pc := by
  cases n with
  | goto pc' | ret err => simp [Next.goesOn]

theorem Pc.step_kind {pc' : Pc} (h : (pc.step o s).2 = .goto pc') : pc'.starts = pc.starts ∧ pc'.swaps = pc.swaps := by
  cases pc <;> grind [Pc.step, Pc.starts, Pc.swaps]

theorem Pc.eq_install (hpc : pc.swaps = true) (h : (pc.step o s).2 = .ret none) :
    ∃ config old placed, pc = .install config old placed := by
  cases pc <;> grind [Pc.step, Pc.swaps]

theorem Pc.swaps_starts (h : pc.swaps = true) : pc.starts = true := by
  cases pc <;> first | rfl | cases h

/-- The steps of an `Apply` up to its start: the process is down when the file is put in place. -/
theorem Pc.step_fits {pc' : Pc} {s' : Shared} (hpc : pc.swaps = true) (hfits : pc.Fits s)
    (h : pc.step o s = (s', .goto pc')) : pc'.Fits s'.tick := by
  cases pc with
  | applyStop config old =>
    rw [Pc.step] at h
    rcases s.stop_cases with ⟨-, hs⟩ | ⟨-, hs⟩
    all_goals
      rw [hs] at h
      obtain ⟨rfl, hpc'⟩ := mk.inj h
      obtain rfl := Next.goto.inj hpc'
      rfl
  | applyWait config old run =>
    obtain ⟨rfl, hpc'⟩ := mk.inj h
    have hrun : s.run = run := hfits
    split at hpc'
    · rename_i hreaped
      obtain rfl := Next.goto.inj hpc'
      have hnone : s.proc.loaded = none := by simpa [Shared.reaped, hrun] using hreaped
      exact hnone
    · obtain rfl := Next.goto.inj hpc'
      exact hrun
  | rename config old =>
    rw [Pc.step] at h
    rcases hf : o.fault with _ | e
    · rw [hf] at h
      obtain ⟨rfl, hpc'⟩ := mk.inj h
      obtain rfl := Next.goto.inj hpc'
      exact ⟨hfits, rfl, Nat.lt_succ_self s.clock⟩
    · rw [hf] at h
      obtain ⟨-, hpc'⟩ := mk.inj h
      obtain rfl := Next.goto.inj hpc'
      trivial
  | _ => grind [Pc.step, Pc.swaps, Pc.Fits]

/-! ### Orderly runs -/

/-- No other call that starts the process is in progress with an `Apply` with a config, which finds
    the process as it left it; and from a `Stop` that is the last call to begin, nothing starts. -/
structure Machine.Inv (m : Machine) : Prop where
  alone : ∀ id pc, m.calls id = some pc → pc.swaps = true →
    ∀ id' pc', m.calls id' = some pc' → pc'.starts = true → id' = id
  fits : ∀ id pc, m.calls id = some pc → pc.swaps = true → pc.Fits m.shared
  quiet : ∀ id, m.last = some (id, .stop) → ∀ id' pc, m.calls id' = some pc → pc.starts = false
  waits : ∀ id run, m.last = some (id, .stop) → m.calls id = some (.stopWait run) → m.shared.run = run
  down : ∀ id, m.last = some (id, .stop) → m.calls id = none → m.shared.proc.loaded = none

namespace Machine

variable {m : Machine}

theorem Inv.of_quieter (h : m.Inv) {s : Shared} (hs : m.shared.Quieter s) : Inv { m with shared := s } where
  alone := h.alone
  fits id pc hpc hswaps := hs.fits (h.fits id pc hpc hswaps)
  quiet := h.quiet
  waits id run hlast hpc := hs.run.trans (h.waits id run hlast hpc)
  down id hlast hnone := by
    rcases hs.loaded with heq | heq
    · exact heq.trans (h.down id hlast hnone)
    · exact heq

theorem quieter_tick (s : Shared) : s.Quieter s.tick := ⟨.inl rfl, rfl, rfl, Nat.le_succ _⟩

variable {id : ℕ} {o : SysCalls} {pc : Pc}

theorem entry_kind {m : Machine} {call : ProcCall} (hok : ProcEvent.Orderly m (.begin id call)) :
    ∀ id' pc, m.calls id' = some pc →
      (call.entry.swaps = true → pc.starts = false) ∧ (call.entry.starts = true → pc.swaps = false) ∧
        (call = .stop → pc.starts = false) := by
  intro id' pc hpc
  have hno : ∀ {pc : Pc}, pc.starts = false → pc.swaps = false := by
    intro pc h
    by_contra hswaps
    rw [Pc.swaps_starts (by simpa using hswaps)] at h
    cases h
  cases call with
  | start config => exact ⟨fun h => (by cases h), fun _ => hok id' pc hpc, fun h => (by cases h)⟩
  | stop => exact ⟨fun h => (by cases h), fun h => (by cases h), fun _ => hok id' pc hpc⟩
  | apply config =>
    have hconfig := hok id' pc hpc
    rw [ProcCall.entry]
    split at hconfig
    · rename_i hempty
      rw [if_pos hempty]
      exact ⟨fun h => (by cases h), fun _ => hconfig, fun h => (by cases h)⟩
    · exact ⟨fun _ => hconfig, fun _ => hno hconfig, fun h => (by cases h)⟩

theorem entry_fits (s : Shared) (call : ProcCall) : call.entry.Fits s := by
  cases call with
  | start config => trivial
  | stop => trivial
  | apply config =>
    rw [ProcCall.entry]
    split <;> trivial

theorem Inv.begin (h : m.Inv) {call : ProcCall} (hok : ProcEvent.Orderly m (.begin id call)) :
    (m.act (.begin id call)).Inv := by
  rw [act]
  split
  · have hkind := entry_kind hok
    have hcall : ∀ {id' pc}, update m.calls id (some call.entry) id' = some pc →
        (id' = id ∧ pc = call.entry) ∨ (id' ≠ id ∧ m.calls id' = some pc) := by
      intro id' pc hpc
      rw [update_apply] at hpc
      split at hpc
      · rename_i heq
        exact .inl ⟨heq, (some.inj hpc).symm⟩
      · rename_i hne
        exact .inr ⟨hne, hpc⟩
    have hstop : ∀ {id'}, some (id, call) = some (id', ProcCall.stop) → id = id' ∧ call = .stop := by
      intro id' heq
      exact Prod.mk.inj (some.inj heq)
    constructor
    case alone =>
      intro id₁ pc₁ h₁ hswaps id₂ pc₂ h₂ hstarts
      rcases hcall h₁ with ⟨rfl, rfl⟩ | ⟨-, hold₁⟩
      · rcases hcall h₂ with ⟨rfl, -⟩ | ⟨-, hold₂⟩
        · rfl
        · rw [(hkind id₂ pc₂ hold₂).1 hswaps] at hstarts
          cases hstarts
      · rcases hcall h₂ with ⟨rfl, rfl⟩ | ⟨-, hold₂⟩
        · rw [(hkind id₁ pc₁ hold₁).2.1 hstarts] at hswaps
          cases hswaps
        · exact h.alone id₁ pc₁ hold₁ hswaps id₂ pc₂ hold₂ hstarts
    case fits =>
      intro id₁ pc₁ h₁ hswaps
      rcases hcall h₁ with ⟨rfl, rfl⟩ | ⟨-, hold₁⟩
      · exact entry_fits m.shared call
      · exact h.fits id₁ pc₁ hold₁ hswaps
    case quiet =>
      intro id₁ hlast id₂ pc₂ h₂
      obtain ⟨rfl, rfl⟩ := hstop hlast
      rcases hcall h₂ with ⟨rfl, rfl⟩ | ⟨-, hold₂⟩
      · rfl
      · exact (hkind id₂ pc₂ hold₂).2.2 rfl
    case waits =>
      intro id₁ run hlast h₁
      obtain ⟨rfl, rfl⟩ := hstop hlast
      rcases hcall h₁ with ⟨-, heq⟩ | ⟨hne, -⟩
      · cases heq
      · exact absurd rfl hne
    case down =>
      intro id₁ hlast hnone
      obtain ⟨rfl, rfl⟩ := hstop hlast
      simp only [update_self] at hnone
      cases hnone
  · exact h

section

variable (o : SysCalls) (hpc : m.calls id = some pc)
include hpc

theorem act_step : m.act (.step id o) =
    ⟨(pc.step o m.shared).1, update m.calls id (pc.step o m.shared).2.goesOn, m.last⟩ := by
  rw [act, hpc]
  rcases hstep : pc.step o m.shared with ⟨s, pc' | err⟩
  · simp [hstep, Next.goesOn]
  · simp [hstep, Next.goesOn]

theorem calls_act_step {id' : ℕ} {pc' : Pc} (h : (m.act (.step id o)).calls id' = some pc') :
    ∃ pc₀, m.calls id' = some pc₀ ∧ pc'.starts = pc₀.starts ∧ pc'.swaps = pc₀.swaps := by
  simp only [act_step o hpc, update_apply] at h
  split at h
  · rename_i heq
    exact ⟨pc, by rw [heq, hpc], Pc.step_kind (Next.goesOn_eq_some.mp h)⟩
  · exact ⟨pc', h, rfl, rfl⟩

theorem calls_act_step_ne {id' : ℕ} (hne : id' ≠ id) : (m.act (.step id o)).calls id' = m.calls id' := by
  rw [act_step o hpc]
  exact update_of_ne hne _ _

theorem act_step_self : (m.act (.step id o)).shared = (pc.step o m.shared).1 ∧
      (m.act (.step id o)).calls id = (pc.step o m.shared).2.goesOn := by
  rw [act_step o hpc]
  exact ⟨rfl, update_self _ _ _⟩

/-- While a `Stop` is the last call to begin, its own steps and those of others leave the run it waits
    for, and it returns when the process is down. -/
theorem stop_step (h : m.Inv) {id' : ℕ} (hlast : m.last = some (id', .stop)) :
    (∀ run, (m.act (.step id o)).calls id' = some (.stopWait run) → (m.act (.step id o)).shared.run = run) ∧
      ((m.act (.step id o)).calls id' = none → (m.act (.step id o)).shared.proc.loaded = none) := by
  have hstarts := h.quiet id' hlast id pc hpc
  obtain ⟨hquiet, hnext⟩ := Pc.step_stop hstarts o m.shared
  obtain ⟨hshared, hself⟩ := act_step_self o hpc
  rw [hshared]
  by_cases hid : id' = id
  · rw [hid, hself]
    have hwait : ∀ r, pc = .stopWait r → m.shared.run = r := by
      rintro r rfl
      exact h.waits id' r hlast (hid ▸ hpc)
    rcases hnext with ⟨run, hgoto, hstop, hwaits⟩ | ⟨hret, hstop, hwaits⟩
    · rw [hgoto]
      refine ⟨fun run' heq => ?_, fun heq => by cases heq⟩
      obtain rfl := Pc.stopWait.inj (some.inj heq)
      rw [hquiet.run]
      cases pc with
      | stop => exact (hstop rfl).symm
      | stopWait r => exact (hwait r rfl).trans (hwaits r rfl).symm
      | _ => cases hstarts
    · rw [hret]
      refine ⟨fun run' heq => (by cases heq), fun _ => ?_⟩
      cases pc with
      | stop => exact hstop rfl
      | stopWait r => exact hwaits r rfl (hwait r rfl)
      | _ => cases hstarts
  · rw [calls_act_step_ne o hpc hid]
    refine ⟨fun run hrun => hquiet.run.trans (h.waits id' run hlast hrun), fun hnone => ?_⟩
    rcases hquiet.loaded with heq | heq
    · exact heq.trans (h.down id' hlast hnone)
    · exact heq

theorem Inv.step_call (h : m.Inv) : (m.step (.step id o)).Inv := by
  have hlast : (m.act (.step id o)).last = m.last := by rw [act_step o hpc]
  obtain ⟨hshared, hself⟩ := act_step_self o hpc
  constructor
  case alone =>
    intro id₁ pc₁ h₁ hswaps id₂ pc₂ h₂ hs
    obtain ⟨pc₁', hold₁, -, hw₁⟩ := calls_act_step o hpc h₁
    obtain ⟨pc₂', hold₂, hs₂, -⟩ := calls_act_step o hpc h₂
    exact h.alone id₁ pc₁' hold₁ (hw₁ ▸ hswaps) id₂ pc₂' hold₂ (hs₂ ▸ hs)
  case fits =>
    intro id₁ pc₁ h₁ hswaps
    change pc₁.Fits (m.act (.step id o)).shared.tick
    change (m.act (.step id o)).calls id₁ = some pc₁ at h₁
    rw [hshared]
    by_cases hid : id₁ = id
    · -- its own step
      obtain ⟨pc₁', hold₁, -, hw₁⟩ := calls_act_step o hpc h₁
      rw [hid, hpc] at hold₁
      obtain rfl := some.inj hold₁
      rw [hid, hself] at h₁
      exact Pc.step_fits (hw₁ ▸ hswaps) (h.fits id pc hpc (hw₁ ▸ hswaps)) (Prod.ext rfl (Next.goesOn_eq_some.mp h₁))
    · -- another call's step: that call does not start the process
      rw [calls_act_step_ne o hpc hid] at h₁
      have hstarts : pc.starts = false := by
        by_contra hs
        exact hid (h.alone id₁ pc₁ h₁ hswaps id pc hpc (by simpa using hs)).symm
      have hquiet := (Pc.step_stop hstarts o m.shared).1
      exact (quieter_tick _).fits (hquiet.fits (h.fits id₁ pc₁ h₁ hswaps))
  case quiet =>
    intro id₁ hl id₂ pc₂ h₂
    obtain ⟨pc₂', hold₂, hs₂, -⟩ := calls_act_step o hpc h₂
    rw [hs₂]
    exact h.quiet id₁ (hlast ▸ hl) id₂ pc₂' hold₂
  case waits =>
    intro id₁ run hl h₁
    exact (stop_step o hpc h (hlast ▸ hl)).1 run h₁
  case down =>
    intro id₁ hl hnone
    exact (stop_step o hpc h (hlast ▸ hl)).2 hnone

end

theorem Inv.step (h : m.Inv) {e : ProcEvent} (hok : e.Orderly m) : (m.step e).Inv := by
  cases e with
  | begin id call => exact (h.begin hok).of_quieter (quieter_tick _)
  | step id o =>
    rcases hpc : m.calls id with _ | pc
    · have hact : m.act (.step id o) = m := by rw [act, hpc]
      rw [Machine.step, hact]
      exact h.of_quieter (quieter_tick _)
    · exact h.step_call o hpc
  | exit x =>
    rw [Machine.step, act]
    split
    · exact h.of_quieter ⟨.inl rfl, rfl, rfl, Nat.le_succ _⟩
    · exact h.of_quieter (quieter_tick _)
  | reap =>
    have hreap : (m.act .reap).Inv := h.of_quieter m.shared.quieter_reap
    exact hreap.of_quieter (quieter_tick _)

theorem runningOn_of_loaded (h : m.shared.proc.loaded = none) : m.runningOn = none := by
  rw [runningOn, h]
  split <;> rfl

theorem install_started {s : Shared} {config : String} {old : Option String} {placed : ℕ}
    (hfits : (Pc.install config old placed).Fits s) (hret : ((Pc.install config old placed).step o s).2 = .ret none) :
    ((Pc.install config old placed).step o s).1.proc.loaded = some (some config) ∧
      ((Pc.install config old placed).step o s).1.proc.config = some config ∧
      placed < ((Pc.install config old placed).step o s).1.born := by
  obtain ⟨hnone, hconfig, hplaced⟩ := hfits
  rw [Pc.step] at hret ⊢
  rcases s.start_idle hnone o.launch with ⟨s', e, hstart⟩ | ⟨s', hstart, hloaded, hfile, hborn⟩
  · rw [hstart] at hret
    cases old with
    | none => cases hret
    | some text => cases hret
  · rw [hstart]
    exact ⟨by rw [hloaded, hconfig], by rw [hfile, hconfig], by rw [hborn]; exact hplaced⟩

theorem Inv.settled (h : m.Inv) {e : ProcEvent} (hok : e.Orderly m) : e.Settled m where
  applied := by
    rintro id o pc rfl hpc hswaps hret - loaded hrunning
    obtain ⟨config, old, placed, rfl⟩ := Pc.eq_install hswaps hret
    obtain ⟨hloaded, hconfig, hborn⟩ := install_started (h.fits id _ hpc hswaps) hret
    rw [← (act_step_self o hpc).1] at hloaded hconfig hborn
    have hnew : loaded = some config := by
      rw [runningOn] at hrunning
      split at hrunning
      · exact some.inj (hrunning.symm.trans hloaded)
      · cases hrunning
    exact ⟨hnew.trans hconfig.symm, config, old, placed, rfl, hnew, hborn⟩
  stopped := by
    intro id hlast hnone
    exact runningOn_of_loaded ((h.step hok).down id hlast hnone)

/-- No call has begun. -/
def idle (p : CoreProcess) : Machine := ⟨⟨p, false, none, 0, 0, 0⟩, fun _ => none, none⟩

theorem inv_idle (p : CoreProcess) : (idle p).Inv where
  alone := by rintro id pc h; cases h
  fits := by rintro id pc h; cases h
  quiet := by rintro id h; cases h
  waits := by rintro id run h; cases h
  down := by rintro id h; cases h

/-- Whatever the process is at first, in every interleaving in which an `Apply` with a config overlaps
    with no other call that starts the process and a `Stop` begins only when none is in progress: an
    `Apply` that returns nil leaves the process on its config, and after a last `Stop` it is down. -/
theorem orderly_calls_settle (p : CoreProcess) (es : List ProcEvent)
    (hrun : Always Machine.step ProcEvent.Orderly (idle p) es) : Always Machine.step ProcEvent.Settled (idle p) es :=
  always_of_inv (fun _ _ h hok => h.step hok) (fun _ _ h hok => h.settled hok) es _ (inv_idle p) hrun

end Machine

/-- All system calls succeed. -/
def smoothCalls : SysCalls := ⟨none, ⟨none, none, .ok 9⟩, none⟩

/-- A push begins while a stop waits for the core to exit. -/
def stopThenPush : List ProcEvent :=
  [.begin 1 .stop, .step 1 smoothCalls, .begin 2 (.apply "new"), .step 2 smoothCalls, .step 2 smoothCalls, .exit .clean,
    .step 2 smoothCalls, .reap, .step 2 smoothCalls, .step 1 smoothCalls, .step 2 smoothCalls, .step 2 smoothCalls]

theorem push_settles : Always Machine.step ProcEvent.Settled (Machine.idle busyProcess) stopThenPush := by
  refine Machine.orderly_calls_settle busyProcess _ ⟨?_, trivial, ?_, trivial, trivial, trivial, trivial, trivial,
    trivial, trivial, trivial, trivial, trivial⟩
  · intro id pc h
    cases h
  · intro id pc h
    match id with
    | 0 => cases h
    | 1 =>
      obtain rfl := Option.some.inj h
      rfl
    | n + 2 => cases h

/-- A push and a reload stop the running core; the reload starts it again before the push renames its file. -/
def crossedCalls : List ProcEvent :=
  [.begin 1 (.apply "new"), .begin 2 (.apply ""), .step 2 smoothCalls, .step 1 smoothCalls,
    .step 1 smoothCalls, .step 1 smoothCalls, .step 1 smoothCalls, .step 2 smoothCalls, .exit .clean,
    .reap, .step 1 smoothCalls, .step 2 smoothCalls, .step 2 smoothCalls, .step 1 smoothCalls]

/-- The push finds the core running, and returns nil: the core runs on the old file. -/
theorem push_lost : ¬ Always Machine.step ProcEvent.Settled (Machine.idle busyProcess)
    (crossedCalls ++ [.step 1 smoothCalls]) := by
  intro h
  have hlast := ((always_append _ _ _).mp h).2.1
  have hold := (hlast.applied 1 smoothCalls (.install "new" (some "old") 13) rfl (by decide) rfl
    (by decide) ?_ (some "old") (by decide)).1
  · exact absurd hold (by decide)
  intro id hid
  match id with
  | 0 => rfl
  | 1 => exact absurd rfl hid
  | 2 => rfl
  | n + 3 => rfl

end Honey.Agent
