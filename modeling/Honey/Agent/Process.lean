import Mathlib

/-! One managed core: its process and config file (`core/process.go`) and its recovery marker (`core/recovery.go`).

        Start   stopped, errored -- check -- exec --> running on the file
        Stop    running --> stopped
        reap    running --> stopped (exit 0), errored
        Apply   candidate -- check -- read -- stop -- rename -- start --> running on the new file
                                                        +-- old file back -- start

    Every system call may fail; how the calls go is an argument of each function. A swap that fails
    brings the core back only in the cases of `Swap.Returns`. -/

namespace Honey.Agent
open Bool

/-! ### The process -/

/-- `core.State`; a running process has a PID and what the config file held when it was started. -/
inductive Phase where
  | stopped
  | running (pid : ℕ) (loaded : Option String)
  | errored
  deriving DecidableEq, Repr

structure CoreProcess where
  (name path : String)
  /-- The binary can check a config; the Hysteria server cannot. -/
  checks : Bool
  phase : Phase
  lastErr : String
  /-- The file at `path`. -/
  config : Option String
  deriving DecidableEq, Repr

/-- How the calls of `Start` go; a write that fails leaves the file in some state. -/
structure Launch where
  write : Option (String × Option String)
  check : Option String
  exec : Except String ℕ

namespace CoreProcess

/-- What the process is running on, if it is running. -/
def loaded (p : CoreProcess) : Option (Option String) :=
  match p.phase with
  | .running _ c => some c
  | _ => none

/-- `checkPath`, if there is a check. -/
def check (outcome : Option String) (p : CoreProcess) : Option String :=
  if p.checks then outcome.map fun e => p.name ++ " config check: " ++ e else none

/-- `failLocked`. -/
def fail (err : String) (p : CoreProcess) : CoreProcess := { p with phase := .errored, lastErr := err }

/-- The part of `Start` after the config is written. -/
def launch (l : Launch) (p : CoreProcess) : CoreProcess × Option String :=
  match p.check l.check with
  | some e => (p.fail e, some e)
  | none =>
    match l.exec with
    | .error e => (p.fail ("start " ++ p.name ++ ": " ++ e), some ("start " ++ p.name ++ ": " ++ e))
    | .ok pid => ({ p with phase := .running pid p.config, lastErr := "" }, none)

def start (l : Launch) (config : String) (p : CoreProcess) : CoreProcess × Option String :=
  match p.phase with
  | .running _ _ => (p, none)
  | _ =>
    if config = "" then p.launch l
    else match l.write with
      | some (e, left) => (({ p with config := left } : CoreProcess).fail e, some e)
      | none => ({ p with config := some config } : CoreProcess).launch l

/-- `Stop` returns nil on every path. -/
def stop (p : CoreProcess) : CoreProcess := { p with phase := .stopped }

/-- How a process ends that nobody stopped. -/
inductive Exit where
  | clean
  | failed (err : String)
  deriving DecidableEq, Repr

def reap (x : Exit) (p : CoreProcess) : CoreProcess :=
  match p.phase, x with
  | .running _ _, .clean => { p with phase := .stopped }
  | .running _ _, .failed e => { p with phase := .errored, lastErr := e }
  | _, _ => p

/-- The process exits, or does not. -/
def reapIf (x : Option Exit) (p : CoreProcess) : CoreProcess :=
  match x with
  | none => p
  | some e => p.reap e

end CoreProcess

/-- How the calls of `Process.Apply` go: making the candidate file, its check, reading the old config (a missing file is
    no failure), the rename, the start, and on the way back the write of the old config and another start. -/
structure Swap where
  (candidate check read install : Option String)
  start : Launch
  restore : Option (String × Option String)
  restart : Launch

namespace CoreProcess

/-- The new process did not start, with `err`. -/
def rollback (o : Swap) (old : Option String) (err : String) (p : CoreProcess) : CoreProcess × Option String :=
  match old with
  | none => (p, some err)
  | some text =>
    match o.restore with
    | some (e, left) => ({ p with config := left },
        some ("apply new " ++ p.name ++ " config: " ++ err ++ "; restore config: " ++ e))
    | none =>
      let (p, again) := ({ p with config := some text } : CoreProcess).start o.restart ""
      (p, some (match again with
        | some e => "apply new " ++ p.name ++ " config: " ++ err ++ "; restart previous config: " ++ e
        | none => "apply new " ++ p.name ++ " config: " ++ err ++ "; previous config restored"))

/-- The part of `Apply` from the rename on, with the process stopped. -/
def install (o : Swap) (config : String) (p : CoreProcess) : CoreProcess × Option String :=
  match o.install with
  | some e => ((p.start o.start "").1, some ("install candidate " ++ p.name ++ " config: " ++ e))
  | none =>
    match ({ p with config := some config } : CoreProcess).start o.start "" with
    | (q, none) => (q, none)
    | (q, some e) => q.rollback o p.config e

def apply (o : Swap) (config : String) (p : CoreProcess) : CoreProcess × Option String :=
  if config = "" then
    match p.check o.check with
    | some e => (p, some e)
    | none => p.stop.start o.start ""
  else
    match o.candidate, p.check o.check, o.read with
    | some e, _, _ => (p, some e)
    | none, some e, _ => (p, some e)
    | none, none, some e => (p, some ("read current " ++ p.name ++ " config: " ++ e))
    | none, none, none => p.stop.install o config

end CoreProcess

/-! ### When a start and a swap succeed -/

/-- A start from the file fails. -/
def Launch.fails (l : Launch) (checks : Bool) : Bool :=
  (checks && l.check.isSome) || (match l.exec with | .error _ => true | .ok _ => false)

variable (o : Swap)

/-- The candidate is turned down before the process is touched. -/
def Swap.rejects (checks : Bool) : Bool :=
  o.candidate.isSome || (checks && o.check.isSome) || o.read.isSome

/-- The swap fails: the candidate is turned down, cannot be installed or does not start. -/
def Swap.refuses (checks : Bool) : Bool :=
  o.rejects checks || o.install.isSome || o.start.fails checks

/-- A swap that fails leaves the process and its file as they were. If the rename fails, the process is
    started again, so it must have been running on its file, or not at all and the start fails; if the
    new process does not start, there must have been an old config to go back to. -/
def Swap.Returns (p : CoreProcess) : Prop :=
  if o.rejects p.checks then True
  else if o.install.isSome then
    p.loaded = if o.start.fails p.checks then none else some p.config
  else
    match p.config, o.restore with
    | none, _ => False
    | some old, some (_, left) => p.loaded = none ∧ left = some old
    | some old, none => p.loaded = if o.restart.fails p.checks then none else some (some old)

namespace CoreProcess

variable {p : CoreProcess} {l : Launch} {o : Swap} {config : String}

theorem check_isSome (e : Option String) (p : CoreProcess) : (p.check e).isSome = (p.checks && e.isSome) := by
  rw [check]
  split
  · rename_i h
    simp [h]
  · rename_i h
    simp [h]

theorem launch_cases (l : Launch) (p : CoreProcess) : (l.fails p.checks = true ∧ ∃ e, p.launch l = (p.fail e, some e)) ∨
    (l.fails p.checks = false ∧
      ∃ pid, p.launch l = ({ p with phase := .running pid p.config, lastErr := "" }, none)) := by
  rw [Launch.fails, ← check_isSome, launch]
  rcases p.check l.check with _ | e
  · rcases l.exec with e | pid
    · exact .inl ⟨rfl, _, rfl⟩
    · exact .inr ⟨rfl, pid, rfl⟩
  · exact .inl ⟨rfl, e, rfl⟩

theorem start_of_idle (h : p.loaded = none) : p.start l "" = p.launch l := by
  rw [loaded] at h
  rw [start]
  split
  · rename_i hp
    simp [hp] at h
  · rfl

theorem start_cases (l : Launch) (h : p.loaded = none) :
    (l.fails p.checks = true ∧ ∃ e, p.start l "" = (p.fail e, some e)) ∨ (l.fails p.checks = false ∧
      ∃ pid, p.start l "" = ({ p with phase := .running pid p.config, lastErr := "" }, none)) := by
  rw [start_of_idle h]
  exact launch_cases l p

@[simp] theorem loaded_stop (p : CoreProcess) : p.stop.loaded = none := rfl

@[simp] theorem loaded_fail (e : String) (p : CoreProcess) : (p.fail e).loaded = none := rfl

/-- The candidate stage: an error before anything is touched, or the swap proper. -/
theorem apply_cases (o : Swap) (p : CoreProcess) (hne : config ≠ "") :
    (o.rejects p.checks = true ∧ ∃ e, p.apply o config = (p, some e)) ∨
    (o.rejects p.checks = false ∧ p.apply o config = p.stop.install o config) := by
  rw [Swap.rejects, ← check_isSome, apply, if_neg hne]
  rcases o.candidate with _ | e
  · rcases p.check o.check with _ | e
    · rcases o.read with _ | e
      · exact .inr ⟨rfl, rfl⟩
      · exact .inl ⟨rfl, _, rfl⟩
    · exact .inl ⟨by simp, e, rfl⟩
  · exact .inl ⟨by simp, e, rfl⟩

theorem apply_ok (hne : config ≠ "") (h : o.refuses p.checks = false) : ∃ pid, p.apply o config =
    ({ p with phase := .running pid (some config), lastErr := "", config := some config }, none) := by
  rw [Swap.refuses, or_eq_false_iff, or_eq_false_iff] at h
  obtain ⟨⟨hcand, hinstall⟩, hstart⟩ := h
  rcases apply_cases o p hne with ⟨hrej, -⟩ | ⟨-, happly⟩
  · rw [hcand] at hrej
    cases hrej
  have hnone : o.install = none := by simpa using hinstall
  rcases start_cases o.start (p := { p.stop with config := some config }) rfl with
    ⟨hfails, -⟩ | ⟨-, pid, hrun⟩
  · exact absurd (hstart.symm.trans hfails) false_ne_true
  · exact ⟨pid, by rw [happly, install, hnone]; simp only [hrun]; rfl⟩

/-- The way back to an old config after a failed start. -/
theorem rollback_spec (o : Swap) (old err : String) {q : CoreProcess} (h : q.loaded = none) :
    (q.rollback o (some old) err).2 ≠ none ∧
    ((q.rollback o (some old) err).1.loaded, (q.rollback o (some old) err).1.config) =
      match o.restore with
      | some (_, left) => (none, left)
      | none => (if o.restart.fails q.checks then none else some (some old), some old) := by
  rw [rollback]
  rcases o.restore with _ | ⟨e, left⟩
  · rcases start_cases o.restart (p := { q with config := some old }) h with
      ⟨hfails, e, hstart⟩ | ⟨hfails, pid, hstart⟩
    · simp only [hstart, hfails]
      exact ⟨nofun, rfl⟩
    · simp only [hstart, hfails]
      exact ⟨nofun, rfl⟩
  · exact ⟨nofun, by rw [← h]; rfl⟩

/-- A swap that fails reports it, and brings the process back exactly in these cases. -/
theorem apply_refused (hne : config ≠ "") (h : o.refuses p.checks = true) : (p.apply o config).2 ≠ none ∧
    ((p.apply o config).1.loaded = p.loaded ∧ (p.apply o config).1.config = p.config ↔ o.Returns p) := by
  rw [Swap.Returns]
  rcases apply_cases o p hne with ⟨hrej, e, happly⟩ | ⟨hrej, happly⟩
  · rw [happly, if_pos hrej]
    exact ⟨nofun, fun _ => trivial, fun _ => ⟨rfl, rfl⟩⟩
  rw [happly, if_neg (by simp [hrej])]
  rcases hinst : o.install with _ | e
  · -- the rename succeeds, so it is the start that fails
    have hfails : o.start.fails p.checks = true := by simpa [Swap.refuses, hrej, hinst] using h
    rw [install, hinst]
    rcases start_cases o.start (p := { p.stop with config := some config }) rfl with
      ⟨-, e, hstart⟩ | ⟨hok, -⟩
    · simp only [hstart]
      rcases hold : p.config with _ | old
      · simp [rollback, stop, fail, hold]
      obtain ⟨herr, hview⟩ := rollback_spec o old e
        (q := ({ p.stop with config := some config } : CoreProcess).fail e) rfl
      rw [show p.stop.config = some old from hold]
      refine ⟨herr, ?_⟩
      rcases hres : o.restore with _ | ⟨e', left⟩
      · rw [hres, Prod.mk.injEq] at hview
        rw [hview.1, hview.2]
        exact ⟨fun h => h.1.symm, fun h => ⟨h.symm, rfl⟩⟩
      · rw [hres, Prod.mk.injEq] at hview
        rw [hview.1, hview.2]
        exact ⟨fun h => ⟨h.1.symm, h.2⟩, fun h => ⟨h.1.symm, h.2⟩⟩
    · exact absurd (hok.symm.trans hfails) false_ne_true
  · rw [install, hinst]
    refine ⟨nofun, ?_⟩
    rcases start_cases o.start (p := p.stop) rfl with ⟨hfails, e', hstart⟩ | ⟨hok, pid, hstart⟩
    · simp only [hstart, show o.start.fails p.checks = true from hfails]
      exact ⟨fun h => h.1.symm, fun h => ⟨h.symm, rfl⟩⟩
    · simp only [hstart, show o.start.fails p.checks = false from hok]
      exact ⟨fun h => h.1.symm, fun h => ⟨h.symm, rfl⟩⟩

end CoreProcess

/-! ### What a failed swap restores -/

/-- The steps that restore the process succeed, where they are taken: the start after a failed rename,
    and the write of the old config and the start from it after a failed start. -/
def Swap.Restores (checks : Bool) : Prop :=
  if o.install.isSome then o.start.fails checks = false
  else o.restore = none ∧ o.restart.fails checks = false

namespace CoreProcess

variable {p : CoreProcess} {o : Swap}

/-- The rename fails: the process runs on the old file, whether it ran before or not. -/
theorem install_refused (config : String) {e : String} (hinst : o.install = some e)
    (hstart : o.start.fails p.checks = false) :
    (p.stop.install o config).1.config = p.config ∧ (p.stop.install o config).1.loaded = some p.config := by
  rw [install, hinst]
  rcases start_cases o.start (p := p.stop) rfl with ⟨hfails, -⟩ | ⟨-, pid, hrun⟩
  · exact absurd (hstart.symm.trans hfails) false_ne_true
  · simp only [hrun]
    exact ⟨rfl, rfl⟩

/-- The new process does not start: without an old config the new one stays, else the process runs on
    the old one, whether it ran before or not. -/
theorem install_rolled_back (config : String) (hinst : o.install = none)
    (hstart : o.start.fails p.checks = true) (hrestore : o.restore = none)
    (hrestart : o.restart.fails p.checks = false) :
    match p.config with
    | none => (p.stop.install o config).1.config = some config
    | some old => (p.stop.install o config).1.config = some old ∧
        (p.stop.install o config).1.loaded = some (some old) := by
  rw [install, hinst]
  rcases start_cases o.start (p := { p.stop with config := some config }) rfl with
    ⟨-, e, hfail⟩ | ⟨hok, -⟩
  · simp only [hfail]
    rcases hold : p.config with _ | old
    · rw [show p.stop.config = none from hold]
      rfl
    rw [show p.stop.config = some old from hold]
    obtain ⟨-, hview⟩ := rollback_spec o old e (q := ({ p.stop with config := some config } : CoreProcess).fail e) rfl
    have hchecks : (({ p.stop with config := some config } : CoreProcess).fail e).checks = p.checks := rfl
    rw [hrestore, hchecks, hrestart, Prod.mk.injEq] at hview
    exact ⟨hview.2, hview.1⟩
  · exact absurd (hok.symm.trans hstart) false_ne_true

/-- A swap that fails, with steps of restoring that succeed, leaves the file as it was and the process running if it was
    running before, exactly if it was turned down before the process was touched, or the process was running and there
    was an old file to go back to. -/
theorem failed_apply_restores_iff (p : CoreProcess) (o : Swap) (config : String) (hne : config ≠ "")
    (herr : (p.apply o config).2 ≠ none) (hrestores : o.Restores p.checks) :
    ((p.apply o config).1.config = p.config ∧ ((p.apply o config).1.loaded.isSome = true ↔ p.loaded.isSome = true)) ↔
      o.rejects p.checks = true ∨ p.loaded.isSome = true ∧ (o.install.isSome = true ∨ p.config.isSome = true) := by
  rcases apply_cases o p hne with ⟨hrej, e, happly⟩ | ⟨hrej, happly⟩
  · simp [happly, hrej]
  rw [Swap.Restores] at hrestores
  rcases hinst : o.install with _ | e
  · -- the rename succeeds, so it is the start that fails
    rw [hinst] at hrestores
    obtain ⟨hrestore, hrestart⟩ : o.restore = none ∧ o.restart.fails p.checks = false := hrestores
    have hstart : o.start.fails p.checks = true := by
      by_contra hok
      have hrefuses : o.refuses p.checks = false := by
        simpa [Swap.refuses, hrej, hinst] using hok
      obtain ⟨pid, hdone⟩ := apply_ok hne hrefuses
      exact herr (by rw [hdone])
    have hback := install_rolled_back config hinst hstart hrestore hrestart
    rw [happly]
    rcases hold : p.config with _ | old
    · rw [hold] at hback
      simp [hback, hrej]
    · rw [hold] at hback
      simp [hback, hrej]
  · rw [hinst] at hrestores
    obtain ⟨hconfig, hloaded⟩ := install_refused config hinst hrestores
    rw [happly]
    simp [hconfig, hloaded, hrej]

end CoreProcess

/-- A process that is stopped, on its file. -/
def idleProcess : CoreProcess := ⟨"xray", "xray.json", true, .stopped, "", some "old"⟩

/-- The same process, running. -/
def busyProcess : CoreProcess := { idleProcess with phase := .running 3 (some "old") }

/-- The first start fails, the second does not. -/
def failingSwap : Swap :=
  ⟨none, none, none, none, ⟨none, none, .error "exec"⟩, none, ⟨none, none, .ok 7⟩⟩

/-- The running process is put back on its file. -/
theorem busy_restored : (busyProcess.apply failingSwap "new").1.config = busyProcess.config ∧
    ((busyProcess.apply failingSwap "new").1.loaded.isSome = true ↔ busyProcess.loaded.isSome = true) :=
  (CoreProcess.failed_apply_restores_iff busyProcess failingSwap "new" (by decide) (by decide)
    ⟨rfl, rfl⟩).mpr (.inr (by decide))

/-- The rollback starts a process that was stopped. -/
theorem idle_started : failingSwap.Restores idleProcess.checks ∧
    (idleProcess.apply failingSwap "new").2 ≠ none ∧ idleProcess.loaded = none ∧
    (idleProcess.apply failingSwap "new").1.loaded = some (some "old") :=
  ⟨⟨rfl, rfl⟩, by decide, rfl, by decide⟩

/-! ### The recovery marker -/

/-- `recoveryState`: whether the core may be started again after a reboot, and on which config. -/
inductive Marker where
  | inactive
  | active (sha256 : String)
  deriving DecidableEq, Repr

structure Core where
  proc : CoreProcess
  marker : Option Marker
  deriving DecidableEq, Repr

/-- How `writeRecoveryState` goes. Where the rename fails the old marker is removed before the second
    attempt, so it may be lost. -/
inductive Writing where
  | written
  | refused (err : String)
  | lost (err : String)
  deriving DecidableEq, Repr

namespace Core

def writeRecoveryState (w : Writing) (m : Marker) (c : Core) : Core × Option String :=
  match w with
  | .written => ({ c with marker := some m }, none)
  | .refused e => (c, some e)
  | .lost e => ({ c with marker := none }, some e)

def markInactive (w : Writing) (c : Core) : Core × Option String := c.writeRecoveryState w .inactive

def markActive (sha : String → String) (w : Writing) (c : Core) : Core × Option String :=
  match c.proc.config with
  | none => (c, some ("read active core config: open " ++ c.proc.path ++ ": no such file or directory"))
  | some text => c.writeRecoveryState w (.active (sha text))

/-- The same process state, the same file and the same marker; a restart on the same config counts as the same. -/
def Same (c d : Core) : Prop :=
  d.proc.loaded = c.proc.loaded ∧ d.proc.config = c.proc.config ∧ d.marker = c.marker

theorem Same.rfl' (c : Core) : c.Same c := ⟨rfl, rfl, rfl⟩

end Core

end Honey.Agent
