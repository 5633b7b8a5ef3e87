import Honey.Agent.Planes

/-! The processes behind the managed services (`supervise` in `svc.go`): a daemon is known to the next apply by the
    number in its PID file only, and the number outlives the process, the agent and the machine.

        supervise tag      PID file of the tag -- 412 --> kill 412 -- whoever has that number
                           start the daemon    -- 977
                           PID file of the tag <- 977     (errors ignored)

        between applies    processes exit, numbers are given out again, the agent restarts,
                           the host reboots

    As long as no process is given a number that stands in a PID file, the signalled daemons are gone
    when `supervise` goes on, and the PID files are written, the numbers and the daemons match. -/

namespace Honey.Agent
open Honey.Master Honey.Schemes Function Option

/-- What runs under a number: a daemon that `supervise` started for a tag, or anything else. -/
inductive Proc where
  | daemon (tag : String)
  | other
  deriving DecidableEq, Repr

/-- The processes by number, and the numbers in the PID files by tag (none: no file, or an empty one). -/
structure Host where
  procs : ℕ → Option Proc
  pidFile : String → Option ℕ

/-- How one call of `supervise` goes: the process it signals is gone when the call goes on (it is not waited for); the
    number of the new daemon, unless it does not start; and what a failed write leaves in the PID file. -/
structure Supervision where
  gone : Bool
  start : Option ℕ
  torn : Option (Option ℕ)
  deriving DecidableEq, Repr

namespace Host

def exit (h : Host) (pid : ℕ) : Host := { h with procs := update h.procs pid none }

/-- A new process; the kernel gives out only numbers that are not in use. -/
def spawn (h : Host) (pid : ℕ) (p : Proc) : Host :=
  if h.procs pid = none then { h with procs := update h.procs pid (some p) } else h

/-- The process that `supervise` signals. -/
def signalled (h : Host) (tag : String) : Option Proc := (h.pidFile tag).bind h.procs

/-- `exec.Command("kill", pid).Run()` -/
def kill (h : Host) (tag : String) (gone : Bool) : Host :=
  match h.pidFile tag with
  | some pid => if gone then h.exit pid else h
  | none => h

def writePid (h : Host) (tag : String) (pid : ℕ) (torn : Option (Option ℕ)) : Host :=
  { h with pidFile := update h.pidFile tag (torn.getD (some pid)) }

/-- `supervise` -/
def supervise (h : Host) (tag : String) (o : Supervision) : Host :=
  let h := h.kill tag o.gone
  match o.start with
  | none => h
  | some pid => if h.procs pid = none then (h.spawn pid (.daemon tag)).writePid tag pid o.torn else h

end Host

/-- The call of `supervise` for a service; none if it is of an unknown kind, its binary is missing or
    its config cannot be written. -/
def supervision? (s : SpecService × Option Supervision) : Option (String × Supervision) :=
  if s.1.kind = "mtproto" ∨ s.1.kind = "naive" then s.2.map (Svc.tag s.1, ·) else none

/-- `applyOne` -/
def Host.applyOne (h : Host) (s : SpecService × Option Supervision) : Host :=
  match supervision? s with
  | some (tag, o) => h.supervise tag o
  | none => h

/-- What happens on the host. A restart of the agent ends some of its children, a reboot everything;
    the PID files stay. -/
inductive HostEvent where
  | apply (services : List (SpecService × Option Supervision))
  | exit (pid : ℕ)
  | spawn (pid : ℕ)
  | restart (survives : ℕ → Bool)
  | reboot

def Host.step (h : Host) : HostEvent → Host
  | .apply services => services.foldl Host.applyOne h
  | .exit pid => h.exit pid
  | .spawn pid => h.spawn pid .other
  | .restart survives => { h with procs := fun pid => (h.procs pid).filter fun _ => survives pid }
  | .reboot => { h with procs := fun _ => none }

/-! ### Numbers that are not given out again -/

/-- The numbers in the PID files are those of the daemons: a file names its own daemon or nothing, and
    every daemon stands in its file. -/
structure Host.Tracked (h : Host) : Prop where
  named : ∀ tag pid p, h.pidFile tag = some pid → h.procs pid = some p → p = .daemon tag
  recorded : ∀ tag pid, h.procs pid = some (.daemon tag) → h.pidFile tag = some pid

/-- The signalled process is gone when the call goes on, the new daemon does not get a number that
    stands in another tag's PID file, and its own is written. -/
def Supervision.Tidy (o : Supervision) (h : Host) (tag : String) : Prop :=
  (h.pidFile tag ≠ none → o.gone = true) ∧
    ∀ pid, o.start = some pid → o.torn = none ∧ ∀ tag', tag' ≠ tag → h.pidFile tag' ≠ some pid

/-- The same for every call of an apply; and no other process gets a number that stands in a PID file. -/
def HostEvent.Tidy (h : Host) : HostEvent → Prop
  | .apply services => Always Host.applyOne
      (fun h s => ∀ tag o, supervision? s = some (tag, o) → o.Tidy h tag) h services
  | .spawn pid => ∀ tag, h.pidFile tag ≠ some pid
  | .exit _ | .restart _ | .reboot => True

/-- An apply signals only daemons that it started for the same tag, and leaves at most one for each tag. -/
def HostEvent.Safe (h : Host) : HostEvent → Prop
  | .apply services =>
    Always Host.applyOne (fun h s => ∀ tag o p, supervision? s = some (tag, o) →
      h.signalled tag = some p → p = .daemon tag) h services ∧
    ∀ tag pid pid', (h.step (.apply services)).procs pid = some (.daemon tag) →
      (h.step (.apply services)).procs pid' = some (.daemon tag) → pid = pid'
  | .exit _ | .spawn _ | .restart _ | .reboot => True

namespace Host

variable {h : Host}

section

variable (ht : h.Tracked)
include ht

theorem Tracked.of_fewer {procs : ℕ → Option Proc} (hfewer : ∀ pid p, procs pid = some p → h.procs pid = some p) :
    Tracked { h with procs := procs } :=
  ⟨fun tag pid p hfile hp => ht.named tag pid p hfile (hfewer pid p hp),
    fun tag pid hp => ht.recorded tag pid (hfewer pid _ hp)⟩

theorem Tracked.exit (pid : ℕ) : (h.exit pid).Tracked := by
  refine ht.of_fewer fun pid' p hp => ?_
  rw [update_apply] at hp
  split at hp
  · cases hp
  · exact hp

theorem Tracked.spawn_other {pid : ℕ} (hfresh : ∀ tag, h.pidFile tag ≠ some pid) : (h.spawn pid .other).Tracked := by
  rw [spawn]
  split
  · refine ⟨fun tag pid' p hfile hp => ?_, fun tag pid' hp => ?_⟩
    · simp only [update_apply] at hp
      split at hp
      · rename_i heq
        exact absurd (heq ▸ hfile) (hfresh tag)
      · exact ht.named tag pid' p hfile hp
    · simp only [update_apply] at hp
      split at hp
      · cases hp
      · exact ht.recorded tag pid' hp
  · exact ht

theorem Tracked.kill {tag : String} {gone : Bool} (hgone : h.pidFile tag ≠ none → gone = true) :
    (h.kill tag gone).Tracked ∧ (h.kill tag gone).pidFile = h.pidFile ∧
      ∀ pid, (h.kill tag gone).procs pid ≠ some (.daemon tag) := by
  rw [Host.kill]
  rcases hfile : h.pidFile tag with _ | pid
  · refine ⟨ht, rfl, fun pid hp => ?_⟩
    have hrec := ht.recorded tag pid hp
    rw [hfile] at hrec
    cases hrec
  rw [hgone (by rw [hfile]; simp)]
  refine ⟨ht.exit pid, rfl, fun pid' hp => ?_⟩
  simp only [if_true, Host.exit, update_apply] at hp
  split at hp
  · cases hp
  rename_i hne
  have hrec := ht.recorded tag pid' hp
  rw [hfile] at hrec
  exact hne (some.inj hrec).symm

theorem Tracked.supervise {tag : String} {o : Supervision} (ho : o.Tidy h tag) : (h.supervise tag o).Tracked := by
  obtain ⟨hkill, hfiles, hnone⟩ := ht.kill ho.1
  rw [Host.supervise]
  rcases hstart : o.start with _ | pid
  · exact hkill
  obtain ⟨htorn, hfresh⟩ := ho.2 pid hstart
  dsimp only
  split
  · rename_i hfree
    rw [spawn, if_pos hfree, writePid, htorn]
    -- the tag's file and daemon are the new ones, the others are as after the kill
    refine ⟨fun tag' pid' p hfile hp => ?_, fun tag' pid' hp => ?_⟩
    · simp only [update_apply] at hfile hp
      split at hfile
      · rename_i heq
        rw [← some.inj hfile, if_pos rfl] at hp
        rw [← some.inj hp, heq]
      rename_i hne
      split at hp
      · rename_i heq
        rw [hfiles, heq] at hfile
        exact absurd hfile (hfresh tag' hne)
      · exact hkill.named tag' pid' p hfile hp
    · simp only [update_apply, getD_none] at hp ⊢
      split at hp
      · rename_i heq
        obtain rfl := Proc.daemon.inj (some.inj hp)
        rw [if_pos rfl, heq]
      split
      · rename_i heq
        exact absurd (heq ▸ hp) (hnone pid')
      · exact hkill.recorded tag' pid' hp
  · exact hkill

theorem Tracked.applyOne {s : SpecService × Option Supervision}
    (hs : ∀ tag o, supervision? s = some (tag, o) → o.Tidy h tag) : (h.applyOne s).Tracked := by
  rw [Host.applyOne]
  rcases ho : supervision? s with _ | ⟨tag, o⟩
  · exact ht
  · exact ht.supervise (hs tag o ho)

theorem Tracked.step {e : HostEvent} (he : e.Tidy h) : (h.step e).Tracked := by
  cases e with
  | apply services =>
    have hrun := inv_run (fun (h : Host) s (ht : h.Tracked) hs => ht.applyOne hs) services h ht he
    exact hrun
  | exit pid => exact ht.exit pid
  | spawn pid => exact ht.spawn_other he
  | restart survives =>
    refine ht.of_fewer fun pid p hp => ?_
    exact (filter_eq_some_iff.mp hp).1
  | reboot =>
    refine ht.of_fewer fun pid p hp => ?_
    cases hp

theorem Tracked.signalled {tag : String} {p : Proc} (hp : h.signalled tag = some p) : p = .daemon tag := by
  obtain ⟨pid, hfile, hproc⟩ := bind_eq_some_iff.mp hp
  exact ht.named tag pid p hfile hproc

theorem Tracked.safe {e : HostEvent} (he : e.Tidy h) : e.Safe h := by
  cases e with
  | apply services =>
    refine ⟨?_, fun tag pid pid' hp hp' => ?_⟩
    · exact always_of_inv (fun (h : Host) s (ht : h.Tracked) hs => ht.applyOne hs)
        (fun h s ht _ tag o p _ hp => ht.signalled hp) services h ht he
    · have hafter := ht.step he
      exact some.inj ((hafter.recorded tag pid hp).symm.trans (hafter.recorded tag pid' hp'))
  | exit pid | spawn pid | restart survives | reboot => trivial

end

end Host

/-- From a host without daemons and PID files, in every run in which no process is given a number that
    stands in a PID file, signalled daemons are gone when the apply goes on and PID files are written,
    every apply signals only its own daemons and leaves at most one for each tag. -/
theorem supervise_safe (h : Host) (hfiles : ∀ tag, h.pidFile tag = none)
    (hprocs : ∀ pid tag, h.procs pid ≠ some (.daemon tag)) (es : List HostEvent)
    (hrun : Always Host.step HostEvent.Tidy h es) : Always Host.step HostEvent.Safe h es := by
  have hstart : h.Tracked := by
    refine ⟨fun tag pid p hfile _ => ?_, fun tag pid hp => absurd hp (hprocs pid tag)⟩
    rw [hfiles tag] at hfile
    cases hfile
  exact always_of_inv (fun h e ht he => ht.step he) (fun h e ht he => ht.safe he) es h hstart hrun

/-- A host without processes and PID files. -/
def bareHost : Host := ⟨fun _ => none, fun _ => none⟩

def mtgService : SpecService := ⟨"mtproto", "tg", 8443, "s", "\x7b\x7d"⟩

/-- The proxy is applied, and its daemon started under a number. -/
def mtgApply (pid : ℕ) : HostEvent := .apply [(mtgService, some ⟨true, some pid, none⟩)]

theorem supervision?_mtg (pid : ℕ) : supervision? (mtgService, some ⟨true, some pid, none⟩) =
    some ("mtg-tg", ⟨true, some pid, none⟩) := by
  have htag : Svc.tag mtgService = "mtg-tg" := by decide
  rw [supervision?, if_pos (.inl rfl), htag, map_some]

/-- A daemon exits, another process is started, and the daemon is started again. -/
theorem mtg_restarted :
    Always Host.step HostEvent.Safe bareHost [mtgApply 412, .exit 412, .spawn 500, mtgApply 977] := by
  refine supervise_safe bareHost (fun _ => rfl) (fun _ _ h => by cases h) _ ?_
  have hfile : ∀ {tag pid}, (bareHost.step (mtgApply 412)).pidFile tag = some pid → tag = "mtg-tg" ∧ pid = 412 := by
    intro tag pid h
    simp only [Host.step, mtgApply, List.foldl_cons, List.foldl_nil, Host.applyOne, supervision?_mtg,
      Host.supervise, Host.kill, bareHost, Host.writePid, if_true,
      update_apply] at h
    split at h
    · rename_i htag
      exact ⟨htag, (some.inj h).symm⟩
    · cases h
  refine ⟨⟨?_, trivial⟩, trivial, fun tag h => absurd (hfile h).2 (by decide), ⟨?_, trivial⟩, trivial⟩
  · intro tag o h
    obtain ⟨rfl, rfl⟩ := Prod.mk.inj (some.inj ((supervision?_mtg _).symm.trans h))
    exact ⟨fun _ => rfl, fun pid _ => ⟨rfl, fun _ _ h => by cases h⟩⟩
  · intro tag o h
    obtain ⟨rfl, rfl⟩ := Prod.mk.inj (some.inj ((supervision?_mtg _).symm.trans h))
    exact ⟨fun _ => rfl, fun pid _ => ⟨rfl, fun tag' hne h => hne (hfile h).1⟩⟩

/-- The number of a daemon that has exited goes to another process, which the next apply signals. -/
theorem stranger_signalled :
    ¬ Always Host.step HostEvent.Safe bareHost [mtgApply 412, .exit 412, .spawn 412, mtgApply 977] := by
  rintro ⟨-, -, -, ⟨⟨hsafe, -⟩, -⟩, -⟩
  have hother := hsafe "mtg-tg" ⟨true, some 977, none⟩ .other (by decide) (by decide)
  cases hother

end Honey.Agent
