import Honey.Master.Caps
import Honey.Master.Console
import Honey.Master.Stats

/-! Operations that are run later (`schedule.rs`), by every instance that takes itself for the leader.

        pending -- scan --> list of the instance -- execute --> outcome -- mark --> done, failed
           |                       (the row is pending all the while)
           +-- cancel --> canceled

    A scan is a plain read: nothing keeps an operation from being canceled or scanned again while it is on a list,
    and the mark is written whatever the row says by then. The three promises, that a canceled operation is not run
    and not recorded as run, and that none is run twice, hold as long as nobody touches an operation that is on a
    list and every mark is written (`promises_kept`). -/

namespace Honey.Master
open Honey.Schemes List Option

/-! ### Operations -/

inductive ResourceType where | node | user | inbound
  deriving DecidableEq, Repr

inductive OpStatus where | pending | done | failed | canceled
  deriving DecidableEq, Repr

/-- `scheduled_operations`. -/
structure ScheduledOp where
  id : Uuid
  resourceType : ResourceType
  resourceId : Uuid
  action : String
  runAt : ℤ
  status : OpStatus
  result : Option String

def dueScheduledOps (ops : Table ScheduledOp.id) (now : ℤ) : List ScheduledOp :=
  ((ops.rows.filter fun op => op.status = .pending ∧ op.runAt ≤ now).insertionSort
    fun a b => a.runAt ≤ b.runAt).take 50

/-- An operation as `UPDATE … WHERE id = …` leaves it. -/
def ScheduledOp.set (id : Uuid) (status : OpStatus) (result : Option String → Option String) (op : ScheduledOp) :
    ScheduledOp :=
  if op.id = id then { op with status := status, result := result op.result } else op

theorem set_id (id : Uuid) (status : OpStatus) (result : Option String → Option String) (op : ScheduledOp) :
    (op.set id status result).id = op.id := by
  rw [ScheduledOp.set]
  split <;> rfl

def markScheduledOp (ops : Table ScheduledOp.id) (id : Uuid) (status : OpStatus) (result : String) :
    Table ScheduledOp.id :=
  ops.alter (ScheduledOp.set id status fun _ => some result) (set_id id status _)

/-- `cancel_scheduled_op`: the row, if it is still pending, and whether it was. -/
def cancelScheduledOp (ops : Table ScheduledOp.id) (id : Uuid) : Table ScheduledOp.id × Bool :=
  if (ops.find? id).any (·.status = .pending) then
    (ops.alter (ScheduledOp.set id .canceled fun r => r) (set_id id .canceled _), true)
  else (ops, false)

/-! ### Running one -/

/-- The calls of `execute` that the database may fail: the statement itself, or `user_node_ids` after it. -/
inductive ExecCall where | statement | nodes
  deriving DecidableEq

/-- What an execution takes from outside. -/
structure ExecDraw where
  gate : Gate
  env : Env
  now : ℤ
  token : Uuid
  settings : List (String × String)
  connected : List Uuid
  fault : Option ExecCall
  error : String

/-- The tables after an execution, the nodes that were pushed, and the message or the error. -/
abbrev Executed := UserDb × List Uuid × Except String String

def switchText (what : String) (on : Bool) : String := what ++ if on then " enabled" else " disabled"

def UserDb.setNodeEnabled (s : UserDb) (id : Uuid) (on : Bool) : Option UserDb :=
  (s.db.nodes.find? id).map fun n => s.withDb { s.db with nodes := s.db.nodes.put { n with enabled := on } } rfl

/-- `set_inbound_enabled`, with the node that it returns. -/
def UserDb.setInboundEnabled (s : UserDb) (id : Uuid) (on : Bool) : Option (UserDb × Uuid) :=
  (s.db.inbounds.find? id).map fun i =>
    (s.withDb { s.db with inbounds := s.db.inbounds.put { i with enabled := on } } rfl, i.nodeId)

namespace ExecDraw

variable (x : ExecDraw) (s : UserDb) (id : Uuid)

/-- `push_if_connected`, of some nodes; what becomes of a push is only logged. -/
def pushIfConnected (ids : List Uuid) : List Uuid := if autoPush x.settings then ids.filter (· ∈ x.connected) else []

/-- `push_user_nodes` after a statement. -/
def pushUserNodes (message : String) : Executed :=
  if x.fault = some .nodes then (s, [], .error x.error)
  else (s, x.pushIfConnected (userNodeIds s.db id), .ok message)

def executeNode : String → Executed
  | "push" => (s, x.pushIfConnected [id], .ok "node pushed")
  | action =>
    if action ∉ ["enable", "disable"] then (s, [], .error ("unsupported action node." ++ action))
    else if x.fault = some .statement then (s, [], .error x.error)
    else match s.setNodeEnabled id (action = "enable") with
      | none => (s, [], .error "node not found")
      | some s => (s, x.pushIfConnected [id], .ok (switchText "node" (action = "enable")))

def executeUser : String → Executed
  | "reset-traffic" =>
    if x.fault = some .statement then (s, [], .error x.error)
    else match s.db.users.find? id, resetTraffic x.now id s with
      | some u, some s' => match x.env.decryptUser u with
        | .error e => (s', [], .error e)
        | .ok _ => x.pushUserNodes s' id "traffic reset"
      | _, _ => (s, [], .error "user not found")
  | "rotate-sub" =>
    if x.fault = some .statement then (s, [], .error x.error)
    else match rotateSubscriptionToken x.gate x.env x.now id x.token s with
      | .error _ => (s, [], .error x.error)
      | .ok none => (s, [], .error "user not found")
      | .ok (some s) => (s, [], .ok "subscription rotated")
  | action =>
    if action ∉ ["enable", "disable"] then (s, [], .error ("unsupported action user." ++ action))
    else if x.fault = some .statement then (s, [], .error x.error)
    else if (s.db.users.find? id).isNone then (s, [], .error "user not found")
    else x.pushUserNodes (s.setUserEnabled x.now id (action = "enable")) id (switchText "user" (action = "enable"))

def executeInbound (action : String) : Executed :=
  if action ∉ ["enable", "disable"] then (s, [], .error ("unsupported action inbound." ++ action))
  else if x.fault = some .statement then (s, [], .error x.error)
  else match s.setInboundEnabled id (action = "enable") with
    | none => (s, [], .error "inbound not found")
    | some (s, node) => (s, x.pushIfConnected [node], .ok (switchText "inbound" (action = "enable")))

def execute (op : ScheduledOp) : Executed :=
  match op.resourceType with
  | .node => x.executeNode s op.resourceId op.action
  | .user => x.executeUser s op.resourceId op.action
  | .inbound => x.executeInbound s op.resourceId op.action

end ExecDraw

/-! ### The loop -/

/-- Where an instance is in its loop: what it still has to do, and what it has done and not marked yet. -/
structure Runner where
  todo : List ScheduledOp
  unmarked : Option (ScheduledOp × OpStatus × String)

/-- The operations that an instance has in hand. -/
def Runner.held (r : Runner) : List Uuid := (r.unmarked.toList.map (·.1) ++ r.todo).map (·.id)

@[simp] theorem held_none (todo : List ScheduledOp) : (Runner.mk todo none).held = todo.map (·.id) := rfl

@[simp] theorem held_some (todo : List ScheduledOp) (op : ScheduledOp) (x : OpStatus × String) :
    (Runner.mk todo (some (op, x))).held = op.id :: todo.map (·.id) := rfl

/-- The instances and the tables. The last three fields are a record of the run: the operations in the order of
    their executions, those whose cancelation was confirmed, and those executed after that. -/
structure Scheduler (ι : Type) where
  ops : Table ScheduledOp.id
  users : UserDb
  pushed : List Uuid
  runners : ι → Runner
  (executions confirmed late : List Uuid)

inductive SchedulerEv (ι : Type) where
  | create (op : ScheduledOp)
  | tick (i : ι) (leader : Bool) (now : ℤ) (fault : Bool)
  | execute (i : ι) (x : ExecDraw)
  | mark (i : ι) (fault : Bool)
  | cancel (id : Uuid) (fault : Bool)

/-- The status and the text that are recorded. -/
def outcome : Except String String → OpStatus × String
  | .ok message => (.done, message)
  | .error e => (.failed, e)

namespace Scheduler

variable {ι : Type}

/-- One step of one instance, or a request. -/
def step [DecidableEq ι] (s : Scheduler ι) : SchedulerEv ι → Scheduler ι
  | .create op =>
    if (s.ops.find? op.id).isSome then s
    else { s with ops := s.ops.put { op with status := .pending, result := none } }
  | .tick i leader now fault =>
    if (s.runners i).held = [] ∧ leader ∧ ¬ fault then
      { s with runners := Function.update s.runners i ⟨dueScheduledOps s.ops now, none⟩ }
    else s
  | .execute i x => match s.runners i with
    | ⟨op :: todo, none⟩ =>
      let (users, pushes, answer) := x.execute s.users op
      { s with
        users := users
        pushed := s.pushed ++ pushes
        runners := Function.update s.runners i ⟨todo, some (op, outcome answer)⟩
        executions := op.id :: s.executions
        late := if op.id ∈ s.confirmed then op.id :: s.late else s.late }
    | _ => s
  | .mark i fault => match s.runners i with
    | ⟨todo, some (op, status, result)⟩ => { s with
        ops := if fault then s.ops else markScheduledOp s.ops op.id status result
        runners := Function.update s.runners i ⟨todo, none⟩ }
    | _ => s
  | .cancel id fault =>
    if fault = false ∧ (cancelScheduledOp s.ops id).2 then
      { s with ops := (cancelScheduledOp s.ops id).1, confirmed := id :: s.confirmed }
    else s

/-- Nothing is in hand and nothing has been done. -/
def start (ops : Table ScheduledOp.id) (users : UserDb) : Scheduler ι :=
  ⟨ops, users, [], fun _ => ⟨[], none⟩, [], [], []⟩

/-- The status of an operation. -/
def status (s : Scheduler ι) (id : Uuid) : Option OpStatus := (s.ops.find? id).map (·.status)

/-- What the scheduler promises: no execution after a confirmed cancelation, none twice, and no confirmed
    cancelation recorded as done or failed. -/
structure Promises (s : Scheduler ι) : Prop where
  notLate : s.late = []
  once : s.executions.Nodup
  kept : ∀ id ∈ s.confirmed, s.status id ≠ some .done ∧ s.status id ≠ some .failed

/-- Nobody touches an operation that an instance has in hand, and every mark is written. -/
def Undisturbed (s : Scheduler ι) : SchedulerEv ι → Prop
  | .tick i leader now fault =>
    leader → fault = false → ∀ op ∈ dueScheduledOps s.ops now, ∀ j ≠ i, op.id ∉ (s.runners j).held
  | .cancel id fault => fault = false → ∀ j, id ∉ (s.runners j).held
  | .mark _ fault => fault = false
  | .create _ | .execute _ _ => True

/-! ### The invariant -/

/-- Where every operation is: an operation in hand is in one instance's, pending and not canceled; one that was
    executed is in hand, or marked. -/
structure Orderly (s : Scheduler ι) : Prop where
  apart : ∀ i j, i ≠ j → ∀ id ∈ (s.runners i).held, id ∉ (s.runners j).held
  nodup : ∀ i, (s.runners i).held.Nodup
  pending : ∀ i, ∀ id ∈ (s.runners i).held, s.status id = some .pending ∧ id ∉ s.confirmed
  waiting : ∀ i, ∀ op ∈ (s.runners i).todo, op.id ∉ s.executions
  settled : ∀ id ∈ s.executions, (∀ i, id ∉ (s.runners i).held) → s.status id = some .done ∨ s.status id = some .failed
  confirmed : ∀ id ∈ s.confirmed, s.status id = some .canceled
  recorded : ∀ i x, (s.runners i).unmarked = some x → x.2.1 = .done ∨ x.2.1 = .failed
  notLate : s.late = []
  once : s.executions.Nodup

variable {s s' : Scheduler ι} {i : ι} {id : Uuid}

variable {ops : Table ScheduledOp.id}

theorem status_set {st : OpStatus} {result : Option String → Option String} {k : Uuid} :
    ((ops.alter (ScheduledOp.set id st result) (set_id id st result)).find? k).map (·.status) =
      if k = id then (ops.find? k).map fun _ => st else (ops.find? k).map (·.status) := by
  rw [Table.find?_alter]
  cases hfind : ops.find? k with
  | none => simp
  | some op =>
    obtain ⟨-, rfl⟩ := Table.find?_eq_some.mp hfind
    by_cases hid : op.id = id <;> simp [ScheduledOp.set, hid]

theorem mem_due {now : ℤ} {op : ScheduledOp} (h : op ∈ dueScheduledOps s.ops now) : s.status op.id = some .pending := by
  have hmem := (mem_insertionSort _).mp (mem_of_mem_take h)
  obtain ⟨hrow, hdue⟩ := mem_filter.mp hmem
  rw [status, Table.find?_eq_some.mpr ⟨hrow, rfl⟩, map_some, (of_decide_eq_true hdue).1]

theorem due_nodup (ops : Table ScheduledOp.id) (now : ℤ) : ((dueScheduledOps ops now).map (·.id)).Nodup := by
  have hsorted := ((perm_insertionSort (fun a b : ScheduledOp => a.runAt ≤ b.runAt)
    (ops.rows.filter fun op => op.status = .pending ∧ op.runAt ≤ now)).map _).nodup_iff.mpr
      (ops.nodup.sublist (filter_sublist.map _))
  exact hsorted.sublist ((take_sublist _ _).map _)

/-- An operation that is free and pending has not been executed. -/
theorem Orderly.not_executed (h : s.Orderly) (hst : s.status id = some .pending)
    (hfree : ∀ j, id ∉ (s.runners j).held) : id ∉ s.executions := by
  intro hid
  rcases h.settled id hid hfree with hdone | hfailed
  · cases hst.symm.trans hdone
  · cases hst.symm.trans hfailed

theorem Orderly.of_status (h : s.Orderly)
    (hst : ∀ id, s.status id ≠ none → (ops.find? id).map (·.status) = s.status id) :
    ({ s with ops := ops } : Scheduler ι).Orderly :=
  { h with
    pending := by
      intro i id hid
      obtain ⟨hpending, hnot⟩ := h.pending i id hid
      exact ⟨(hst id (by simp [hpending])).trans hpending, hnot⟩
    settled := by
      intro id hid hfree
      have hold := h.settled id hid hfree
      have hsome : s.status id ≠ none := by rcases hold with hold | hold <;> simp [hold]
      simpa only [status, hst id hsome] using hold
    confirmed := fun id hid => (hst id (by simp [h.confirmed id hid])).trans (h.confirmed id hid) }

theorem Orderly.of_runner [DecidableEq ι] (h : s.Orderly) {r : Runner}
    (hrunners : s'.runners = Function.update s.runners i r) (hconfirmed : s'.confirmed = s.confirmed)
    (hheld : ∀ id ∈ r.held, s'.status id = some .pending ∧ id ∉ s.confirmed ∧ ∀ j ≠ i, id ∉ (s.runners j).held)
    (hnodup : r.held.Nodup) (hstatus : ∀ j ≠ i, ∀ id ∈ (s.runners j).held, s'.status id = s.status id)
    (hwaiting : ∀ op ∈ r.todo, op.id ∉ s'.executions)
    (hothers : ∀ j ≠ i, ∀ op ∈ (s.runners j).todo, op.id ∉ s'.executions)
    (hsettled : ∀ id ∈ s'.executions, id ∉ r.held → (∀ j ≠ i, id ∉ (s.runners j).held) →
      s'.status id = some .done ∨ s'.status id = some .failed)
    (hcanceled : ∀ id ∈ s.confirmed, s'.status id = some .canceled)
    (hrecorded : ∀ x, r.unmarked = some x → x.2.1 = .done ∨ x.2.1 = .failed) (hlate : s'.late = [])
    (honce : s'.executions.Nodup) : s'.Orderly := by
  have hself : s'.runners i = r := by rw [hrunners, Function.update_self]
  have hother : ∀ j, j ≠ i → s'.runners j = s.runners j := by
    intro j hj
    rw [hrunners, Function.update_of_ne hj]
  refine ⟨fun j k hjk id hj hk => ?_, fun j => ?_, fun j id hj => ?_, fun j op hj => ?_, fun id hid hfree => ?_,
    hconfirmed ▸ hcanceled, fun j x hx => ?_, hlate, honce⟩
  · by_cases hji : j = i
    · rw [hji, hself] at hj
      have hki : k ≠ i := fun hki => hjk (hji.trans hki.symm)
      rw [hother k hki] at hk
      exact (hheld id hj).2.2 k hki hk
    · rw [hother j hji] at hj
      by_cases hki : k = i
      · rw [hki, hself] at hk
        exact (hheld id hk).2.2 j hji hj
      · rw [hother k hki] at hk
        exact h.apart j k hjk id hj hk
  · by_cases hji : j = i
    · rwa [hji, hself]
    · rw [hother j hji]
      exact h.nodup j
  · rw [hconfirmed]
    by_cases hji : j = i
    · rw [hji, hself] at hj
      exact ⟨(hheld id hj).1, (hheld id hj).2.1⟩
    · rw [hother j hji] at hj
      rw [hstatus j hji id hj]
      exact h.pending j id hj
  · by_cases hji : j = i
    · rw [hji, hself] at hj
      exact hwaiting op hj
    · rw [hother j hji] at hj
      exact hothers j hji op hj
  · refine hsettled id hid (hself ▸ hfree i) fun j hj => ?_
    rw [← hother j hj]
    exact hfree j
  · by_cases hji : j = i
    · rw [hji, hself] at hx
      exact hrecorded x hx
    · rw [hother j hji] at hx
      exact h.recorded j x hx

variable [DecidableEq ι]

theorem orderly_create (h : s.Orderly) (op : ScheduledOp) : (s.step (.create op)).Orderly := by
  rw [step]
  split
  · exact h
  rename_i hnew
  refine h.of_status fun id hid => ?_
  have hne : id ≠ op.id := by
    rintro rfl
    exact hid (by simpa [status] using hnew)
  have hput : (s.ops.put { op with status := .pending, result := none }).find? id = s.ops.find? id :=
    Table.find?_put_of_ne hne
  rw [hput]
  rfl

theorem orderly_tick (h : s.Orderly) {leader fault : Bool} {now : ℤ} (hu : s.Undisturbed (.tick i leader now fault)) :
    (s.step (.tick i leader now fault)).Orderly := by
  rw [step]
  split
  swap
  · exact h
  rename_i hidle
  have hscan := hu hidle.2.1 (Bool.eq_false_iff.mpr hidle.2.2)
  have hdue : ∀ op ∈ dueScheduledOps s.ops now, op.id ∉ s.executions ∧ op.id ∉ s.confirmed := by
    intro op hop
    constructor
    · refine h.not_executed (mem_due hop) fun j => ?_
      by_cases hj : j = i
      · rw [hj, hidle.1]
        exact not_mem_nil
      · exact hscan op hop j hj
    · intro hcanceled
      cases (mem_due hop).symm.trans (h.confirmed op.id hcanceled)
  refine h.of_runner rfl rfl (fun id hid => ?_) (due_nodup _ _) (fun _ _ _ _ => rfl) (fun op hop => (hdue op hop).1)
    (fun j _ => h.waiting j) (fun id hid _ hfree => h.settled id hid fun j => ?_) h.confirmed nofun h.notLate
    h.once
  · obtain ⟨op, hop, rfl⟩ := mem_map.mp hid
    exact ⟨mem_due hop, (hdue op hop).2, hscan op hop⟩
  by_cases hj : j = i
  · rw [hj, hidle.1]
    exact not_mem_nil
  · exact hfree j hj

theorem orderly_execute (h : s.Orderly) (draw : ExecDraw) : (s.step (.execute i draw)).Orderly := by
  rw [step]
  split
  swap
  · exact h
  rename_i op todo hrun
  have hhand : (s.runners i).held = op.id :: todo.map (·.id) := by rw [hrun, held_none, map_cons]
  have hop : op.id ∈ (s.runners i).held := by rw [hhand]; exact mem_cons_self
  have hfirst : op.id ∉ s.executions := h.waiting i op (by rw [hrun]; exact mem_cons_self)
  have hnodup := h.nodup i
  rw [hhand] at hnodup
  have hlate : op.id ∉ s.confirmed := (h.pending i op.id hop).2
  refine h.of_runner rfl rfl (fun id hid => ?_) hnodup (fun _ _ _ _ => rfl) (fun op' hop' => ?_)
    (fun j hj op' hop' => ?_) (fun id hid hnot hfree => ?_) h.confirmed (fun x hx => ?_)
    ((if_neg hlate).trans h.notLate) (nodup_cons.mpr ⟨hfirst, h.once⟩)
  · rw [held_some, ← hhand] at hid
    exact ⟨(h.pending i id hid).1, (h.pending i id hid).2, fun j hj => h.apart i j hj.symm id hid⟩
  · rw [mem_cons, not_or]
    have hne : op'.id ≠ op.id := by
      intro heq
      exact (nodup_cons.mp hnodup).1 (heq ▸ mem_map_of_mem hop')
    refine ⟨hne, h.waiting i op' ?_⟩
    rw [hrun]
    exact mem_cons_of_mem op hop'
  · rw [mem_cons, not_or]
    have hheld : op'.id ∈ (s.runners j).held := mem_map_of_mem (mem_append_right _ hop')
    exact ⟨fun heq => h.apart i j hj.symm op.id hop (heq ▸ hheld), h.waiting j op' hop'⟩
  · -- what was executed just now is in hand still
    rcases mem_cons.mp hid with rfl | hid
    · exact absurd mem_cons_self hnot
    refine h.settled id hid fun j => ?_
    by_cases hj : j = i
    · rwa [hj, hhand]
    · exact hfree j hj
  · obtain rfl := some.inj hx
    cases (draw.execute s.users op).2.2 with
    | ok message => exact .inl rfl
    | error e => exact .inr rfl

theorem orderly_mark (h : s.Orderly) : (s.step (.mark i false)).Orderly := by
  rw [step]
  split
  swap
  · exact h
  rename_i todo op st result hrun
  have hhand : (s.runners i).held = op.id :: todo.map (·.id) := by rw [hrun, held_some]
  have hop : op.id ∈ (s.runners i).held := by rw [hhand]; exact mem_cons_self
  have hnodup := h.nodup i
  rw [hhand, nodup_cons] at hnodup
  have hst : st = .done ∨ st = .failed := h.recorded i _ (by rw [hrun])
  simp only [Bool.false_eq_true, if_false]
  have hstatus : ∀ id, ({ s with
      ops := markScheduledOp s.ops op.id st result
      runners := Function.update s.runners i ⟨todo, none⟩ } : Scheduler ι).status id =
        if id = op.id then some st else s.status id := by
    intro id
    refine status_set.trans ?_
    split
    · rename_i hid
      obtain ⟨row, hrow, -⟩ := map_eq_some_iff.mp (h.pending i op.id hop).1
      rw [hid, hrow, map_some]
    · rfl
  have hother : ∀ j, j ≠ i → ∀ id ∈ (s.runners j).held, id ≠ op.id := by
    rintro j hj id hid rfl
    exact h.apart i j hj.symm _ hop hid
  refine h.of_runner rfl rfl (fun id hid => ?_) hnodup.2 (fun j hj id hid => ?_) (fun op' hop' => h.waiting i op' ?_)
    (fun j _ => h.waiting j) (fun id hid hnot hfree => ?_) (fun id hid => ?_) nofun h.notLate h.once
  · have hne : id ≠ op.id := fun heq => hnodup.1 (heq ▸ hid)
    have hid' : id ∈ (s.runners i).held := by rw [hhand]; exact mem_cons_of_mem _ hid
    rw [hstatus, if_neg hne]
    exact ⟨(h.pending i id hid').1, (h.pending i id hid').2, fun j hj => h.apart i j hj.symm id hid'⟩
  · rw [hstatus, if_neg (hother j hj id hid)]
  · rw [hrun]
    exact hop'
  · rw [hstatus]
    split
    · rcases hst with rfl | rfl
      · exact .inl rfl
      · exact .inr rfl
    rename_i hne
    refine h.settled id hid fun j => ?_
    by_cases hj : j = i
    · rw [hj, hhand, mem_cons, not_or]
      exact ⟨hne, hnot⟩
    · exact hfree j hj
  · have hne : id ≠ op.id := fun heq => (h.pending i op.id hop).2 (heq ▸ hid)
    rw [hstatus, if_neg hne]
    exact h.confirmed id hid

theorem canceled_iff : (cancelScheduledOp ops id).2 ↔ (ops.find? id).map (·.status) = some .pending := by
  rw [cancelScheduledOp]
  cases ops.find? id with
  | none => simp
  | some op => by_cases hst : op.status = .pending <;> simp [hst]

theorem orderly_cancel (h : s.Orderly) {fault : Bool} (hu : s.Undisturbed (.cancel id fault)) :
    (s.step (.cancel id fault)).Orderly := by
  rw [step]
  split
  swap
  · exact h
  rename_i hdone
  have hfree := hu hdone.1
  have hpending : s.status id = some .pending := canceled_iff.mp hdone.2
  have hstatus : ∀ k, ({ s with
      ops := (cancelScheduledOp s.ops id).1, confirmed := id :: s.confirmed } : Scheduler ι).status k =
        if k = id then some .canceled else s.status k := by
    intro k
    obtain ⟨op, hop, hst⟩ := map_eq_some_iff.mp hpending
    have hrow : (cancelScheduledOp s.ops id).1 =
        s.ops.alter (ScheduledOp.set id .canceled fun r => r) (set_id id .canceled _) := by
      rw [cancelScheduledOp, if_pos (by simp [hop, hst])]
    rw [hrow]
    refine status_set.trans ?_
    split
    · rename_i hk
      rw [hk, hop, map_some]
    · rfl
  refine ⟨h.apart, h.nodup, fun j k hk => ?_, h.waiting, fun k hk hleft => ?_, fun k hk => ?_, h.recorded, h.notLate,
    h.once⟩
  · have hne : k ≠ id := fun heq => hfree j (heq ▸ hk)
    rw [hstatus, if_neg hne, mem_cons, not_or]
    exact ⟨(h.pending j k hk).1, hne, (h.pending j k hk).2⟩
  · have hne : k ≠ id := fun heq => h.not_executed hpending hfree (heq ▸ hk)
    rw [hstatus, if_neg hne]
    exact h.settled k hk hleft
  · rw [hstatus]
    split
    · rfl
    · rename_i hne
      exact h.confirmed k ((mem_cons.mp hk).resolve_left hne)

theorem orderly_step (s : Scheduler ι) (e : SchedulerEv ι) (h : s.Orderly) (hu : s.Undisturbed e) :
    (s.step e).Orderly := by
  cases e with
  | create op => exact orderly_create h op
  | tick i leader now fault => exact orderly_tick h hu
  | execute i x => exact orderly_execute h x
  | mark i fault =>
    obtain rfl : fault = false := hu
    exact orderly_mark h
  | cancel id fault => exact orderly_cancel h hu

omit [DecidableEq ι] in
theorem orderly_start (ops : Table ScheduledOp.id) (users : UserDb) : (start ops users : Scheduler ι).Orderly where
  apart _ _ _ _ h := by cases h
  nodup _ := nodup_nil
  pending _ _ h := by cases h
  waiting _ _ h := by cases h
  settled _ h := by cases h
  confirmed _ h := by cases h
  recorded _ _ h := by cases h
  notLate := rfl
  once := nodup_nil

omit [DecidableEq ι] in
theorem Orderly.promises (h : s.Orderly) : s.Promises where
  notLate := h.notLate
  once := h.once
  kept id hid := by simp [h.confirmed id hid]

/-- In every run in which nobody cancels or scans an operation that an instance has in hand and every mark is
    written, the promises hold in every state. -/
theorem promises_kept (ops : Table ScheduledOp.id) (users : UserDb) (es : List (SchedulerEv ι))
    (h : Always step Undisturbed (start ops users) es) :
    Always step (fun s e => (s.step e).Promises) (start ops users) es :=
  always_of_inv orderly_step (fun s e hs hu => (orderly_step s e hs hu).promises) es _ (orderly_start ops users) h

/-! ### Runs in which the promises break -/

/-- A push of node 3, due at 10. -/
def pushAt10 : Table ScheduledOp.id := Table.empty.put ⟨1, .node, 3, "push", 10, .pending, none⟩

/-- An execution without an error. -/
def calm : ExecDraw := ⟨plainGate, plainEnv, 12, 0, [], [3], none, ""⟩

/-- One instance scans, executes and marks; the request to cancel comes too late and is refused. -/
theorem one_instance_keeps : Always step (fun s e => (s.step e).Promises) (start pushAt10 noUsers : Scheduler Bool)
      [.tick true true 12 false, .execute true calm, .mark true false, .cancel 1 false] := by
  refine promises_kept pushAt10 noUsers _ ⟨?_, trivial, rfl, ?_, trivial⟩
  · rintro - - op - j -
    exact not_mem_nil
  · rintro - (_ | _) <;> decide +kernel

/-- The operation is canceled between the scan and the execution: the request succeeds, the node is pushed all the
    same, and the row ends as done. With two instances that scan before either marks, and with one whose mark is not
    written, the operation is executed twice. -/
theorem canceled_and_done :
    let canceled := List.foldl step (start pushAt10 noUsers : Scheduler Bool)
      [.tick true true 12 false, .cancel 1 false, .execute true calm, .mark true false]
    let shared := List.foldl step (start pushAt10 noUsers : Scheduler Bool)
      [.tick true true 12 false, .tick false true 12 false, .execute true calm, .execute false calm]
    let unmarked := List.foldl step (start pushAt10 noUsers : Scheduler Bool)
      [.tick true true 12 false, .execute true calm, .mark true true, .tick true true 22 false, .execute true calm]
    (canceled.confirmed = [1] ∧ canceled.late = [1] ∧ canceled.pushed = [3] ∧ canceled.status 1 = some .done) ∧
      shared.executions = [1, 1] ∧ unmarked.executions = [1, 1] ∧ unmarked.pushed = [3, 3] := by
  decide +kernel

end Scheduler

end Honey.Master
