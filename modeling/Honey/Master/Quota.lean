import Honey.Master.Caps
import Honey.Master.Stats

/-! Rolling quota windows (`quota.rs`): a user's traffic starts from nothing at every boundary.

        scan --> due users -- reset --> traffic 0 -- advance --> quota_reset_at := now + 1 or 7 days
                                            |
                                            +- crash, error --> the boundary stays, and is due again

    The reset and the move of the boundary are two transactions. Between two resets of a user there is a boundary as
    long as the second follows whenever the first was committed, and one master at a time is in the loop
    (`windows_reset_once`); otherwise the next scan finds the same boundary and takes away what was used since. -/

namespace Honey.Master
open Honey.Schemes List UserDb

/-! ### The statements -/

def nextBoundary (now : ℤ) (interval : String) : ℤ := now + (if interval = "weekly" then 7 else 1) * 86400

namespace UserDb

variable (s : UserDb) (now : ℤ) (id : Uuid)

def dueQuotaResets : List (Uuid × String) :=
  (s.db.users.rows.filter fun u =>
    (s.profile u.id).quotaInterval ≠ "none" ∧ (s.profile u.id).quotaResetAt.any (· ≤ now)).map fun u =>
      (u.id, (s.profile u.id).quotaInterval)

def advanceQuotaReset (next : ℤ) : UserDb :=
  if (s.db.users.find? id).isSome then
    s.amend id now (fun p => { p with quotaResetAt := some next }) fun _ => ⟨rfl, rfl⟩
  else s

/-- `set_user_quota_interval`, as `set_quota_interval` calls it. -/
def setUserQuotaInterval (interval : String) : Option UserDb :=
  if interval ∈ ["none", "daily", "weekly"] ∧ (s.db.users.find? id).isSome then
    some (s.amend id now (fun p => { p with
      quotaInterval := interval
      quotaResetAt := if interval = "none" then none else some (nextBoundary now interval) }) fun _ => ⟨rfl, rfl⟩)
  else none

end UserDb

/-- How a call of `reset_user_traffic` fails: it is rolled back, or committed without the answer arriving. -/
inductive ResetFault where | refused | lost
  deriving DecidableEq

/-- A call of `reset_user_traffic`: the tables, and whether it returns without an error. The row that it returns is
    decrypted after the commit. -/
def UserDb.resetWindow (env : Env) (now : ℤ) (fault : Option ResetFault) (id : Uuid) (s : UserDb) : UserDb × Bool :=
  if fault = some .refused then (s, false)
  else match s.db.users.find? id, resetTraffic now id s with
    | some u, some s' => (s', fault = none ∧ (env.decryptUser u).toOption.isSome)
    | _, _ => (s, fault = none)

/-- The arguments of `notify::alert`. -/
structure Alert where
  (event key title body resourceId : String)

def quotaAlert (id : Uuid) (interval date : String) : Alert where
  event := "quota_reset"
  key := "quota_reset:" ++ id.text ++ ":" ++ date
  title := "🔄 honey: quota reset"
  body := "user " ++ id.text ++ " — " ++ interval ++ " traffic window reset"
  resourceId := id.text

/-- The boundary of a user that has one. -/
def UserDb.boundary (s : UserDb) (id : Uuid) : Option ℤ :=
  if (s.db.users.find? id).isSome ∧ (s.profile id).quotaInterval ≠ "none" then (s.profile id).quotaResetAt else none

/-! ### The loop -/

/-- A reset of the loop: the user, the boundary that was stored, and the time. -/
structure WindowReset where
  user : Uuid
  boundary : Option ℤ
  time : ℤ
  deriving DecidableEq

/-- The tables and the clock; the loop of the master that is in it: the users that were due at its scan, the user that
    is reset and whose boundary is not moved yet, and whether there was no error since the scan; the pushes, the alerts,
    and the resets that were committed. -/
structure QuotaLoop where
  users : UserDb
  (clock scannedAt : ℤ)
  todo : List (Uuid × String)
  reset : Option (Uuid × String × List Uuid)
  clean : Bool
  pushed : List Uuid
  alerts : List Alert
  resets : List WindowReset

/-- `elsewhere` is a reset by another master that is in its loop at the same time. -/
inductive QuotaEv where
  | wait (d : ℕ)
  | tick (leader fault : Bool)
  | reset (env : Env) (nodesFault : Bool) (fault : Option ResetFault)
  | advance (written : Bool) (settings : List (String × String)) (connected : List Uuid) (date : String)
  | crash
  | elsewhere (env : Env) (id : Uuid)
  | record (x : Sample)
  | setInterval (id : Uuid) (interval : String)

namespace QuotaLoop

variable (s : QuotaLoop)

/-- The users that the loop has in hand. -/
def hand : List Uuid := s.reset.toList.map (·.1) ++ s.todo.map (·.1)

def resetOf (fault : Option ResetFault) (id : Uuid) : Option WindowReset :=
  if fault = some .refused ∨ (s.users.db.users.find? id).isNone then none
  else some ⟨id, (s.users.profile id).quotaResetAt, s.clock⟩

/-- The reset that the event commits. -/
def committed : QuotaEv → Option WindowReset
  | .reset _ _ fault => match s.todo, s.reset with
    | (id, _) :: _, none => s.resetOf fault id
    | _, _ => none
  | .elsewhere _ id => s.resetOf none id
  | _ => none

/-- One step of the loop, a crash of its master, or what others do in between. -/
def step (e : QuotaEv) : QuotaLoop :=
  match e with
  | .wait d => { s with clock := s.clock + d }
  | .tick leader fault =>
    if s.todo = [] ∧ s.reset = none ∧ leader ∧ ¬ fault then
      { s with scannedAt := s.clock, todo := s.users.dueQuotaResets s.clock, clean := true }
    else s
  | .reset env nodesFault fault => match s.todo, s.reset with
    | (id, interval) :: todo, none =>
      let nodes := if nodesFault then [] else userNodeIds s.users.db id
      let (users, ok) := s.users.resetWindow env s.clock fault id
      { s with
        users := users
        todo := todo
        reset := if ok then some (id, interval, nodes) else none
        clean := s.clean && ok
        resets := (s.committed e).toList ++ s.resets }
    | _, _ => s
  | .advance written settings connected date => match s.reset with
    | some (id, interval, nodes) =>
      { s with
        users := if written then s.users.advanceQuotaReset s.clock id (nextBoundary s.clock interval) else s.users
        reset := none
        clean := s.clean && written
        pushed := s.pushed ++ if autoPush settings then nodes.filter (· ∈ connected) else []
        alerts := s.alerts ++ [quotaAlert id interval date] }
    | none => s
  | .crash => { s with todo := [], reset := none, clean := false }
  | .elsewhere env id => { s with
      users := (s.users.resetWindow env s.clock none id).1
      resets := (s.committed e).toList ++ s.resets }
  | .record x => { s with users := s.users.record s.clock x }
  | .setInterval id interval => match s.users.setUserQuotaInterval s.clock id interval with
    | some users => { s with users := users }
    | none => s

/-- The loop has not run yet. -/
def start (users : UserDb) (clock : ℤ) : QuotaLoop := ⟨users, clock, clock, [], none, false, [], [], []⟩

/-- What the windows are for. A reset comes after the stored boundary, which lies after the last reset of the user, and
    takes away what was used; a boundary is moved after a reset, unless the interval is set; and when a scan is worked
    off without an error, no boundary from before it is left. -/
structure Promises (s : QuotaLoop) (e : QuotaEv) : Prop where
  due : ∀ r ∈ s.committed e, ∃ b, r.boundary = some b ∧ b ≤ s.clock ∧ ∀ r' ∈ s.resets, r'.user = r.user → r'.time < b
  used : (∀ x, e ≠ .record x) → ∀ id, (s.step e).users.db.used id =
    if (s.committed e).map (·.user) = some id then 0 else s.users.db.used id
  moved : ∀ id b, s.users.boundary id = some b → (s.step e).users.boundary id ≠ some b →
    (∃ interval, e = .setInterval id interval) ∨ ∃ r ∈ s.resets, r.user = id ∧ r.boundary = some b
  complete : (s.step e).hand = [] → (s.step e).clean →
    ∀ id b, (s.step e).users.boundary id = some b → (s.step e).scannedAt < b

/-- No other master is in its loop; a committed reset is answered, of a user that can be read, and its boundary is moved
    before anything ends the loop; and nobody sets the interval of a user that the loop has in hand. -/
def Unbroken : QuotaEv → Prop
  | .reset env _ fault => fault ≠ some .lost ∧
      ∀ x ∈ s.todo.head?, ∀ u, s.users.db.users.find? x.1 = some u → (env.decryptUser u).toOption.isSome
  | .advance written _ _ _ => written = true
  | .crash => s.reset = none
  | .elsewhere _ _ => False
  | .setInterval id _ => id ∉ s.hand
  | .wait _ | .tick _ _ | .record _ => True

end QuotaLoop

/-! ### The boundary of a user -/

namespace UserDb

variable {s t : UserDb} {now : ℤ} {id j : Uuid}

theorem boundary_eq_some {b : ℤ} : s.boundary id = some b ↔
    (s.db.users.find? id).isSome ∧ (s.profile id).quotaInterval ≠ "none" ∧ (s.profile id).quotaResetAt = some b := by
  rw [boundary]
  split
  · rename_i h
    exact ⟨fun hb => ⟨h.1, h.2, hb⟩, fun hb => hb.2.2⟩
  · rename_i h
    exact ⟨nofun, fun hb => absurd ⟨hb.1, hb.2.1⟩ h⟩

theorem boundary_congr (hthere : (t.db.users.find? id).isSome = (s.db.users.find? id).isSome)
    (hinterval : (t.profile id).quotaInterval = (s.profile id).quotaInterval)
    (hat : (t.profile id).quotaResetAt = (s.profile id).quotaResetAt) : t.boundary id = s.boundary id := by
  rw [boundary, boundary, hthere, hinterval, hat]

theorem mem_dueQuotaResets : id ∈ (s.dueQuotaResets now).map (·.1) ↔ ∃ b, s.boundary id = some b ∧ b ≤ now := by
  simp only [dueQuotaResets, map_map, mem_map, mem_filter, decide_eq_true_eq, Function.comp_apply]
  constructor
  · rintro ⟨u, ⟨hrow, hinterval, hat⟩, rfl⟩
    obtain ⟨b, hb, hle⟩ := (Option.any_eq_true _ _).mp hat
    refine ⟨b, boundary_eq_some.mpr ⟨?_, hinterval, hb⟩, of_decide_eq_true hle⟩
    rw [Table.find?_eq_some.mpr ⟨hrow, rfl⟩]
    rfl
  · rintro ⟨b, hb, hle⟩
    obtain ⟨hthere, hinterval, hat⟩ := boundary_eq_some.mp hb
    obtain ⟨u, hu⟩ := Option.isSome_iff_exists.mp hthere
    obtain ⟨hrow, rfl⟩ := Table.find?_eq_some.mp hu
    exact ⟨u, ⟨hrow, hinterval, by simpa [hat] using hle⟩, rfl⟩

theorem due_users_nodup (s : UserDb) (now : ℤ) : ((s.dueQuotaResets now).map (·.1)).Nodup := by
  rw [dueQuotaResets, map_map]
  exact s.db.users.nodup.sublist (filter_sublist.map _)

theorem profile_amend {f : Profile → Profile}
    {hf : ∀ p, (f p).id = p.id ∧ (f p).subscriptionAlias = p.subscriptionAlias} : (s.amend id now f hf).profile j =
      if j = id then { f (s.profile id) with updatedAt := now } else s.profile j := by
  rw [amend, profile_putProfile]
  have hid : (f (s.profile id)).id = id := (hf _).1.trans (s.profile_id id)
  simp [hid]

theorem boundary_amend {db : Db} (h : db.users.rows.map (·.username) = s.db.users.rows.map (·.username))
    (hthere : ∀ k, (db.users.find? k).isSome = (s.db.users.find? k).isSome) :
    ((s.withDb db h).amend id now (fun p => p) fun _ => ⟨rfl, rfl⟩).boundary j = s.boundary j := by
  have hprofile : ((s.withDb db h).amend id now (fun p => p) fun _ => ⟨rfl, rfl⟩).profile j =
      if j = id then { s.profile id with updatedAt := now } else s.profile j := profile_amend
  rcases eq_or_ne j id with rfl | hj
  · rw [if_pos rfl] at hprofile
    exact boundary_congr (hthere j) (by rw [hprofile]) (by rw [hprofile])
  · rw [if_neg hj] at hprofile
    exact boundary_congr (hthere j) (by rw [hprofile]) (by rw [hprofile])

theorem isSome_find?_put {u v : User} (hid : u.id = id) (h : s.db.users.find? id = some v) (k : Uuid) :
    ((s.db.users.put u).find? k).isSome = (s.db.users.find? k).isSome := by
  rw [Table.find?_put]
  split
  · rename_i hk
    rw [hk, hid, h]
    rfl
  · rfl

theorem boundary_record (x : Sample) : (s.record now x).boundary j = s.boundary j := by
  rw [record]
  split
  · rename_i crossed hrecord
    refine boundary_amend _ fun k => ?_
    obtain ⟨u, -, hu, rfl, -⟩ := recordTraffic_ok hrecord
    obtain ⟨-, huid⟩ := Table.find?_eq_some.mp hu
    refine isSome_find?_put ?_ hu k
    exact huid
  · rfl

theorem boundary_resetTraffic (h : resetTraffic now id s = some t) : t.boundary j = s.boundary j := by
  obtain ⟨u, hu, rfl⟩ := Option.map_eq_some_iff.mp h
  obtain ⟨-, huid⟩ := Table.find?_eq_some.mp hu
  refine boundary_amend _ fun k => ?_
  simp only [resetUserTraffic, hu]
  refine isSome_find?_put ?_ hu k
  exact huid

theorem boundary_resetWindow {env : Env} {fault : Option ResetFault} :
    (s.resetWindow env now fault id).1.boundary j = s.boundary j := by
  rw [resetWindow]
  split
  · rfl
  split
  · rename_i hreset
    exact boundary_resetTraffic hreset
  · rfl

/-- A call that nothing disturbs, of a user that can be read. -/
theorem resetWindow_ok {env : Env} {u : User} (hu : s.db.users.find? id = some u)
    (hread : (env.decryptUser u).toOption.isSome) : (s.resetWindow env now none id).2 = true := by
  simp [resetWindow, resetTraffic, hu, hread]

theorem used_resetWindow {env : Env} {fault : Option ResetFault} : (s.resetWindow env now fault id).1.db.used j =
    if fault = some .refused ∨ (s.db.users.find? id).isNone then s.db.used j
    else if j = id then 0 else s.db.used j := by
  rw [resetWindow]
  by_cases hrefused : fault = some .refused
  · simp [hrefused]
  cases hu : s.db.users.find? id with
  | none => simp [hrefused]
  | some u =>
    simp only [hrefused, if_false, resetTraffic, hu, Option.map_some, Option.isNone_some, Bool.false_eq_true, or_self]
    exact used_reset s.db id j

theorem nextBoundary_gt (interval : String) : now < nextBoundary now interval := by
  rw [nextBoundary]
  split
  · omega
  · omega

theorem boundary_advance {b : ℤ} (next : ℤ) (hb : s.boundary id = some b) :
    (s.advanceQuotaReset now id next).boundary j = if j = id then some next else s.boundary j := by
  obtain ⟨hthere, hinterval, -⟩ := boundary_eq_some.mp hb
  rw [advanceQuotaReset, if_pos hthere]
  split
  · rename_i hj
    subst hj
    refine boundary_eq_some.mpr ⟨hthere, ?_⟩
    rw [profile_amend, if_pos rfl]
    exact ⟨hinterval, rfl⟩
  · rename_i hj
    refine boundary_congr rfl ?_ ?_ <;> rw [profile_amend, if_neg hj]

theorem boundary_setInterval {interval : String} (hset : s.setUserQuotaInterval now id interval = some t) :
    (∀ j ≠ id, t.boundary j = s.boundary j) ∧ ∀ b, t.boundary id = some b → now < b := by
  rw [setUserQuotaInterval] at hset
  split at hset
  swap
  · cases hset
  obtain rfl := Option.some.inj hset
  constructor
  · intro j hj
    refine boundary_congr rfl ?_ ?_ <;> rw [profile_amend, if_neg hj]
  · intro b hb
    obtain ⟨-, hinterval, hat⟩ := boundary_eq_some.mp hb
    rw [profile_amend, if_pos rfl] at hinterval hat
    simp only [if_neg hinterval, Option.some.injEq] at hat
    exact hat ▸ nextBoundary_gt interval

end UserDb

/-! ### The invariant -/

namespace QuotaLoop

/-- A user that waits has a boundary that has passed, one that is held was reset for its boundary, and nobody else has a
    boundary from before the scan. A boundary lies after the resets of its user, unless it is about to be moved. -/
structure Settled (s : QuotaLoop) : Prop where
  nodup : s.hand.Nodup
  waiting : ∀ x ∈ s.todo, ∃ b, s.users.boundary x.1 = some b ∧ b ≤ s.scannedAt
  held : ∀ x ∈ s.reset, ∃ b, s.users.boundary x.1 = some b ∧ ∃ r ∈ s.resets, r.user = x.1 ∧ r.boundary = some b
  early : s.scannedAt ≤ s.clock
  seen : s.clean → ∀ id b, s.users.boundary id = some b → b ≤ s.scannedAt → id ∈ s.hand
  past : ∀ r ∈ s.resets, r.time ≤ s.clock
  fresh : ∀ r ∈ s.resets, ∀ b, s.users.boundary r.user = some b → r.time < b ∨ s.reset.map (·.1) = some r.user

variable {s : QuotaLoop}

theorem settled_start (users : UserDb) (clock : ℤ) : (start users clock).Settled where
  nodup := nodup_nil
  waiting _ hx := by cases hx
  held _ hx := by cases hx
  early := le_rfl
  seen hclean := by cases hclean
  past _ hr := by cases hr
  fresh _ hr := by cases hr

section

variable (h : s.Settled)
include h

theorem Settled.same {users : UserDb} (hsame : ∀ j, users.boundary j = s.users.boundary j) :
    Settled { s with users := users } where
  nodup := h.nodup
  waiting := by simpa only [hsame] using h.waiting
  held := by simpa only [hsame] using h.held
  early := h.early
  seen hclean j b hb := h.seen hclean j b ((hsame j).symm.trans hb)
  past := h.past
  fresh := by simpa only [hsame] using h.fresh

/-- While the loop is about to reset, every boundary lies after the resets of its user. -/
theorem Settled.unheld (hnone : s.reset = none) :
    ∀ r ∈ s.resets, ∀ b, s.users.boundary r.user = some b → r.time < b := by
  intro r hr b hb
  refine (h.fresh r hr b hb).resolve_right fun hheld => ?_
  rw [hnone] at hheld
  cases hheld

theorem settled_wait (d : ℕ) : (s.step (.wait d)).Settled :=
  { h with
    early := h.early.trans (by simp [step])
    past := fun r hr => (h.past r hr).trans (by simp [step]) }

theorem settled_tick (leader fault : Bool) : (s.step (.tick leader fault)).Settled := by
  rw [step]
  split
  swap
  · exact h
  rename_i hgo
  have hhand : hand { s with scannedAt := s.clock, todo := s.users.dueQuotaResets s.clock, clean := true } =
      (s.users.dueQuotaResets s.clock).map (·.1) := by simp [hand, hgo.2.1]
  refine ⟨hhand ▸ due_users_nodup _ _, fun x hx => mem_dueQuotaResets.mp (mem_map_of_mem hx), h.held,
    le_rfl, fun _ id b hb hle => ?_, h.past, h.fresh⟩
  rw [hhand]
  exact mem_dueQuotaResets.mpr ⟨b, hb, hle⟩

theorem settled_crash (hu : s.Unbroken .crash) : (s.step .crash).Settled :=
  ⟨nodup_nil, nofun, nofun, h.early, nofun, h.past, fun r hr b hb => .inl (h.unheld hu r hr b hb)⟩

theorem settled_setInterval {id : Uuid} {interval : String} (hu : s.Unbroken (.setInterval id interval)) :
    (s.step (.setInterval id interval)).Settled := by
  rw [step]
  split
  swap
  · exact h
  rename_i users hset
  obtain ⟨hothers, hlater⟩ := boundary_setInterval hset
  have hhand : ∀ j ∈ s.hand, users.boundary j = s.users.boundary j := fun j hj => hothers j (ne_of_mem_of_not_mem hj hu)
  refine ⟨h.nodup, fun x hx => ?_, fun x hx => ?_, h.early, fun hclean j b hb hle => ?_, h.past, fun r hr b hb => ?_⟩
  · rw [hhand x.1 (mem_append_right _ (mem_map_of_mem hx))]
    exact h.waiting x hx
  · rw [hhand x.1 (mem_append_left _ (mem_map_of_mem (Option.mem_toList.mpr hx)))]
    exact h.held x hx
  · by_cases hj : j = id
    · exact absurd (hlater b (hj ▸ hb)) (not_lt.mpr (hle.trans h.early))
    · exact h.seen hclean j b ((hothers j hj).symm.trans hb) hle
  · by_cases hid : r.user = id
    · exact .inl ((h.past r hr).trans_lt (hlater b (hid ▸ hb)))
    · exact h.fresh r hr b ((hothers r.user hid).symm.trans hb)

theorem settled_reset {env : Env} {nodesFault : Bool} {fault : Option ResetFault}
    (hu : s.Unbroken (.reset env nodesFault fault)) : (s.step (.reset env nodesFault fault)).Settled := by
  rw [step]
  split
  swap
  · exact h
  rename_i id interval todo htodo hnone
  have hsame : ∀ j, (s.users.resetWindow env s.clock fault id).1.boundary j = s.users.boundary j :=
    fun j => boundary_resetWindow
  have hhand : s.hand = id :: todo.map (·.1) := by simp [hand, htodo, hnone]
  have hnodup := h.nodup
  rw [hhand] at hnodup
  obtain ⟨b, hb, -⟩ := h.waiting _ (htodo ▸ mem_cons_self)
  obtain ⟨hthere, -, hat⟩ := boundary_eq_some.mp hb
  obtain ⟨u, hfind⟩ := Option.isSome_iff_exists.mp hthere
  have hwaiting := fun x hx => (h.same hsame).waiting x (htodo ▸ mem_cons_of_mem _ hx)
  have hunheld := (h.same hsame).unheld hnone
  rcases fault with _ | _ | _
  · have hok : (s.users.resetWindow env s.clock none id).2 = true :=
      resetWindow_ok hfind (hu.2 _ (by rw [htodo]; rfl) u hfind)
    have hcommitted : s.committed (.reset env nodesFault none) = some ⟨id, some b, s.clock⟩ := by
      simp [committed, resetOf, htodo, hnone, hfind, hat]
    simp only [hok, hcommitted, if_true, Bool.and_true]
    refine ⟨hnodup, hwaiting, fun x hx => ?_, h.early, fun hclean j b' hb' hle => ?_,
      forall_mem_cons.mpr ⟨le_rfl, h.past⟩, forall_mem_cons.mpr ⟨fun _ _ => .inr rfl, fun r hr b' hb' => ?_⟩⟩
    · obtain rfl := Option.some.inj hx
      exact ⟨b, (hsame id).trans hb, _, mem_cons_self, rfl, rfl⟩
    · have hmem := (h.same hsame).seen hclean j b' hb' hle
      exact (hhand ▸ hmem : j ∈ id :: todo.map (·.1))
    · exact .inl (hunheld r hr b' hb')
  · -- rolled back: the window waits for the next scan
    have hok : (s.users.resetWindow env s.clock (some .refused) id).2 = false := rfl
    have hcommitted : s.committed (.reset env nodesFault (some .refused)) = none := by
      simp [committed, resetOf, htodo, hnone]
    simp only [hok, hcommitted, Bool.false_eq_true, if_false, Bool.and_false]
    exact ⟨(nodup_cons.mp hnodup).2, hwaiting, nofun, h.early, nofun, h.past,
      fun r hr b' hb' => .inl (hunheld r hr b' hb')⟩
  · exact absurd rfl hu.1

theorem settled_advance {written : Bool} {settings : List (String × String)} {connected : List Uuid} {date : String}
    (hu : s.Unbroken (.advance written settings connected date)) :
    (s.step (.advance written settings connected date)).Settled := by
  obtain rfl : written = true := hu
  rw [step]
  split
  swap
  · exact h
  rename_i id interval nodes hreset
  obtain ⟨b, hb, -⟩ := h.held _ hreset
  have hself : ∀ b', (s.users.advanceQuotaReset s.clock id (nextBoundary s.clock interval)).boundary id = some b' →
      s.clock < b' := by
    intro b' hb'
    rw [boundary_advance _ hb, if_pos rfl, Option.some.injEq] at hb'
    exact hb' ▸ nextBoundary_gt interval
  have hothers : ∀ j ≠ id, (s.users.advanceQuotaReset s.clock id (nextBoundary s.clock interval)).boundary j =
      s.users.boundary j := fun j hj => by rw [boundary_advance _ hb, if_neg hj]
  have hhand : s.hand = id :: s.todo.map (·.1) := by simp [hand, hreset]
  have hnodup := h.nodup
  rw [hhand, nodup_cons] at hnodup
  refine ⟨hnodup.2, fun x hx => ?_, nofun, h.early, fun hclean j b' hb' hle => ?_, h.past, fun r hr b' hb' => .inl ?_⟩
  · simp only [if_true, hothers x.1 fun heq => hnodup.1 (heq ▸ mem_map_of_mem hx)]
    exact h.waiting x hx
  · by_cases hj : j = id
    · exact absurd (hself b' (hj ▸ hb')) (not_lt.mpr (hle.trans h.early))
    · have hmem := h.seen (by simpa using hclean) j b' ((hothers j hj).symm.trans hb') hle
      rw [hhand] at hmem
      exact (mem_cons.mp hmem).resolve_left hj
  · by_cases hid : r.user = id
    · exact (h.past r hr).trans_lt (hself b' (hid ▸ hb'))
    · refine (h.fresh r hr b' ((hothers r.user hid).symm.trans hb')).resolve_right fun hheld => hid ?_
      rw [hreset] at hheld
      exact (Option.some.inj hheld).symm

theorem settled_step (e : QuotaEv) (hu : s.Unbroken e) : (s.step e).Settled := by
  cases e with
  | wait d => exact settled_wait h d
  | tick leader fault => exact settled_tick h leader fault
  | reset env nodesFault fault => exact settled_reset h hu
  | advance written settings connected date => exact settled_advance h hu
  | crash => exact settled_crash h hu
  | elsewhere env id => exact hu.elim
  | record x => exact h.same fun _ => boundary_record x
  | setInterval id interval => exact settled_setInterval h hu

theorem Settled.due {e : QuotaEv} (hu : s.Unbroken e) : ∀ r ∈ s.committed e, ∃ b, r.boundary = some b ∧
    b ≤ s.clock ∧ ∀ r' ∈ s.resets, r'.user = r.user → r'.time < b := by
  intro r hr
  cases e with
  | reset env nodesFault fault =>
    rw [committed] at hr
    split at hr
    swap
    · cases hr
    rename_i id interval todo htodo hnone
    rw [resetOf] at hr
    split at hr
    · cases hr
    obtain rfl := Option.some.inj hr
    obtain ⟨b, hb, hle⟩ := h.waiting _ (htodo ▸ mem_cons_self)
    refine ⟨b, (boundary_eq_some.mp hb).2.2, hle.trans h.early, fun r' hr' huser => ?_⟩
    exact h.unheld hnone r' hr' b (huser ▸ hb)
  | elsewhere env id => exact hu.elim
  | _ => cases hr

theorem Settled.moved (e : QuotaEv) {id : Uuid} {b : ℤ} (hb : s.users.boundary id = some b)
    (hne : (s.step e).users.boundary id ≠ some b) :
    (∃ interval, e = .setInterval id interval) ∨ ∃ r ∈ s.resets, r.user = id ∧ r.boundary = some b := by
  cases e with
  | wait d | crash => exact absurd hb hne
  | tick leader fault =>
    rw [step] at hne
    split at hne <;> exact absurd hb hne
  | record x => exact absurd ((boundary_record x).trans hb) hne
  | elsewhere env id' => exact absurd (boundary_resetWindow.trans hb) hne
  | reset env nodesFault fault =>
    rw [step] at hne
    split at hne
    · exact absurd (boundary_resetWindow.trans hb) hne
    · exact absurd hb hne
  | advance written settings connected date =>
    rw [step] at hne
    split at hne
    swap
    · exact absurd hb hne
    rename_i id' interval nodes hreset
    cases written with
    | false => exact absurd hb hne
    | true =>
      obtain ⟨b', hb', r, hr, huser, hboundary⟩ := h.held _ hreset
      by_cases hid : id = id'
      · obtain rfl : b' = b := Option.some.inj (hb'.symm.trans (hid ▸ hb))
        exact .inr ⟨r, hr, huser.trans hid.symm, hboundary⟩
      · simp only [if_true, boundary_advance _ hb', if_neg hid] at hne
        exact absurd hb hne
  | setInterval id' interval =>
    by_cases hid : id = id'
    · exact .inl ⟨interval, by rw [hid]⟩
    rw [step] at hne
    split at hne
    · rename_i users hset
      exact absurd (((boundary_setInterval hset).1 id hid).trans hb) hne
    · exact absurd hb hne

end

theorem used_step (s : QuotaLoop) {e : QuotaEv} (he : ∀ x, e ≠ .record x) (id : Uuid) :
    (s.step e).users.db.used id = if (s.committed e).map (·.user) = some id then 0 else s.users.db.used id := by
  have hreset : ∀ env fault id', (s.users.resetWindow env s.clock fault id').1.db.used id =
      if (s.resetOf fault id').map (·.user) = some id then 0 else s.users.db.used id := by
    intro env fault id'
    rw [used_resetWindow, resetOf]
    split
    · rfl
    · simp [eq_comm]
  cases e with
  | wait d | crash => rfl
  | record x => exact absurd rfl (he x)
  | elsewhere env id' => exact hreset env none id'
  | tick leader fault =>
    rw [step]
    split <;> rfl
  | reset env nodesFault fault =>
    rw [step, committed]
    split
    · exact hreset env fault _
    · rfl
  | advance written settings connected date =>
    rw [step]
    split
    · cases written with
      | false => rfl
      | true =>
        simp only [if_true, UserDb.advanceQuotaReset]
        split <;> rfl
    · rfl
  | setInterval id' interval =>
    rw [step]
    split
    · rename_i hset
      obtain rfl := Option.some.inj (Option.ite_none_right_eq_some.mp hset).2
      rfl
    · rfl

theorem Settled.promises {e : QuotaEv} (h : s.Settled) (hu : s.Unbroken e) : s.Promises e where
  due := h.due hu
  used := used_step s
  moved _ _ hb hne := h.moved e hb hne
  complete hidle hclean id b hb := by
    by_contra hle
    have hmem := (settled_step h e hu).seen hclean id b hb (not_lt.mp hle)
    rw [hidle] at hmem
    cases hmem

/-- In every run in which one master at a time is in the loop and a committed reset is always followed by the move of
    its boundary, a boundary lies between two resets of a user, and a scan without an error leaves none behind it. -/
theorem windows_reset_once (users : UserDb) (clock : ℤ) (es : List QuotaEv)
    (h : Always step Unbroken (start users clock) es) : Always step Promises (start users clock) es :=
  always_of_inv (fun _ e hs hu => settled_step hs e hu) (fun _ _ hs hu => hs.promises hu) es _
    (settled_start users clock) h

/-! ### A window that is reset twice -/

/-- One user with a daily window that ends at 100. -/
def windowed : UserDb where
  db := limited
  profiles := Table.empty.put { Profile.blank 7 with quotaInterval := "daily", quotaResetAt := some 100 }
  subscriptions := Table.empty
  usernames := by decide
  aliases := by decide

/-- What the user uses between two scans: 300 bytes. -/
def between : List QuotaEv :=
  [.wait 10, .record ⟨1, 7, .singbox, "e", 0, 0, 0⟩, .record ⟨1, 7, .singbox, "e", 300, 0, 0⟩]

/-- The reset of the user that is due. -/
def resetDue : QuotaEv := .reset plainEnv false none

/-- A master resets, moves the boundary and crashes; another one scans, and once more after the next boundary. -/
theorem windowed_reset_once : Always step Promises (start windowed 150)
      ([.tick true false, resetDue, .advance true [] [] "", .crash] ++ between ++
        [.tick true false, .wait 86400, .tick true false, resetDue]) :=
  windows_reset_once windowed 150 _ ⟨trivial, ⟨nofun, fun _ _ _ _ => rfl⟩, rfl, rfl, trivial, trivial, trivial, trivial,
    trivial, trivial, ⟨nofun, fun _ _ _ _ => rfl⟩, trivial⟩

/-- The event resets a user before its boundary, or again for a boundary that was reset. -/
def untimely (s : QuotaLoop) (e : QuotaEv) : Bool := (s.committed e).any fun r => r.boundary.all fun b =>
  s.clock < b ∨ s.resets.any fun r' => r'.user = r.user ∧ b ≤ r'.time

theorem not_promises {e : QuotaEv} (h : s.untimely e = true) : ¬ s.Promises e := by
  intro hp
  obtain ⟨r, hr, hbad⟩ := (Option.any_eq_true _ _).mp h
  obtain ⟨b, hb, hle, hlater⟩ := hp.due r hr
  rw [hb, Option.all_some, decide_eq_true_eq] at hbad
  rcases hbad with hlt | hany
  · exact absurd hle (not_le.mpr hlt)
  · obtain ⟨r', hr', hsame⟩ := any_eq_true.mp hany
    obtain ⟨huser, hle'⟩ := of_decide_eq_true hsame
    exact absurd (hlater r' hr' huser) (not_lt.mpr hle')

/-- The master crashes between the reset and the move of the boundary, the move fails, or the row of the user cannot be
    decrypted, and the next scan finds the same boundary; or another master has scanned at the same time. -/
def brokenRuns : List (List QuotaEv × QuotaEv) :=
  [([.tick true false, resetDue, .crash] ++ between ++ [.wait 50, .tick true false], resetDue),
    ([.tick true false, resetDue, .advance false [] [] ""] ++ between ++ [.wait 50, .tick true false], resetDue),
    ([.tick true false, .reset { plainEnv with decrypt := fun _ => .error "" } false none] ++ between ++
      [.wait 50, .tick true false], resetDue),
    ([.tick true false, resetDue, .advance true [] [] ""] ++ between, .elsewhere plainEnv 7)]

/-- The 300 bytes that were used since the reset are gone, a day before the next boundary. -/
theorem window_reset_twice : (brokenRuns.map fun (es, e) => ((es.foldl step (start windowed 150)).users.db.used 7,
      ((es ++ [e]).foldl step (start windowed 150)).users.db.used 7)) = List.replicate 4 (300, 0) ∧
    ¬ ∃ x ∈ brokenRuns, Always step Promises (start windowed 150) (x.1 ++ [x.2]) := by
  refine ⟨by decide +kernel, fun ⟨x, hx, h⟩ => ?_⟩
  have hbad : ∀ x ∈ brokenRuns, (x.1.foldl step (start windowed 150)).untimely x.2 = true := by decide +kernel
  exact not_promises (hbad x hx) ((always_append x.1 _ _).mp h).2.1

end QuotaLoop

end Honey.Master
