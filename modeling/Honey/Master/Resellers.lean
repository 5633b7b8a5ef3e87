import Honey.Master.Users

/-! Resellers and their users: creations under the caps of the account, edits of single users, and what the caps read.

        create   validate - account, count, ceiling - usage - groups - INSERT - grant
        edit     check - owned_user - one statement
        ledger   (id, owner, limit, used), one line a user

    Requests of one reseller run at the same time, statement by statement, between recordings of traffic.
    Every statement is a small change of the ledger (`run_ledger`, `insertUser_ledger`,
    `record_ledger`), and both caps are facts about the ledger. -/

namespace Honey.Master
open Honey.Schemes List Table UserDb Except

/-! ### Edits of a user -/

/-- A write of one user. -/
inductive Edit where
  | update (input : UpdateUserInput)
  | delete
  | rotate (password : Option String)
  | reset
  | rotateSubscription
  | setAlias (value : Option String)
  | setGroups (groups : List Uuid)
  | setLabels (labels : List String)
  | addSubscription (name : String)
  | deleteSubscription (sid : Uuid)

/-- What an edit draws. -/
structure EditDraw where
  uuid : Uuid
  password : String
  (token sid : Uuid)

/-- What the requests of a reseller read besides users: its account, the groups it may sell, and the
    groups there are. -/
structure Market where
  gate : Gate
  env : Env
  account : Admin
  (entitled known : List Uuid)

/-- The error of a validation. -/
def validated (x : Except String Unit) : Except Refusal Unit :=
  match x with
  | .ok () => .ok ()
  | .error message => .error (.badRequest message)

/-- `normalize_labels` of one label. -/
def normalizeLabel (raw : String) : Option String :=
  let label := (trim raw).toLower
  let allowed := label.toList.zipIdx.all fun c =>
    ('a' ≤ c.1 && c.1 ≤ 'z') || ('0' ≤ c.1 && c.1 ≤ '9') || (c.1 ∈ ['.', '_', ':', '-'] && 0 < c.2)
  if label = "" ∨ 40 < label.utf8ByteSize ∨ allowed = false then none else some label

def normalizeLabels (labels : List String) : Except Refusal (List String) :=
  if 16 < labels.length then .error (.badRequest "at most 16 labels are allowed")
  else match labels.mapM normalizeLabel with
    | none => .error (.badRequest "labels must be 1-40 lowercase letters, digits, '.', '_', ':' or '-'")
    | some labels => .ok (labels.insertionSort (· ≤ ·)).dedup

def userFound {α : Type} : Option α → Except Refusal α
  | some a => .ok a
  | none => .error (.notFound "user not found")

/-- The checks before the user is looked up. -/
def Edit.check : Edit → Except Refusal Unit
  | .update input => validated (validateUpdateUser input.toUpdateUser)
  | .rotate password =>
    if password = some "" then .error (.badRequest "password must not be empty") else .ok ()
  | _ => .ok ()

def ownedUser (env : Env) (r : Uuid) (s : UserDb) (id : Uuid) : Except Refusal Subscriber := do
  let a ← userFound (← getUser env s id)
  if a.profile.createdBy = some r then return a else throw (.forbidden "this user is outside your scope")

section

variable (m : Market) (now : ℤ) (x : EditDraw) (id : Uuid) (s : UserDb)

/-- `set_alias` after the lookup. -/
def writeAlias (value : Option String) : Except Refusal UserDb :=
  let value := (value.map trim).filter (· ≠ "")
  if h : ∀ a ∈ value, plainAlias a then (setUserAlias m.gate now id value h s).bind userFound
  else .error (.badRequest "alias must be 3-40 chars: letters, digits, - or _")

/-- `set_user_groups` after the lookup; the foreign key fails if the user is gone by then. -/
def writeGroups (groups : List Uuid) : Except Refusal UserDb :=
  if ¬ groups.all (· ∈ m.entitled) then
    .error (.forbidden "one or more groups are outside your entitlement")
  else if groups ≠ [] ∧ (s.db.users.find? id).isNone then .error .reference
  else s.setUserGroups m.known id groups

/-- `create_user_subscription` after the lookup. -/
def writeSubscription (name : String) : Except Refusal UserDb :=
  if trim name = "" ∨ 25 < (trim name).toList.length then
    .error (.badRequest "name is required (max 25 chars)")
  else if (s.db.users.find? id).isNone then .error .reference
  else createUserSubscription m.gate m.env now id x.sid x.token (trim name) s

/-- What follows on the lookup: the checks that are made then, and the statement. -/
def Edit.run : Edit → Except Refusal UserDb
  | .update input => (updateUserRow m.env now id input s).bind userFound
  | .delete => if (s.db.users.find? id).isSome then .ok (s.deleteUser id) else userFound none
  | .rotate password =>
    (rotateCredentials m.env now id x.uuid (password.getD x.password) s).bind userFound
  | .reset => userFound (resetTraffic now id s)
  | .rotateSubscription => (rotateSubscriptionToken m.gate m.env now id x.token s).bind userFound
  | .setAlias value => writeAlias m now id s value
  | .setGroups groups => writeGroups m id s groups
  | .setLabels labels => (normalizeLabels labels).bind fun labels => userFound (setUserLabels now id labels s)
  | .addSubscription name => writeSubscription m now x id s name
  | .deleteSubscription sid => match deleteUserSubscription id sid s with
    | some s => .ok s
    | none => .error (.notFound "subscription not found")

end

variable (m : Market) (now : ℤ)

/-- An edit by a reseller, on its own. -/
def editForReseller (x : EditDraw) (id : Uuid) (e : Edit) (s : UserDb) : Except Refusal UserDb := do
  e.check
  let _ ← ownedUser m.env m.account.id s id
  e.run m now x id s

/-! ### Creations -/

/-- The account's checks of `create_user` that read no other table. -/
def ceilingAllows (account : Admin) (limit : ℤ) : Except Refusal Unit :=
  if 0 < account.userTrafficCeilingBytes ∧ (limit ≤ 0 ∨ account.userTrafficCeilingBytes < limit) then
    .error (.forbidden s!"per-user traffic limit must be between 1 and {account.userTrafficCeilingBytes} bytes")
  else .ok ()

def capAllows (account : Admin) (owned : ℕ) : Except Refusal Unit :=
  if 0 < account.maxUsers ∧ account.maxUsers ≤ owned then
    .error (.forbidden s!"user limit reached ({owned} of {account.maxUsers})")
  else .ok ()

def budgetAllows (account : Admin) (used : ℤ) : Except Refusal Unit :=
  if 0 < account.trafficLimitBytes ∧ account.trafficLimitBytes ≤ used then
    .error (.forbidden "your traffic budget is exhausted — ask an admin to raise it")
  else .ok ()

def groupsAllow (entitled : List Uuid) : Except Refusal Unit :=
  if entitled = [] then .error (.forbidden "your account has no groups to sell yet — ask an admin")
  else .ok ()

/-- `create_user` of a reseller, on its own: the tables, and the answer. -/
def createForReseller (x : UserDraw) (input : CreateUserInput) (s : UserDb) : UserDb × Except Refusal Unit :=
  let checks := do
    validated (validateUser input.toNewUser)
    capAllows m.account (countUsersForCreator s m.account.id)
    ceilingAllows m.account input.trafficLimitBytes
    budgetAllows m.account (resellerTrafficUsed s m.account.id)
    groupsAllow m.entitled
    insertUser m.gate m.env now x (some m.account.id) input s
  match checks with
  | .error r => (s, .error r)
  | .ok s' => match s'.setUserGroups m.known x.id m.entitled with
    | .error r => (s', .error r)
    | .ok s'' => (s'', .ok ())

/-! ### Requests at the same time -/

inductive CreateStage where
  | count
  | usage
  | groups
  | insert
  | grant (id : Uuid)
  deriving DecidableEq

/-- A request that has passed the checks of its input. -/
inductive Task where
  | create (input : CreateUserInput) (stage : CreateStage)
  | edit (id : Uuid) (e : Edit) (owned : Bool)

structure Running where
  pid : ℕ
  task : Task

/-- The users, and the requests that are under way. -/
structure Shop where
  users : UserDb
  running : Table Running.pid

inductive ShopOrder where
  | create (input : CreateUserInput)
  | edit (id : Uuid) (e : Edit)

/-- What the statements of a request draw. -/
structure Draws where
  user : UserDraw
  edit : EditDraw

inductive ShopEvent where
  | begin (pid : ℕ) (order : ShopOrder)
  | next (pid : ℕ) (now : ℤ) (x : Draws) (fails : Bool)
  | record (now : ℤ) (sample : Sample)

/-- The request up to its first statement. -/
def ShopOrder.start : ShopOrder → Except Refusal Task
  | .create input => (validated (validateUser input.toNewUser)).map fun _ => .create input .count
  | .edit id e => e.check.map fun _ => .edit id e false

theorem usernames_record {db db' : Db} {x : Sample} {crossed : Bool} (h : recordTraffic db x = .ok (db', crossed)) :
    db'.users.rows.map (·.username) = db.users.rows.map (·.username) := by
  obtain ⟨u, -, hu, rfl, -⟩ := recordTraffic_ok h
  obtain ⟨-, huid⟩ := find?_eq_some.mp hu
  have hfind : db.users.find? u.id = some u := by rw [huid, hu]
  exact map_put_same hfind rfl

/-- `record_traffic`; the trigger stamps the user. -/
def UserDb.record (s : UserDb) (x : Sample) : UserDb :=
  match h : recordTraffic s.db x with
  | .ok (db', _) => (s.withDb db' (usernames_record h)).amend x.user now (fun p => p) UserDb.columns_kept
  | .error _ => s

/-- One statement of a creation: the tables, and the stage that follows, if one does. -/
def nextCreate (x : UserDraw) (s : UserDb) (input : CreateUserInput) :
    CreateStage → Except Refusal (UserDb × Option CreateStage)
  | .count => do
      capAllows m.account (countUsersForCreator s m.account.id)
      ceilingAllows m.account input.trafficLimitBytes
      return (s, some .usage)
  | .usage => do
      budgetAllows m.account (resellerTrafficUsed s m.account.id)
      return (s, some .groups)
  | .groups => do
      groupsAllow m.entitled
      return (s, some .insert)
  | .insert => do
      return (← insertUser m.gate m.env now x (some m.account.id) input s, some (.grant x.id))
  | .grant id => do
      if (s.db.users.find? id).isNone then throw .reference
      return (← s.setUserGroups m.known id m.entitled, none)

/-- One statement of a request. -/
def Task.next (x : Draws) (s : UserDb) : Task → Except Refusal (UserDb × Option Task)
  | .create input stage => (nextCreate m now x.user s input stage).map fun r =>
    (r.1, r.2.map (.create input))
  | .edit id e false => (ownedUser m.env m.account.id s id).map fun _ => (s, some (.edit id e true))
  | .edit id e true => (e.run m now x.edit id s).map fun s => (s, none)

namespace Shop

variable (m : Market) (s : Shop)

def finish (pid : ℕ) : Shop := { s with running := s.running.keep (·.pid ≠ pid) }

/-- A statement has been done; the request goes on or is answered. -/
def after (pid : ℕ) (users : UserDb) : Option Task → Shop
  | none => { s.finish pid with users := users }
  | some task => ⟨users, s.running.put ⟨pid, task⟩⟩

def step : ShopEvent → Shop
  | .begin pid order =>
    if (s.running.find? pid).isSome then s
    else match order.start with
      | .ok task => { s with running := s.running.put ⟨pid, task⟩ }
      | .error _ => s
  | .next pid now x fails => match s.running.find? pid with
    | none => s
    | some r =>
      if fails then s.finish pid
      else match r.task.next m now x s.users with
        | .error _ => s.finish pid
        | .ok (users, task) => s.after pid users task
  | .record now sample => { s with users := s.users.record now sample }

/-- Nothing is under way. -/
def start (users : UserDb) : Shop := ⟨users, Table.empty⟩

@[simp] theorem after_users (pid : ℕ) (users : UserDb) (o : Option Task) :
    (s.after pid users o).users = users := by cases o <;> rfl

/-- What a step can do: leave the users alone while a request begins or ends, take a statement of a request, or
    record traffic. -/
theorem step_cases (e : ShopEvent) :
    ((s.step m e).users = s.users ∧ (s.step m e = s ∨ (∃ pid, s.step m e = s.finish pid) ∨
      ∃ pid order task, s.running.find? pid = none ∧ ShopOrder.start order = .ok task ∧
        s.step m e = { s with running := s.running.put ⟨pid, task⟩ })) ∨
    (∃ pid now x r users o, e = .next pid now x false ∧ s.running.find? pid = some r ∧
      r.task.next m now x s.users = .ok (users, o) ∧ s.step m e = s.after pid users o) ∨
    ∃ now sample, e = .record now sample ∧ s.step m e = { s with users := s.users.record now sample } := by
  cases e with
  | begin pid order =>
    rw [step]
    split
    · exact .inl ⟨rfl, .inl rfl⟩
    rename_i hfree
    cases hstart : order.start with
    | error r => exact .inl ⟨rfl, .inl rfl⟩
    | ok task =>
      exact .inl ⟨rfl, .inr (.inr ⟨pid, order, task, Option.not_isSome_iff_eq_none.mp hfree, hstart, rfl⟩)⟩
  | next pid now x fails =>
    rw [step]
    rcases hr : s.running.find? pid with _ | r
    · exact .inl ⟨rfl, .inl rfl⟩
    cases fails with
    | true => exact .inl ⟨rfl, .inr (.inl ⟨pid, rfl⟩)⟩
    | false =>
      cases hnext : r.task.next m now x s.users with
      | error e => exact .inl ⟨by simp [hnext, finish], .inr (.inl ⟨pid, by simp [hnext]⟩)⟩
      | ok next =>
        exact .inr (.inl ⟨pid, now, x, r, next.1, next.2, rfl, hr, hnext, by simp [hnext]⟩)
  | record now sample => exact .inr (.inr ⟨now, sample, rfl, rfl⟩)

end Shop

/-! ### What an edit can do -/

/-- The tables after an edit of a user. -/
inductive Edited (now : ℤ) (id : Uuid) (s : UserDb) : Edit → UserDb → Prop where
  | update {input : UpdateUserInput} {u : User} (password : Option String) (hu : s.db.users.find? id = some u)
      (hfree : s.NameFree ({ input.toUpdateUser with password := password }.apply u).id
        ({ input.toUpdateUser with password := password }.apply u).username) :
      Edited now id s (.update input) ((s.putUser ({ input.toUpdateUser with password := password }.apply u)
        hfree).amend id now input.amend fun _ => ⟨rfl, rfl⟩)
  | delete : Edited now id s .delete (s.deleteUser id)
  | rotate {password : Option String} (uuid stored : String) :
      Edited now id s (.rotate password) ((s.changeUser id (fun u => { u with uuid := uuid, password := stored })
        fun _ => ⟨rfl, rfl⟩).amend id now (fun p => p) fun _ => ⟨rfl, rfl⟩)
  | reset {u : User} (hu : s.db.users.find? id = some u) :
      Edited now id s .reset ((s.withDb (resetUserTraffic s.db id) (usernames_reset s.db id)).amend id now
        (fun p => p) fun _ => ⟨rfl, rfl⟩)
  | rotateSubscription (hash token : String) : Edited now id s .rotateSubscription (s.amend id now
        (fun p => { p with subscriptionTokenHash := hash, subscriptionTokenEnc := some token }) fun _ => ⟨rfl, rfl⟩)
  | setAlias {value stored : Option String} (h : ∀ a ∈ stored, plainAlias a) : Edited now id s (.setAlias value)
        (s.putProfile { s.profile id with subscriptionAlias := stored, updatedAt := now } h)
  | setGroups {groups known : List Uuid} {s' : UserDb} (h : s.setUserGroups known id groups = .ok s') :
      Edited now id s (.setGroups groups) s'
  | setLabels {labels : List String} (stored : List String) :
      Edited now id s (.setLabels labels) (s.amend id now (fun p => { p with labels := stored }) fun _ => ⟨rfl, rfl⟩)
  | addSubscription {name : String} {row : UserSubscription} (hnew : s.subscriptions.find? row.id = none)
      (howner : row.userId = id) :
      Edited now id s (.addSubscription name) { s with subscriptions := s.subscriptions.put row }
  | deleteSubscription {sid : Uuid} {row : UserSubscription} (hrow : s.subscriptions.find? sid = some row)
      (howner : row.userId = id) :
      Edited now id s (.deleteSubscription sid) { s with subscriptions := s.subscriptions.keep (·.id ≠ sid) }

section

variable {g : Gate} {env : Env} {m : Market} {now : ℤ} {id : Uuid} {s s' : UserDb} {x : EditDraw}

theorem userFound_eq_ok {α : Type} {x : Option α} {a : α} : userFound x = .ok a ↔ x = some a := by
  cases x <;> simp [userFound]

theorem updateUserRow_ok {input : UpdateUserInput} (h : updateUserRow env now id input s = .ok (some s')) :
    Edited now id s (.update input) s' := by
  obtain ⟨password, -, h⟩ := bind_eq_ok.mp h
  rcases hu : s.db.users.find? id with _ | u
  · simp [hu, pure, Except.pure] at h
  simp only [hu] at h
  split at h
  · cases h
  split at h
  · rename_i hfree
    obtain rfl := Option.some.inj (ok.inj h)
    exact .update password hu hfree
  · cases h

theorem rotateCredentials_ok {uuid : Uuid} {password : String} {given : Option String}
    (h : rotateCredentials env now id uuid password s = .ok (some s')) : Edited now id s (.rotate given) s' := by
  obtain ⟨stored, -, h⟩ := bind_eq_ok.mp h
  obtain ⟨uuid, -, h⟩ := bind_eq_ok.mp h
  obtain ⟨u, -, rfl⟩ := Option.map_eq_some_iff.mp (ok.inj h)
  exact .rotate uuid stored

theorem rotateSubscriptionToken_ok {token : Uuid}
    (h : rotateSubscriptionToken g env now id token s = .ok (some s')) : Edited now id s .rotateSubscription s' := by
  obtain ⟨tokenEnc, -, h⟩ := bind_eq_ok.mp h
  rcases hu : s.db.users.find? id with _ | u
  · simp [hu, pure, Except.pure] at h
  simp only [hu] at h
  split at h
  · cases h
  · obtain rfl := Option.some.inj (ok.inj h)
    exact .rotateSubscription _ tokenEnc

theorem writeAlias_ok {value : Option String} (h : writeAlias m now id s value = .ok s') :
    Edited now id s (.setAlias value) s' := by
  rw [writeAlias] at h
  split at h
  · rename_i hplain
    obtain ⟨_, ho, h⟩ := bind_eq_ok.mp h
    obtain rfl := userFound_eq_ok.mp h
    rw [setUserAlias] at ho
    split at ho
    · cases ho
    · split at ho
      · cases ho
      · obtain rfl := Option.some.inj (ok.inj ho)
        exact .setAlias hplain
  · cases h

theorem writeGroups_ok {groups : List Uuid} (h : writeGroups m id s groups = .ok s') :
    s.setUserGroups m.known id groups = .ok s' := by
  rw [writeGroups] at h
  split at h
  · cases h
  · split at h
    · cases h
    · exact h

theorem writeSubscription_ok {name : String} (h : writeSubscription m now x id s name = .ok s') :
    Edited now id s (.addSubscription name) s' := by
  rw [writeSubscription] at h
  split at h
  · cases h
  split at h
  · cases h
  obtain ⟨tokenEnc, -, h⟩ := bind_eq_ok.mp h
  split at h
  · cases h
  · rename_i hnew
    obtain rfl := ok.inj h
    exact .addSubscription (by simpa using fun h => hnew (.inl h)) rfl

theorem deleteUserSubscription_some {sid : Uuid} (h : deleteUserSubscription id sid s = some s') :
    Edited now id s (.deleteSubscription sid) s' := by
  rw [deleteUserSubscription] at h
  split at h
  · rename_i hown
    cases hrow : s.subscriptions.find? sid with
    | none => simp [hrow] at hown
    | some row =>
      obtain rfl := Option.some.inj h
      exact .deleteSubscription hrow (by simpa [hrow] using hown)
  · cases h

theorem run_edited {e : Edit} (h : e.run m now x id s = .ok s') : Edited now id s e s' := by
  cases e with
  | update input =>
    obtain ⟨_, ho, h⟩ := bind_eq_ok.mp h
    obtain rfl := userFound_eq_ok.mp h
    exact updateUserRow_ok ho
  | delete =>
    rw [Edit.run] at h
    split at h
    · obtain rfl := ok.inj h
      exact .delete
    · cases h
  | rotate password =>
    obtain ⟨_, ho, h⟩ := bind_eq_ok.mp h
    obtain rfl := userFound_eq_ok.mp h
    exact rotateCredentials_ok ho
  | reset =>
    obtain ⟨u, hu, rfl⟩ := Option.map_eq_some_iff.mp (userFound_eq_ok.mp h)
    exact .reset hu
  | rotateSubscription =>
    obtain ⟨_, ho, h⟩ := bind_eq_ok.mp h
    obtain rfl := userFound_eq_ok.mp h
    exact rotateSubscriptionToken_ok ho
  | setAlias value => exact writeAlias_ok h
  | setGroups groups => exact .setGroups (writeGroups_ok h)
  | setLabels labels =>
    obtain ⟨stored, -, h⟩ := bind_eq_ok.mp h
    obtain ⟨u, -, rfl⟩ := Option.map_eq_some_iff.mp (userFound_eq_ok.mp h)
    exact .setLabels stored
  | addSubscription name => exact writeSubscription_ok h
  | deleteSubscription sid =>
    rw [Edit.run] at h
    split at h
    · rename_i hdel
      obtain rfl := ok.inj h
      exact deleteUserSubscription_some hdel
    · cases h

end

/-! ### The ledger -/

/-- What the caps read of a user. -/
structure Line where
  id : Uuid
  owner : Option Uuid
  (limit used : ℤ)
  deriving DecidableEq

def UserDb.line (s : UserDb) (u : User) : Line :=
  ⟨u.id, (s.profile u.id).createdBy, u.trafficLimitBytes, u.usedTrafficBytes⟩

def UserDb.ledger (s : UserDb) : List Line := s.db.users.rows.map s.line

/-- A change of one user's line. -/
def amendLine (id : Uuid) (f : Line → Line) (ls : List Line) : List Line :=
  ls.map fun l => if l.id = id then f l else l

/-- What an edit does to the ledger. -/
def Edit.effect (id : Uuid) : Edit → List Line → List Line
  | .update input => amendLine id fun l => { l with limit := input.trafficLimitBytes.getD l.limit }
  | .delete => List.filter (·.id ≠ id)
  | .reset => amendLine id fun l => { l with used := 0 }
  | _ => fun ls => ls

section

variable {g : Gate} {env : Env} {m : Market} {now : ℤ} {id : Uuid} {s s' : UserDb}

theorem UserDb.profile_id (s : UserDb) (id : Uuid) : (s.profile id).id = id := by
  rw [profile]
  cases h : s.profiles.find? id with
  | none => rfl
  | some p => exact (find?_eq_some.mp h).2

theorem UserDb.profile_putProfile (s : UserDb) (p : Profile) (hp : ∀ a ∈ p.subscriptionAlias, plainAlias a)
    (id : Uuid) : (s.putProfile p hp).profile id = if id = p.id then p else s.profile id := by
  simp only [profile, putProfile, find?_put]
  split <;> rfl

theorem ledger_putProfile {p : Profile} {hp : ∀ a ∈ p.subscriptionAlias, plainAlias a}
    (h : p.createdBy = (s.profile p.id).createdBy) : (s.putProfile p hp).ledger = s.ledger := by
  refine map_congr_left fun u _ => ?_
  rw [line, line, profile_putProfile]
  split
  · rename_i hid
    rw [h, hid]
  · rfl

theorem ledger_amend {f : Profile → Profile} {hf : ∀ p, (f p).id = p.id ∧ (f p).subscriptionAlias = p.subscriptionAlias}
    (h : (f (s.profile id)).createdBy = (s.profile id).createdBy) : (s.amend id now f hf).ledger = s.ledger := by
  refine ledger_putProfile ?_
  rw [(hf _).1, profile_id, h]

theorem amendLine_congr {f f' : Line → Line} {ls : List Line} (h : ∀ l ∈ ls, l.id = id → f l = f' l) :
    amendLine id f ls = amendLine id f' ls := by
  refine map_congr_left fun l hl => ?_
  split
  · exact h l hl ‹_›
  · rfl

theorem line_of_mem {u : User} (hu : s.db.users.find? id = some u) {l : Line} (hl : l ∈ s.ledger)
    (hid : l.id = id) : l = s.line u := by
  obtain ⟨v, hv, rfl⟩ := mem_map.mp hl
  obtain ⟨hmem, huid⟩ := find?_eq_some.mp hu
  rw [inj_on_of_nodup_map s.db.users.nodup hv hmem (hid.trans huid.symm)]

theorem lines_put (s : UserDb) (u : User) {old : User} (h : s.db.users.find? u.id = some old) :
    (s.db.users.put u).rows.map s.line =
      amendLine u.id (fun l => { l with limit := u.trafficLimitBytes, used := u.usedTrafficBytes }) s.ledger := by
  rw [rows_put_old h, ledger, amendLine, map_map, map_map]
  refine map_congr_left fun v _ => ?_
  simp only [Function.comp_apply]
  by_cases hv : v.id = u.id
  · rw [if_pos hv, if_pos (show (s.line v).id = u.id from hv), line, line, hv]
  · rw [if_neg hv, if_neg (show (s.line v).id ≠ u.id from hv)]

theorem ledger_changeUser {f : User → User} {hf : ∀ u, (f u).id = u.id ∧ (f u).username = u.username}
    (h : ∀ u, (f u).trafficLimitBytes = u.trafficLimitBytes ∧ (f u).usedTrafficBytes = u.usedTrafficBytes) :
    (s.changeUser id f hf).ledger = s.ledger := by
  simp only [ledger, changeUser, withDb, alter, map_map]
  refine map_congr_left fun u _ => ?_
  rw [Function.comp_apply]
  split
  · simp only [line, (hf u).1, (h u).1, (h u).2]
    rfl
  · rfl

theorem update_ledger {input : UpdateUserInput} {u v : User} {password : Option String}
    {hfree : s.NameFree v.id v.username} (hu : s.db.users.find? id = some u)
    (hv : v = { input.toUpdateUser with password := password }.apply u) :
    ((s.putUser v hfree).amend id now input.amend fun _ => ⟨rfl, rfl⟩).ledger =
      (Edit.update input).effect id s.ledger := by
  obtain ⟨-, huid⟩ := find?_eq_some.mp hu
  rw [ledger_amend rfl]
  refine (lines_put s v (by rw [hv, UpdateUser.apply, huid, hu])).trans ?_
  rw [hv, UpdateUser.apply, huid]
  refine amendLine_congr fun l hl hid => ?_
  rw [line_of_mem hu hl hid]
  rfl

theorem reset_ledger {u : User} (hu : s.db.users.find? id = some u) :
    ((s.withDb (resetUserTraffic s.db id) (usernames_reset s.db id)).amend id now (fun p => p)
      fun _ => ⟨rfl, rfl⟩).ledger = Edit.effect id .reset s.ledger := by
  obtain ⟨-, huid⟩ := find?_eq_some.mp hu
  rw [ledger_amend rfl]
  have hput := lines_put s { u with usedTrafficBytes := 0 } (by rw [huid, hu])
  simp only [resetUserTraffic, hu]
  refine hput.trans ?_
  rw [huid]
  refine amendLine_congr fun l hl hid => ?_
  rw [line_of_mem hu hl hid]
  rfl

theorem UserDb.profile_deleteUser (s : UserDb) {id j : Uuid} (h : j ≠ id) :
    (s.deleteUser id).profile j = s.profile j := by
  have hfind : (s.profiles.keep (·.id ≠ id)).find? j = if j = id then none else s.profiles.find? j := find?_keep_ne
  rw [if_neg h] at hfind
  rw [profile, profile, ← hfind]
  rfl

theorem delete_ledger : (s.deleteUser id).ledger = Edit.effect id .delete s.ledger := by
  simp only [ledger, Edit.effect, filter_map]
  refine map_congr_left fun u hu => ?_
  have hid : u.id ≠ id := by simpa using (mem_filter.mp hu).2
  rw [line, line, s.profile_deleteUser hid]

theorem groups_ledger {known groups : List Uuid} (h : s.setUserGroups known id groups = .ok s') :
    s'.ledger = s.ledger := by
  rw [setUserGroups] at h
  split at h
  · cases h
    rfl
  · cases h

/-- Every edit is its change of the ledger. -/
theorem run_ledger {x : EditDraw} {e : Edit} (h : e.run m now x id s = .ok s') : s'.ledger = e.effect id s.ledger := by
  cases run_edited h with
  | update password hu hfree => exact update_ledger hu rfl
  | delete => exact delete_ledger
  | rotate uuid stored =>
    rw [ledger_amend rfl]
    exact ledger_changeUser fun _ => ⟨rfl, rfl⟩
  | reset hu => exact reset_ledger hu
  | rotateSubscription hash token | setLabels stored => exact ledger_amend rfl
  | setAlias hstored =>
    refine ledger_putProfile ?_
    simp [profile_id]
  | setGroups h => exact groups_ledger h
  | addSubscription hnew howner => rfl
  | deleteSubscription hrow howner => rfl

variable {x : UserDraw} {input : CreateUserInput}

theorem insertUser_ok {createdBy : Option Uuid} (h : insertUser g env now x createdBy input s = .ok s') :
    ∃ u p, ∃ hfree hp, s' = (s.putUser u hfree).putProfile p hp ∧ s.db.users.find? x.id = none ∧
      u.id = x.id ∧ u.username = input.username ∧ u.trafficLimitBytes = input.trafficLimitBytes ∧
      u.usedTrafficBytes = 0 ∧ p.id = x.id ∧ p.createdBy = createdBy := by
  obtain ⟨uuid, -, h⟩ := bind_eq_ok.mp h
  obtain ⟨password, -, h⟩ := bind_eq_ok.mp h
  obtain ⟨tokenEnc, -, h⟩ := bind_eq_ok.mp h
  dsimp only at h
  split at h
  · cases h
  split at h
  · cases h
  rename_i hnew
  split at h
  · rename_i hfree
    refine ⟨_, _, hfree, _, (ok.inj h).symm, ?_, rfl, rfl, rfl, rfl, rfl, rfl⟩
    rw [not_or, Option.not_isSome_iff_eq_none] at hnew
    exact hnew.1
  · cases h

theorem insertUser_ledger {createdBy : Option Uuid} (h : insertUser g env now x createdBy input s = .ok s') :
    s'.ledger = s.ledger ++ [⟨x.id, createdBy, input.trafficLimitBytes, 0⟩] := by
  obtain ⟨u, p, hfree, hp, rfl, hnew, hu, -, hlimit, hused, hpid, howner⟩ := insertUser_ok h
  have hrows : (s.db.users.put u).rows = s.db.users.rows ++ [u] := rows_put_new (hu ▸ hnew)
  have hline : ∀ v, ((s.putUser u hfree).putProfile p hp).line v =
      ⟨v.id, (if v.id = x.id then p else s.profile v.id).createdBy, v.trafficLimitBytes, v.usedTrafficBytes⟩ := by
    intro v
    rw [line, profile_putProfile, hpid]
    rfl
  change (s.db.users.put u).rows.map _ = _
  rw [hrows, map_append, map_singleton, hline, if_pos hu, hu, howner, hlimit, hused]
  congr 1
  refine map_congr_left fun v hv => ?_
  have hne : v.id ≠ x.id := fun hid => find?_eq_none.mp hnew (hid ▸ mem_map_of_mem hv)
  rw [hline, if_neg hne, line]

/-- A recording that commits sets the line of its user to what the rows say. -/
theorem record_ledger (now : ℤ) {sample : Sample} {db' : Db} {crossed : Bool}
    (h : recordTraffic s.db sample = .ok (db', crossed)) : (s.record now sample).ledger =
      amendLine sample.user (fun l => { l with used := charged db'.traffic sample.user }) s.ledger := by
  have hrecord : s.record now sample = (s.withDb db' (usernames_record h)).amend sample.user now (fun p => p)
      fun _ => ⟨rfl, rfl⟩ := by
    rw [record]
    split
    · rename_i c h₂
      cases h₂.symm.trans h
      rfl
    · rename_i h₂
      cases h₂.symm.trans h
  obtain ⟨u, hourly, hu, rfl, -⟩ := recordTraffic_ok h
  obtain ⟨-, huid⟩ := find?_eq_some.mp hu
  rw [hrecord, ledger_amend rfl]
  refine (lines_put s _ (by rw [huid, hu])).trans ?_
  rw [huid]
  refine amendLine_congr fun l hl hid => ?_
  rw [line_of_mem hu hl hid]
  rfl

theorem record_error {sample : Sample} {e : DbError} (h : recordTraffic s.db sample = .error e) :
    s.record now sample = s := by
  rw [record]
  split
  · rename_i h₂
    cases h₂.symm.trans h
  · rfl

theorem nextCreate_ledger {stage : CreateStage} {next : UserDb × Option CreateStage}
    (h : nextCreate m now x s input stage = .ok next) :
    next.1.ledger = s.ledger ∨ insertUser m.gate m.env now x (some m.account.id) input s = .ok next.1 := by
  cases stage with
  | count =>
    obtain ⟨-, -, h⟩ := bind_eq_ok.mp h
    obtain ⟨-, -, h⟩ := bind_eq_ok.mp h
    cases h
    exact .inl rfl
  | usage | groups =>
    obtain ⟨-, -, h⟩ := bind_eq_ok.mp h
    cases h
    exact .inl rfl
  | insert =>
    obtain ⟨users, hins, h⟩ := bind_eq_ok.mp h
    cases h
    exact .inr hins
  | grant id =>
    rw [nextCreate] at h
    split at h
    · cases h
    · obtain ⟨users, hset, h⟩ := bind_eq_ok.mp h
      cases h
      exact .inl (groups_ledger hset)

end

end Honey.Master
