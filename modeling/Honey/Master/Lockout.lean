import Honey.Master.Factors

/-! Logins and updates of administrators that run at the same time, statement by statement.

        login    lookup + password - address - second factor - INSERT session
        update   UPDATE admins - groups - custom role - DELETE sessions - return

    A login is stamped with the time of its password check, an update with that of its `UPDATE`. After an update that
    disables an account or changes its password has returned, requests of the account come from later logins only,
    provided that no API key of it is used, the deletion of sessions catches no login between its password check and its
    session, and the update does not fail half way (`Undisturbed`). -/

namespace Honey.Master
open Honey.Schemes Table Except List Nat Option

/-! ### Logins -/

/-- The gate, sealing, and Argon2 (password, hash). -/
structure Door where
  gate : Gate
  seals : Seals
  verifyPassword : String → String → Bool

structure LoginInput where
  (username password : String)
  (totpCode recoveryCode remote : Option String)

/-- How a login ends without a session. -/
inductive LoginAnswer where
  | refused (r : Refusal)
  | totpRequired (recovery : Bool)
  deriving DecidableEq, Repr

inductive LoginStage where | address | factor | insert
  deriving DecidableEq, Repr

/-- A login whose password was right, with the row it was checked against. -/
structure Login where
  pid : ℕ
  input : LoginInput
  admin : Admin
  totp : Bool
  stage : LoginStage
  verifiedAt : ℕ

def LoginAnswer.internal : LoginAnswer := .refused .internal

def LoginAnswer.unauthorized (message : String) : LoginAnswer := .refused ⟨401, message, "M1207"⟩

def getAdminByUsername (g : Gate) (db : AuthDb) (username : String) : Option Admin :=
  db.admins.rows.find? fun a => g.lower a.username = g.lower (trim username)

variable (d : Door)

/-- The first part of `login`; `locked` is what the limiter says of the address. -/
def checkPassword (db : AuthDb) (locked : Option ℕ) (fails : Bool) (input : LoginInput) : Except LoginAnswer Admin :=
  match locked with
  | some seconds =>
    .error (.refused ⟨429, "too many login attempts; retry in " ++ toString seconds ++ "s", "M1208"⟩)
  | none =>
    if fails then .error .internal
    else match (getAdminByUsername d.gate db input.username).filter (·.enabled) with
      | some admin =>
        if d.verifyPassword input.password admin.passwordHash then .ok admin
        else .error (.unauthorized "wrong username or password")
      | none => .error (.unauthorized "wrong username or password")

def checkAddress (g : Gate) (db : AuthDb) (fails : Bool) (remote : Option String) : Except LoginAnswer Unit :=
  if fails then .error .internal
  else if ipAllowed g db remote then .ok ()
  else .error (.unauthorized "your address is not allowed")

def normalizeRecoveryCode (value : String) : Option String :=
  let kept := (value.toList.filter fun c => !(c ∈ [' ', '\t', '\n', '\x0c', '\r']) && c ≠ '-').map Char.toUpper
  if kept.length = 20 ∧ kept.all fun c => c.isDigit || ('A' ≤ c && c ≤ 'F') then some (String.ofList kept)
  else none

/-- `consume_admin_recovery_code`. -/
def AccountDb.consumeCode (s : AccountDb) (a : Uuid) (hash : String) : AccountDb × Bool :=
  match s.codes.find? hash with
  | some c =>
    if c.adminId = a ∧ ¬ c.used then ({ s with codes := s.codes.put { c with used := true } }, true)
    else (s, false)
  | none => (s, false)

/-- The second factor, for an account that had it on when the row was read. -/
def checkFactor (s : AccountDb) (now : ℤ) (fails : Bool) (a : Uuid) (input : LoginInput) :
    AccountDb × Except LoginAnswer Unit :=
  let totpCode := trim (input.totpCode.getD "")
  let recoveryCode := trim (input.recoveryCode.getD "")
  if fails then (s, .error .internal)
  else if totpCode = "" ∧ recoveryCode = "" then (s, .error (.totpRequired (0 < s.unusedCodes a)))
  else if (s.totpSecret d.seals a).any fun secret => d.seals.verifyTotp secret now totpCode then
    (s, .ok ())
  else match (normalizeRecoveryCode recoveryCode).map fun code => s.consumeCode a (d.gate.tokenHash code) with
    | some (s', true) => (s', .ok ())
    | _ => (s, .error (.unauthorized "invalid two-factor or recovery code"))

def createAdminSession (x : Session) (fails : Bool) : Statement :=
  attempt fails fun db =>
    if (db.sessions.find? x.tokenHash).isSome then .error .conflict
    else if (db.admins.find? x.adminId).isNone then .error .reference
    else .ok { db with sessions := db.sessions.put x }

/-! ### Updates -/

inductive UpdateStage where | row | groups | assign | sessions
  deriving DecidableEq, Repr

def UpdateStage.next : UpdateStage → Option UpdateStage
  | .row => some .groups
  | .groups => some .assign
  | .assign => some .sessions
  | .sessions => none

/-- An `update_admin` that has passed its checks. -/
structure Update where
  pid : ℕ
  adminId : Uuid
  hash : Option String
  input : UpdateAdminInput
  stage : UpdateStage
  changedAt : ℕ

/-- The update disables its target or changes its password. -/
def Update.closes (u : Update) : Bool := u.input.enabled = some false || u.hash.isSome

/-- The statement that comes next. -/
def Update.statement (u : Update) (fails : Bool) : Statement :=
  match u.stage with
  | .row => attempt fails (updateAdminRow u.adminId u.hash u.input)
  | .groups => match u.input.groupIds with
    | some groups => attempt fails (setResellerGroups u.adminId groups)
    | none => .ok
  | .assign => match u.input.customRoleId with
    | .missing => .ok
    | patch => attempt fails (setAdminCustomRole u.adminId patch)
  | .sessions => if u.closes then attempt fails (deleteAdminSessions u.adminId) else .ok

/-! ### The master at work -/

/-- The check of the password behind a session. -/
structure Origin where
  tokenHash : String
  verifiedAt : ℕ

/-- The tables, what is under way, and what has happened: when each session's password was checked, and
    which accounts were closed by updates that have returned, with the time of their `UPDATE`. -/
structure Desk where
  accounts : AccountDb
  logins : Table Login.pid
  updates : Table Update.pid
  clock : ℕ
  origins : Table Origin.tokenHash
  returned : List (Uuid × ℕ)

variable (s : Desk)

def Desk.auth : AuthDb := s.accounts.auth

def Desk.setAuth (auth : AuthDb) : Desk := { s with accounts := { s.accounts with auth := auth } }

inductive DeskEvent where
  | loginBegin (pid : ℕ) (locked : Option ℕ) (fails : Bool) (input : LoginInput)
  | loginNext (pid : ℕ) (now : ℤ) (fails : Bool) (token : String) (expiresAt : ℤ)
  | updateNext (pid : ℕ) (fails : Bool)
  | call (pid : ℕ) (c : ApiCall)
  | factor (c : FactorCall)
  | expire (now : ℤ)

namespace Desk

variable (d : Door) (s : Desk)

def beginLogin (pid : ℕ) (locked : Option ℕ) (fails : Bool) (input : LoginInput) : Desk :=
  match checkPassword d s.auth locked fails input with
  | .error _ => s
  | .ok admin =>
    if (s.logins.find? pid).isSome then s
    else { s with
      logins := s.logins.put ⟨pid, input, admin, s.accounts.totpEnabled admin.id, .address, s.clock⟩ }

def endLogin (pid : ℕ) : Desk := { s with logins := s.logins.keep (·.pid ≠ pid) }

/-- A login that has its session. -/
def enter (l : Login) (x : Session) (auth : AuthDb) : Desk :=
  { (s.setAuth auth).endLogin l.pid with origins := s.origins.put ⟨x.tokenHash, l.verifiedAt⟩ }

def nextLogin (l : Login) (now : ℤ) (fails : Bool) (token : String) (expiresAt : ℤ) : Desk :=
  match l.stage with
  | .address => match checkAddress d.gate s.auth fails l.input.remote with
    | .error _ => s.endLogin l.pid
    | .ok _ => { s with logins := s.logins.put { l with stage := if l.totp then .factor else .insert } }
  | .factor => match checkFactor d s.accounts now fails l.admin.id l.input with
    | (accounts, .error _) => { s with accounts := accounts }.endLogin l.pid
    | (accounts, .ok _) =>
      { s with accounts := accounts, logins := s.logins.put { l with stage := .insert } }
  | .insert =>
    let x : Session := ⟨d.gate.tokenHash token, l.admin.id, expiresAt⟩
    match createAdminSession x fails s.auth with
    | .error _ => s.endLogin l.pid
    | .ok auth => s.enter l x auth

/-- The end of an update: if the row was changed, the account counts as closed from then on. -/
def endUpdate (u : Update) : Desk :=
  { s with
    updates := s.updates.keep (·.pid ≠ u.pid)
    returned := if u.closes ∧ u.stage ≠ .row then (u.adminId, u.changedAt) :: s.returned else s.returned }

def nextUpdate (u : Update) (fails : Bool) : Desk :=
  match u.statement fails s.auth with
  | .error _ => s.endUpdate u
  | .ok auth => match u.stage.next with
    | none => (s.setAuth auth).endUpdate u
    | some stage =>
      { s.setAuth auth with
        updates := s.updates.put
          { u with stage := stage, changedAt := if u.stage = .row then s.clock else u.changedAt } }

/-- A request that is let in: an `update_admin` begins, any other handler runs. -/
def letIn (pid : ℕ) (c : ApiCall) (i : Identity) : Desk :=
  match c.op with
  | .updateAdmin id hash input =>
    match checkUpdate i id hash input with
    | .error _ => s
    | .ok hash' =>
      if (s.updates.find? pid).isSome then s
      else { s with updates := s.updates.put ⟨pid, id, hash', input, .row, 0⟩ }
  | op => s.setAuth (handle d.gate c.faults c.now i op s.auth).1

def act : DeskEvent → Desk
  | .loginBegin pid locked fails input => s.beginLogin d pid locked fails input
  | .loginNext pid now fails token expiresAt =>
    match s.logins.find? pid with
    | some l => s.nextLogin d l now fails token expiresAt
    | none => s
  | .updateNext pid fails =>
    match s.updates.find? pid with
    | some u => s.nextUpdate u fails
    | none => s
  | .call pid c =>
    match requireAuth d.gate c.faults c.now s.auth c.request with
    | .error _ => s
    | .ok i => s.letIn d pid c i
  | .factor c => { s with accounts := (answerFactor d.gate d.seals s.accounts c).1 }
  | .expire now => s.setAuth { s.auth with sessions := s.auth.sessions.keep (now < ·.expiresAt) }

/-- One step; time passes. -/
def step (e : DeskEvent) : Desk := { s.act d e with clock := s.clock + 1 }

end Desk

/-- Nothing is under way. -/
def Desk.start (accounts : AccountDb) : Desk :=
  ⟨accounts, Table.empty, Table.empty, 0, Table.empty, []⟩

/-- The headers of a request. -/
def DeskEvent.head? : DeskEvent → Option Head
  | .call _ c => some c.head
  | .factor c => some c.head
  | _ => none

variable (e : DeskEvent)

/-- The event is a request that is let in as the identity. -/
def Admits (i : Identity) : Prop :=
  (∃ pid c, e = .call pid c ∧ requireAuth d.gate c.faults c.now s.auth c.request = .ok i) ∨
    ∃ c, e = .factor c ∧ requireAuth d.gate c.faults c.now s.auth c.request = .ok i

/-- A request of a closed account belongs to an account that is enabled, and to a session whose password
    was checked after the change. -/
def LockedOut : Prop :=
  ∀ i a t, Admits d s e i → i.adminId = some a → (a, t) ∈ s.returned →
    (∃ row, s.auth.admins.find? a = some row ∧ row.enabled) ∧
      ∃ hash o, i.sessionHash = some hash ∧ s.origins.find? hash = some o ∧ t < o.verifiedAt

/-- The next statement of the update goes through: the database does not fail, and the groups and the
    custom role that it names are there. -/
def Update.Succeeds (u : Update) (fails : Bool) (db : AuthDb) : Prop :=
  fails = false ∧ (u.stage = .groups → ∀ groups ∈ u.input.groupIds, ∀ id ∈ groups, id ∈ db.nodeGroups) ∧
    (u.stage = .assign → ∀ role, u.input.customRoleId = .value role → (db.customRoles.find? role).isSome)

/-- No request shows an API key of a closed account; an update that closes an account does not fail
    after it has changed the row; and when it deletes the sessions, no login of the account whose
    password was checked before the change is still under way. -/
def Undisturbed : Prop :=
  (∀ h token key a t, e.head? = some h → h.bearer = some token → d.gate.apiToken ≠ some token →
    s.auth.apiKeys.find? (d.gate.tokenHash token) = some key → key.createdBy = some a → (a, t) ∉ s.returned) ∧
  ∀ pid fails u, e = .updateNext pid fails → s.updates.find? pid = some u → u.closes → u.stage ≠ .row →
    u.Succeeds fails s.auth ∧
      (u.stage = .sessions → ∀ l ∈ s.logins.rows, l.admin.id = u.adminId → u.changedAt < l.verifiedAt)

/-! ### Sessions only go -/

/-- The statement leaves the sessions alone. -/
def KeepsSessions (statement : Statement) : Prop :=
  ∀ db db', statement db = .ok db' → db'.sessions = db.sessions

/-- Every session was there before. -/
def FewerSessions (db db' : AuthDb) : Prop := ∀ x ∈ db'.sessions.rows, x ∈ db.sessions.rows

section

variable {db db' : AuthDb}

theorem KeepsSessions.attempt {fails : Bool} {statement : Statement} (h : KeepsSessions statement) :
    KeepsSessions (attempt fails statement) :=
  fun _ _ hs => h _ _ (attempt_eq_ok.mp hs).2

theorem fewerSessions_statements {body : List Statement}
    (h : ∀ statement ∈ body, KeepsSessions statement) : FewerSessions db (statements body db).1 := by
  refine statements_inv ?_ fun x hx => hx
  intro statement hmem a b hok hfewer x hx
  rw [h statement hmem a b hok] at hx
  exact hfewer x hx

theorem fewerSessions_perform {α : Type} {check : Except Refusal α} {body : α → List Statement}
    (h : ∀ x, ∀ statement ∈ body x, KeepsSessions statement) : FewerSessions db (perform check body db).1 := by
  cases check with
  | error e => exact fun x hx => hx
  | ok x => exact fewerSessions_statements (h x)

theorem keepsSessions_insertAdmin (g : Gate) (input : CreateAdminInput) (id : Uuid) (hash : String)
    (role : Role) : KeepsSessions (insertNewAdmin g input id hash role) := by
  intro s s' hs
  rw [insertNewAdmin] at hs
  split at hs
  · cases hs
  · split at hs
    · cases hs
    · exact ok.inj hs ▸ rfl

theorem keepsSessions_updateRow (id : Uuid) (hash : Option String) (input : UpdateAdminInput) :
    KeepsSessions (updateAdminRow id hash input) := by
  intro s s' hs
  rw [updateAdminRow] at hs
  split at hs
  · exact ok.inj hs ▸ rfl
  · cases hs

theorem keepsSessions_assign (id : Uuid) (patch : Patch Uuid) : KeepsSessions (setAdminCustomRole id patch) := by
  intro s s' hs
  cases patch with
  | missing | null => exact ok.inj hs ▸ rfl
  | value role =>
    rw [setAdminCustomRole] at hs
    split at hs
    · exact ok.inj hs ▸ rfl
    · cases hs

theorem keepsSessions_deleteRole (id : Uuid) : KeepsSessions (deleteCustomRole id) := by
  intro s s' hs
  rw [deleteCustomRole] at hs
  split at hs
  · exact ok.inj hs ▸ rfl
  · cases hs

/-- No handler but `update_admin` touches the sessions, other than to end some. -/
theorem fewerSessions_handle (g : Gate) (f : Faults) (now : ℤ) (i : Identity) (op : Op)
    (hop : ∀ id hash input, op ≠ .updateAdmin id hash input) : FewerSessions db (handle g f now i op db).1 := by
  cases op with
  | createAdmin id hash input =>
    refine fewerSessions_perform fun x statement hmem => ?_
    rcases mem_cons.mp hmem with rfl | hmem
    · exact (keepsSessions_insertAdmin g input id x.2 x.1).attempt
    split at hmem
    · rw [mem_singleton.mp hmem]
      exact KeepsSessions.attempt (keeps_groups id input.groupIds fun _ _ => rfl)
    · cases hmem
  | updateAdmin id hash input => exact absurd rfl (hop id hash input)
  | createCustomRole id input =>
    exact fewerSessions_perform (by simpa using KeepsSessions.attempt (keeps_insertRole id input fun _ _ => rfl))
  | updateCustomRole id input =>
    exact fewerSessions_perform (by simpa using KeepsSessions.attempt (keeps_updateRole id input fun _ _ => rfl))
  | deleteCustomRole id =>
    exact fewerSessions_statements (by simpa using (keepsSessions_deleteRole id).attempt)
  | createApiKey id token input =>
    refine fewerSessions_perform fun x => ?_
    simpa using KeepsSessions.attempt (keeps_insertKey (fun _ _ => rfl) id _ _ _ _ _)
  | revokeApiKey id =>
    exact fewerSessions_statements (by simpa using KeepsSessions.attempt (keeps_revoke (fun _ _ => rfl) now id))
  | other m path ended adminIps nodeGroups => exact fun x hx => (mem_keep.mp hx).1

theorem fewerSessions_update {u : Update} {fails : Bool} (h : u.statement fails db = .ok db') :
    FewerSessions db db' ∧ (u.stage = .sessions → u.closes → ∀ x ∈ db'.sessions.rows, x.adminId ≠ u.adminId) := by
  have hkeeps : ∀ statement, KeepsSessions statement → statement db = .ok db' → FewerSessions db db' := by
    intro statement hk hs x hx
    rwa [hk db db' hs] at hx
  rw [Update.statement] at h
  cases hstage : u.stage with
  | row =>
    rw [hstage] at h
    exact ⟨hkeeps _ (keepsSessions_updateRow _ _ _).attempt h, nofun⟩
  | groups =>
    cases hgroups : u.input.groupIds with
    | some groups =>
      simp only [hstage, hgroups] at h
      exact ⟨hkeeps _ (KeepsSessions.attempt (keeps_groups _ _ fun _ _ => rfl)) h, nofun⟩
    | none =>
      simp only [hstage, hgroups] at h
      exact ⟨ok.inj h ▸ fun x hx => hx, nofun⟩
  | assign =>
    cases hpatch : u.input.customRoleId with
    | missing =>
      simp only [hstage, hpatch] at h
      exact ⟨ok.inj h ▸ fun x hx => hx, nofun⟩
    | null | value role =>
      simp only [hstage, hpatch] at h
      exact ⟨hkeeps _ (keepsSessions_assign _ _).attempt h, nofun⟩
  | sessions =>
    simp only [hstage] at h
    split at h
    · obtain ⟨-, h⟩ := attempt_eq_ok.mp h
      obtain rfl := ok.inj h
      refine ⟨fun x hx => (mem_keep.mp hx).1, fun _ _ x hx => ?_⟩
      simpa using (mem_keep.mp hx).2
    · rename_i hcloses
      exact ⟨ok.inj h ▸ fun x hx => hx, fun _ hc => absurd hc hcloses⟩

end

/-! ### The invariant -/

/-- Everything under way or stored that belongs to a closed account is later than the change. -/
structure Desk.Closed (s : Desk) : Prop where
  returned_lt : ∀ r ∈ s.returned, r.2 < s.clock
  changed_lt : ∀ u ∈ s.updates.rows, u.stage ≠ .row → u.changedAt < s.clock
  sessions_late : ∀ r ∈ s.returned, ∀ x ∈ s.auth.sessions.rows, x.adminId = r.1 →
    ∃ o, s.origins.find? x.tokenHash = some o ∧ r.2 < o.verifiedAt
  logins_late : ∀ r ∈ s.returned, ∀ l ∈ s.logins.rows, l.admin.id = r.1 → r.2 < l.verifiedAt

/-- A step that closes no account and opens no session: sessions go, logins go on or begin now, rows are changed now. -/
structure Desk.Calm (s s' : Desk) : Prop where
  sessions : FewerSessions s.auth s'.auth
  logins : ∀ l ∈ s'.logins.rows, l.verifiedAt = s.clock ∨
    ∃ l₀ ∈ s.logins.rows, l₀.admin.id = l.admin.id ∧ l₀.verifiedAt = l.verifiedAt
  updates : ∀ u ∈ s'.updates.rows, u.stage ≠ .row → u.changedAt = s.clock ∨
    ∃ u₀ ∈ s.updates.rows, u₀.stage ≠ .row ∧ u₀.changedAt = u.changedAt
  origins : s'.origins = s.origins
  returned : s'.returned = s.returned

section

variable {d : Door} {s s' : Desk}

theorem Desk.Closed.calm (h : s.Closed) (hcalm : s.Calm s') : ({ s' with clock := s.clock + 1 } : Desk).Closed where
  returned_lt r hr := by
    rw [hcalm.returned] at hr
    exact lt_succ_of_lt (h.returned_lt r hr)
  changed_lt u hu hstage := by
    rcases hcalm.updates u hu hstage with hnow | ⟨u₀, hu₀, hstage₀, hsame⟩
    · exact hnow ▸ lt_succ_self _
    · exact hsame ▸ lt_succ_of_lt (h.changed_lt u₀ hu₀ hstage₀)
  sessions_late r hr x hx hadmin := by
    rw [hcalm.returned] at hr
    rw [hcalm.origins]
    exact h.sessions_late r hr x (hcalm.sessions x hx) hadmin
  logins_late r hr l hl hadmin := by
    rw [hcalm.returned] at hr
    rcases hcalm.logins l hl with hnow | ⟨l₀, hl₀, hadmin₀, hsame⟩
    · exact hnow ▸ h.returned_lt r hr
    · exact hsame ▸ h.logins_late r hr l₀ hl₀ (hadmin₀.trans hadmin)

theorem Desk.Calm.refl (s : Desk) : s.Calm s where
  sessions _ hx := hx
  logins l hl := .inr ⟨l, hl, rfl, rfl⟩
  updates u hu hstage := .inr ⟨u, hu, hstage, rfl⟩
  origins := rfl
  returned := rfl

theorem Desk.Closed.tick (h : s.Closed) : ({ s with clock := s.clock + 1 } : Desk).Closed := h.calm (Desk.Calm.refl s)

variable {auth : AuthDb} {u : Update} {fails : Bool}

theorem Desk.Calm.setAuth (h : FewerSessions s.auth auth) : s.Calm (s.setAuth auth) :=
  { Desk.Calm.refl s with sessions := h }

theorem Desk.Calm.setAccounts {accounts : AccountDb} (h : accounts.auth = s.auth) :
    s.Calm { s with accounts := accounts } :=
  { Desk.Calm.refl s with sessions := fun x hx => by rwa [Desk.auth, h] at hx }

theorem Desk.Calm.putLogin {l : Login} (h : s.Calm s') (hl : l.verifiedAt = s.clock ∨
    ∃ l₀ ∈ s.logins.rows, l₀.admin.id = l.admin.id ∧ l₀.verifiedAt = l.verifiedAt) :
    s.Calm { s' with logins := s'.logins.put l } :=
  { h with logins := forall_put hl h.logins }

theorem Desk.Calm.endLogin (h : s.Calm s') (pid : ℕ) : s.Calm (s'.endLogin pid) :=
  { h with logins := fun x hx => h.logins x (mem_keep.mp hx).1 }

theorem Desk.Calm.putUpdate (h : s.Calm s') (hu : u.stage ≠ .row → u.changedAt = s.clock ∨
    ∃ u₀ ∈ s.updates.rows, u₀.stage ≠ .row ∧ u₀.changedAt = u.changedAt) :
    s.Calm { s' with updates := s'.updates.put u } :=
  { h with updates := forall_put hu h.updates }

theorem Desk.Calm.endUpdate (h : s.Calm s') (hopen : ¬ (u.closes ∧ u.stage ≠ .row)) : s.Calm (s'.endUpdate u) := by
  refine { h with updates := fun x hx => h.updates x (mem_keep.mp hx).1, returned := ?_ }
  rw [Desk.endUpdate, if_neg hopen]
  exact h.returned

theorem checkFactor_auth (d : Door) (a : AccountDb) (now : ℤ) (fails : Bool) (id : Uuid)
    (input : LoginInput) : (checkFactor d a now fails id input).1.auth = a.auth := by
  have hconsume : ∀ hash, (a.consumeCode id hash).1.auth = a.auth := by
    intro hash
    rw [AccountDb.consumeCode]
    split
    · split
      · rfl
      · rfl
    · rfl
  rw [checkFactor]
  split
  · rfl
  split
  · rfl
  split
  · rfl
  split
  · rename_i hcode
    obtain ⟨code, -, hs'⟩ := map_eq_some_iff.mp hcode
    rw [← hconsume _, hs']
  · rfl

theorem answerFactor_auth (g : Gate) (k : Seals) (a : AccountDb) (c : FactorCall) :
    (answerFactor g k a c).1.auth = a.auth := by
  rw [answerFactor]
  split
  · rfl
  rename_i i hi
  rcases handleFactor_writes g k c.now c.writes i c.op a with ⟨codes, hsame⟩ | ⟨id, secret, enabled, -, hset, -⟩
  · rw [hsame]
  · rw [hset, AccountDb.setFactor]
    split <;> rfl

theorem Desk.Closed.enter (h : s.Closed) {l : Login} {x : Session} (hl : l ∈ s.logins.rows)
    (hadmin : x.adminId = l.admin.id) (hnew : s.auth.sessions.find? x.tokenHash = none)
    (hauth : auth.sessions = s.auth.sessions.put x) :
    ({ s.enter l x auth with clock := s.clock + 1 } : Desk).Closed where
  returned_lt r hr := lt_succ_of_lt (h.returned_lt r hr)
  changed_lt u hu hstage := lt_succ_of_lt (h.changed_lt u hu hstage)
  sessions_late r hr y hy hyadmin := by
    replace hy : y ∈ (s.auth.sessions.put x).rows := hauth ▸ hy
    rcases mem_put.mp hy with rfl | ⟨hy, hne⟩
    · exact ⟨_, find?_put_self, h.logins_late r hr l hl (hadmin.symm.trans hyadmin)⟩
    obtain ⟨o, ho, hlate⟩ := h.sessions_late r hr y hy hyadmin
    have hother : (s.origins.put ⟨x.tokenHash, l.verifiedAt⟩).find? y.tokenHash = some o :=
      (find?_put_of_ne (r := ⟨x.tokenHash, l.verifiedAt⟩) hne).trans ho
    exact ⟨o, hother, hlate⟩
  logins_late r hr y hy := h.logins_late r hr y (mem_keep.mp hy).1

/-- An update deletes the sessions while no earlier login is under way. -/
theorem Desk.Closed.close (h : s.Closed) (hu : u ∈ s.updates.rows) (hstage : u.stage = .sessions)
    (hfewer : FewerSessions s.auth auth) (hgone : ∀ x ∈ auth.sessions.rows, x.adminId ≠ u.adminId)
    (hlate : ∀ l ∈ s.logins.rows, l.admin.id = u.adminId → u.changedAt < l.verifiedAt) :
    ({ (s.setAuth auth).endUpdate u with clock := s.clock + 1 } : Desk).Closed := by
  have hreturned : ∀ r ∈ ((s.setAuth auth).endUpdate u).returned, r = (u.adminId, u.changedAt) ∨ r ∈ s.returned := by
    intro r hr
    rw [Desk.endUpdate] at hr
    split at hr
    · exact mem_cons.mp hr
    · exact .inr hr
  have hchanged := h.changed_lt u hu (by rw [hstage]; decide)
  constructor
  · intro r hr
    rcases hreturned r hr with rfl | hr
    · exact lt_succ_of_lt hchanged
    · exact lt_succ_of_lt (h.returned_lt r hr)
  · intro x hx hrow
    exact lt_succ_of_lt (h.changed_lt x (mem_keep.mp hx).1 hrow)
  · intro r hr x hx hadmin
    rcases hreturned r hr with rfl | hr
    · exact absurd hadmin (hgone x hx)
    · exact h.sessions_late r hr x (hfewer x hx) hadmin
  · intro r hr l hl hadmin
    rcases hreturned r hr with rfl | hr
    · exact hlate l hl hadmin
    · exact h.logins_late r hr l hl hadmin

theorem createAdminSession_eq_ok {x : Session} {db db' : AuthDb} (h : createAdminSession x fails db = .ok db') :
    db.sessions.find? x.tokenHash = none ∧ db'.sessions = db.sessions.put x := by
  obtain ⟨-, h⟩ := attempt_eq_ok.mp h
  split at h
  · cases h
  rename_i hnew
  split at h
  · cases h
  · exact ⟨by simpa using hnew, ok.inj h ▸ rfl⟩

theorem closed_nextLogin {l : Login} (h : s.Closed) (hl : l ∈ s.logins.rows) (now : ℤ) (fails : Bool)
    (token : String) (expiresAt : ℤ) :
    ({ s.nextLogin d l now fails token expiresAt with clock := s.clock + 1 } : Desk).Closed := by
  rw [Desk.nextLogin]
  cases l.stage with
  | address =>
    dsimp only
    split
    · exact h.calm ((Desk.Calm.refl s).endLogin l.pid)
    · exact h.calm ((Desk.Calm.refl s).putLogin (.inr ⟨l, hl, rfl, rfl⟩))
  | factor =>
    have hauth := checkFactor_auth d s.accounts now fails l.admin.id l.input
    dsimp only
    split
    · rename_i _ hcheck
      rw [hcheck] at hauth
      exact h.calm ((Desk.Calm.setAccounts hauth).endLogin l.pid)
    · rename_i _ hcheck
      rw [hcheck] at hauth
      exact h.calm ((Desk.Calm.setAccounts hauth).putLogin (.inr ⟨l, hl, rfl, rfl⟩))
  | insert =>
    dsimp only
    split
    · exact h.calm ((Desk.Calm.refl s).endLogin l.pid)
    · rename_i hinsert
      obtain ⟨hnew, hput⟩ := createAdminSession_eq_ok hinsert
      exact h.enter hl rfl hnew hput

theorem Update.Succeeds.statement {db : AuthDb} (h : u.Succeeds fails db) (hstage : u.stage ≠ .row) :
    ∃ db', u.statement fails db = .ok db' := by
  obtain ⟨rfl, hgroups, hassign⟩ := h
  rw [Update.statement]
  cases hs : u.stage with
  | row => exact absurd hs hstage
  | groups =>
    cases hg : u.input.groupIds with
    | none => exact ⟨db, rfl⟩
    | some groups =>
      have hall : groups.all (· ∈ db.nodeGroups) := by simpa using hgroups hs groups hg
      exact ⟨_, attempt_eq_ok.mpr ⟨rfl, by rw [setResellerGroups, if_pos hall]⟩⟩
  | assign =>
    cases hp : u.input.customRoleId with
    | missing => exact ⟨db, rfl⟩
    | null => exact ⟨_, attempt_eq_ok.mpr ⟨rfl, rfl⟩⟩
    | value role =>
      exact ⟨_, attempt_eq_ok.mpr ⟨rfl, by rw [setAdminCustomRole, dif_pos (hassign hs role hp)]⟩⟩
  | sessions =>
    dsimp only
    split
    · exact ⟨_, attempt_eq_ok.mpr ⟨rfl, rfl⟩⟩
    · exact ⟨db, rfl⟩

theorem closed_nextUpdate (h : s.Closed) (hu : u ∈ s.updates.rows)
    (hok : u.closes → u.stage ≠ .row → u.Succeeds fails s.auth ∧
      (u.stage = .sessions → ∀ l ∈ s.logins.rows, l.admin.id = u.adminId → u.changedAt < l.verifiedAt)) :
    ({ s.nextUpdate u fails with clock := s.clock + 1 } : Desk).Closed := by
  rw [Desk.nextUpdate]
  cases hrun : u.statement fails s.auth with
  | error e =>
    refine h.calm ((Desk.Calm.refl s).endUpdate ?_)
    rintro ⟨hcloses, hstage⟩
    obtain ⟨auth, hauth⟩ := (hok hcloses hstage).1.statement hstage
    rw [hauth] at hrun
    cases hrun
  | ok auth =>
    obtain ⟨hfewer, hgone⟩ := fewerSessions_update hrun
    cases hnext : u.stage.next with
    | some stage =>
      refine h.calm ((Desk.Calm.setAuth hfewer).putUpdate fun _ => ?_)
      by_cases hrow : u.stage = .row
      · exact .inl (if_pos hrow)
      · exact .inr ⟨u, hu, hrow, (if_neg hrow).symm⟩
    | none =>
      have hstage : u.stage = .sessions := by
        cases hs : u.stage <;> simp [hs, UpdateStage.next] at hnext ⊢
      by_cases hcloses : u.closes
      · exact h.close hu hstage hfewer (hgone hstage hcloses) ((hok hcloses (by rw [hstage]; decide)).2 hstage)
      · exact h.calm ((Desk.Calm.setAuth hfewer).endUpdate fun hboth => hcloses hboth.1)

theorem calm_letIn (d : Door) (s : Desk) (pid : ℕ) (c : ApiCall) (i : Identity) : s.Calm (s.letIn d pid c i) := by
  rw [Desk.letIn]
  split
  · split
    · exact Desk.Calm.refl s
    · split
      · exact Desk.Calm.refl s
      · exact (Desk.Calm.refl s).putUpdate (absurd rfl)
  · rename_i hop
    exact Desk.Calm.setAuth (fewerSessions_handle _ _ _ _ _ hop)

/-- One step. -/
theorem closed_step (d : Door) (s : Desk) (e : DeskEvent) (h : s.Closed) (hok : Undisturbed d s e) :
    (s.step d e).Closed := by
  rw [Desk.step, Desk.act.eq_def]
  cases e with
  | loginBegin pid locked fails input =>
    dsimp only [Desk.beginLogin]
    split
    · exact h.tick
    · split
      · exact h.tick
      · exact h.calm ((Desk.Calm.refl s).putLogin (.inl rfl))
  | loginNext pid now fails token expiresAt =>
    dsimp only
    split
    · rename_i hl
      exact closed_nextLogin h (find?_eq_some.mp hl).1 now fails token expiresAt
    · exact h.tick
  | updateNext pid fails =>
    dsimp only
    split
    · rename_i u hu
      exact closed_nextUpdate h (find?_eq_some.mp hu).1 (hok.2 pid fails u rfl hu)
    · exact h.tick
  | call pid c =>
    dsimp only
    split
    · exact h.tick
    · exact h.calm (calm_letIn d s pid c _)
  | factor c => exact h.calm (Desk.Calm.setAccounts (answerFactor_auth _ _ _ c))
  | expire now => exact h.calm (Desk.Calm.setAuth fun x hx => (mem_keep.mp hx).1)

/-- Whoever is let in as a closed account has a later session. -/
theorem lockedOut_of_closed {e : DeskEvent} (h : s.Closed) (hok : Undisturbed d s e) : LockedOut d s e := by
  intro i a t hadmits hadmin hreturned
  obtain ⟨f, now, req, hreq, hhead⟩ : ∃ f now req, requireAuth d.gate f now s.auth req = .ok i ∧
      e.head? = some req.head := by
    rcases hadmits with ⟨pid, c, rfl, hc⟩ | ⟨c, rfl, hc⟩
    · exact ⟨c.faults, c.now, c.request, hc, rfl⟩
    · exact ⟨c.faults, c.now, c.request, hc, rfl⟩
  have hid := (requireAuth_eq_ok.mp hreq).1
  cases hbearer : req.head.bearer with
  | some token =>
    rcases identify_bearer hbearer hid with ⟨-, rfl⟩ | ⟨htoken, key, hkey, rfl⟩
    · cases hadmin
    · exact absurd hreturned (hok.1 req.head token key a t hhead hbearer htoken hkey hadmin)
  | none =>
    obtain ⟨-, token, x, row, -, hx, -, hrow, henabled, rfl⟩ := (identify_session hbearer).mp hid
    obtain rfl : row.id = a := some.inj hadmin
    obtain ⟨hxmem, hxhash⟩ := find?_eq_some.mp hx
    obtain ⟨-, hrowid⟩ := find?_eq_some.mp hrow
    obtain ⟨o, ho, hlate⟩ := h.sessions_late _ hreturned x hxmem hrowid.symm
    rw [hxhash] at ho
    rw [← hrowid] at hrow
    exact ⟨⟨row, hrow, henabled⟩, _, o, rfl, ho, hlate⟩

end

/-- The token `root`; the hash of a password is the password. -/
def openDoor : Door where
  gate := { plainGate with apiToken := some "root" }
  seals := plainSeals
  verifyPassword := fun password hash => password = hash

/-- `carol`, who may see the nodes and has made an API key. -/
def keyedDb : AccountDb where
  auth := { customDb .owner (.obj [("nodes", .int 1)]) with
    apiKeys := Table.empty.put ⟨7, "ci", "hny_k", .viewer, some 1, none, none⟩ }
  factors := Table.empty
  codes := Table.empty

def rootHead : Head := ⟨some "Bearer root", none, none, none, none, none⟩

def keyHead : Head := ⟨some "Bearer hny_k", none, none, none, none, none⟩

def laterHead : Head := ⟨none, some "honey_session=u", none, none, none, none⟩

/-- `carol` is given a new password, or disabled. -/
def changeCarol (enabled : Option Bool) (password : Option String) : DeskEvent :=
  .call 0 ⟨0, .none, rootHead,
    .updateAdmin 1 "new password" ⟨none, enabled, password, none, none, none, none, none, .missing⟩⟩

/-- A look at the nodes. -/
def lookAtNodes (h : Head) : DeskEvent := .call 9 ⟨0, .none, h, .other .get "/nodes" [] [] []⟩

def carolLogin (password : String) : DeskEvent := .loginBegin 1 none false ⟨"carol", password, none, none, none⟩

/-- The address, or the session with the token `u`. -/
def carolNext : DeskEvent := .loginNext 1 0 false "u" 10

/-- `carol` is given a new password and logs in with it. -/
def newPassword : List DeskEvent :=
  [changeCarol none (some "new password"), .updateNext 0 false, .updateNext 0 false, .updateNext 0 false,
    .updateNext 0 false, carolLogin "new password", carolNext, carolNext]

deriving instance DecidableEq for Patch

theorem undisturbed_quiet (hhead : ∀ h ∈ e.head?, h = rootHead ∨ h.bearer = none)
    (hno : ∀ pid fails, e ≠ .updateNext pid fails) : Undisturbed openDoor s e := by
  refine ⟨fun h token key a t he hbearer htoken => ?_, fun pid fails u he => absurd he (hno pid fails)⟩
  rcases hhead h he with rfl | hnone
  · obtain rfl : "root" = token := some.inj hbearer
    exact absurd rfl htoken
  · rw [hnone] at hbearer
    cases hbearer

theorem undisturbed_update (hlogins : s.logins.rows = [])
    (hinput : ∀ u ∈ s.updates.rows, u.input.groupIds = none ∧ u.input.customRoleId = .missing) :
    Undisturbed openDoor s (.updateNext 0 false) := by
  refine ⟨fun _ _ _ _ _ he => absurd he (by simp [DeskEvent.head?]), ?_⟩
  rintro pid fails u he hu - -
  obtain ⟨rfl, rfl⟩ := DeskEvent.updateNext.inj he
  obtain ⟨hgroups, hrole⟩ := hinput u (find?_eq_some.mp hu).1
  refine ⟨⟨rfl, fun _ => ?_, fun _ => ?_⟩, fun _ => ?_⟩
  · simp [hgroups]
  · simp [hrole]
  · simp [hlogins]

theorem newPassword_undisturbed : Always (Desk.step openDoor) (Undisturbed openDoor) (.start keyedDb)
    (newPassword ++ [lookAtNodes laterHead]) := by
  refine ⟨undisturbed_quiet _ _ ?_ nofun, undisturbed_update _ ?_ ?_, undisturbed_update _ ?_ ?_,
    undisturbed_update _ ?_ ?_, undisturbed_update _ ?_ ?_, undisturbed_quiet _ _ ?_ nofun,
    undisturbed_quiet _ _ ?_ nofun, undisturbed_quiet _ _ ?_ nofun, undisturbed_quiet _ _ ?_ nofun, trivial⟩
  · exact fun h hh => .inl (some.inj hh).symm
  iterate 8
    · decide +kernel
  iterate 3
    · exact fun h hh => nomatch hh
  · exact fun h hh => .inr (some.inj hh ▸ rfl)

end Honey.Master
