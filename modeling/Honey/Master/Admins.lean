import Honey.Master.Accept
import Honey.Master.Auth

/-! Administrators, custom roles and API keys: the handlers of `/admins`, `/custom-roles` and `/api-keys`,
    and the runs of the requests that reach them.

        call -- requireAuth --> identity -- handler --> statements, one after the other
         |            + refused: nothing changes            + a failure keeps the ones before it
        login, other requests

    There is no transaction around the statements of a handler. -/

namespace Honey.Master
open Honey.Schemes Table Except List Option

/-! ### Refusals of handlers -/

def Refusal.badRequest (message : String) : Refusal := ⟨400, message, "M1201"⟩

def Refusal.notFound (message : String) : Refusal := ⟨404, message, "M1204"⟩

def Refusal.forbidden (message : String) : Refusal := ⟨403, message, "M1211"⟩

/-- A unique index. -/
def Refusal.conflict : Refusal := ⟨409, "resource already exists", "M1205"⟩

/-- A foreign key. -/
def Refusal.reference : Refusal := .badRequest "referenced resource does not exist or is still in use"

/-- A check of a table. -/
def Refusal.constraint : Refusal := .badRequest "value violates a database constraint"

/-! ### Writes -/

/-- A statement of a handler. -/
abbrev Statement := AuthDb → Except Refusal AuthDb

/-- A statement that may fail for no reason of its own. -/
def attempt (fails : Bool) (statement : Statement) : Statement :=
  fun db => if fails then .error .internal else statement db

/-- A handler: its checks, then its statements. -/
def perform {α : Type} (check : Except Refusal α) (body : α → List Statement) (db : AuthDb) :
    AuthDb × Except Refusal Unit :=
  match check with
  | .error e => (db, .error e)
  | .ok a => statements (body a) db

/-- The administrator without a custom role that is gone. -/
def Admin.lose (role : Uuid) (a : Admin) : Admin :=
  if a.customRoleId = some role then { a with customRoleId := none } else a

namespace AuthDb

variable (db : AuthDb)

/-- Insert an administrator, who has no custom role. -/
def insertAdmin (a : Admin) (h : a.customRoleId = none) : AuthDb :=
  { db with
    admins := db.admins.put a
    assigned := by
      intro x hx r hr
      rcases mem_put.mp hx with rfl | ⟨hx, -⟩
      · rw [h] at hr
        cases hr
      · exact db.assigned x hx r hr }

/-- `UPDATE admins SET … WHERE id = …`, custom role apart. -/
def updateAdmin (id : Uuid) (f : Admin → Admin)
    (hf : ∀ a, (f a).id = a.id ∧ (f a).customRoleId = a.customRoleId) : AuthDb :=
  { db with
    admins := db.admins.alter (fun a => if a.id = id then f a else a) fun a => by
      split
      · exact (hf a).1
      · rfl
    assigned := by
      intro x hx r hr
      obtain ⟨a, ha, rfl⟩ := mem_map.mp hx
      have hsame : (if a.id = id then f a else a).customRoleId = a.customRoleId := by
        split
        · exact (hf a).2
        · rfl
      exact db.assigned a ha r (hsame ▸ hr) }

/-- `set_admin_custom_role`, for a role that is there. -/
def assign (id : Uuid) (role : Option Uuid) (h : ∀ r ∈ role, (db.customRoles.find? r).isSome) : AuthDb :=
  { db with
    admins := db.admins.alter (fun a => if a.id = id then { a with customRoleId := role } else a)
      fun a => by split <;> rfl
    assigned := by
      intro x hx r hr
      obtain ⟨a, ha, rfl⟩ := mem_map.mp hx
      by_cases hid : a.id = id
      · rw [if_pos hid] at hr
        exact h r hr
      · rw [if_neg hid] at hr
        exact db.assigned a ha r hr }

/-- Insert or change a custom role. -/
def putRole (role : CustomRole) : AuthDb :=
  { db with
    customRoles := db.customRoles.put role
    assigned := by
      intro a ha r hr
      rw [find?_put]
      split
      · rfl
      · exact db.assigned a ha r hr }

/-- Delete a custom role; the administrators who have it lose it (`ON DELETE SET NULL`). -/
def deleteRole (id : Uuid) : AuthDb :=
  { db with
    customRoles := db.customRoles.keep (·.id ≠ id)
    admins := db.admins.alter (Admin.lose id) fun a => by rw [Admin.lose]; split <;> rfl
    assigned := by
      intro x hx r hr
      obtain ⟨a, ha, rfl⟩ := mem_map.mp hx
      rw [Admin.lose] at hr
      split at hr
      · cases hr
      rename_i hne
      have hrid : r ≠ id := by
        rintro rfl
        exact hne hr
      rw [find?_keep_ne, if_neg hrid]
      exact db.assigned a ha r hr }

end AuthDb

/-- `set_reseller_groups`, in a transaction of its own. -/
def setResellerGroups (admin : Uuid) (groups : List Uuid) : Statement := fun db =>
  if groups.all (· ∈ db.nodeGroups) then
    .ok { db with resellerGroups := db.resellerGroups.filter (·.1 ≠ admin) ++ groups.dedup.map (admin, ·) }
  else .error .reference

def setAdminCustomRole (id : Uuid) : Patch Uuid → Statement
  | .missing, db => .ok db
  | .null, db => .ok (db.assign id none fun _ hr => nomatch hr)
  | .value role, db =>
    if h : (db.customRoles.find? role).isSome then
      .ok (db.assign id (some role) fun _ hr => some.inj hr ▸ h)
    else .error .reference

def deleteAdminSessions (id : Uuid) : Statement := fun db =>
  .ok { db with sessions := db.sessions.keep (·.adminId ≠ id) }

/-! ### Administrators -/

/-- `hash_password`, with the text that Argon2 gives. -/
def hashPassword (hash password : String) : Except Refusal String :=
  if password.utf8ByteSize < 10 then .error .internal else .ok hash

structure CreateAdminInput where
  (username password role : String)
  (maxUsers userTrafficCeilingBytes trafficLimitBytes commissionPercent : ℤ)
  groupIds : List Uuid

/-- The row of a new administrator. -/
def CreateAdminInput.admin (input : CreateAdminInput) (id : Uuid) (hash : String) (role : Role) : Admin where
  id := id
  username := trim input.username
  passwordHash := hash
  role := role
  enabled := true
  maxUsers := max input.maxUsers 0
  userTrafficCeilingBytes := max input.userTrafficCeilingBytes 0
  trafficLimitBytes := max input.trafficLimitBytes 0
  commissionPercent := min (max input.commissionPercent 0) 100
  customRoleId := none

variable (g : Gate)

/-- The insertion: the name has 2 to 96 characters and is not taken in any case. -/
def insertNewAdmin (input : CreateAdminInput) (id : Uuid) (hash : String) (role : Role) :
    Statement := fun db =>
  if ¬ (2 ≤ (trim input.username).toList.length ∧ (trim input.username).toList.length ≤ 96) then
    .error .constraint
  else if (db.admins.find? id).isSome ∨
      db.admins.rows.any fun a => g.lower a.username = g.lower (trim input.username) then
    .error .conflict
  else .ok (db.insertAdmin (input.admin id hash role) rfl)

/-- The checks of `create_admin`. -/
def checkCreate (hash : String) (input : CreateAdminInput) : Except Refusal (Role × String) :=
  match Role.ofName? input.role with
  | none => .error (.badRequest "invalid role")
  | some role => (hashPassword hash input.password).map (role, ·)

variable (f : Faults)

/-- `create_admin`, with the id and the hash it draws. -/
def createAdmin (id : Uuid) (hash : String) (input : CreateAdminInput) : AuthDb → AuthDb × Except Refusal Unit :=
  perform (checkCreate hash input) fun x =>
    attempt f.row (insertNewAdmin g input id x.2 x.1) ::
      if x.1 = .reseller then [attempt f.groups (setResellerGroups id input.groupIds)] else []

structure UpdateAdminInput where
  role : Option String
  enabled : Option Bool
  password : Option String
  (maxUsers userTrafficCeilingBytes trafficLimitBytes commissionPercent : Option ℤ)
  groupIds : Option (List Uuid)
  customRoleId : Patch Uuid

/-- The row after an update. -/
def UpdateAdminInput.apply (input : UpdateAdminInput) (hash : Option String) (a : Admin) : Admin :=
  { a with
    role := (input.role.bind Role.ofName?).getD a.role
    enabled := input.enabled.getD a.enabled
    passwordHash := hash.getD a.passwordHash
    maxUsers := (input.maxUsers.map (max · 0)).getD a.maxUsers
    userTrafficCeilingBytes := (input.userTrafficCeilingBytes.map (max · 0)).getD a.userTrafficCeilingBytes
    trafficLimitBytes := (input.trafficLimitBytes.map (max · 0)).getD a.trafficLimitBytes
    commissionPercent := (input.commissionPercent.map fun v => min (max v 0) 100).getD a.commissionPercent }

/-- The update takes the target's powers as an owner. -/
def UpdateAdminInput.demotes (input : UpdateAdminInput) : Bool :=
  input.enabled = some false || input.role.any (· ≠ "owner")

/-- The update of the row. -/
def updateAdminRow (id : Uuid) (hash : Option String) (input : UpdateAdminInput) : Statement := fun db =>
  if (db.admins.find? id).isSome then .ok (db.updateAdmin id (input.apply hash) fun _ => ⟨rfl, rfl⟩)
  else .error (.notFound "admin not found")

/-- What follows it. -/
def afterUpdate (id : Uuid) (hash : Option String) (input : UpdateAdminInput) : List Statement :=
  (match input.groupIds with
    | some groups => [attempt f.groups (setResellerGroups id groups)]
    | none => []) ++
  (match input.customRoleId with
    | .missing => []
    | patch => [attempt f.assign (setAdminCustomRole id patch)]) ++
  if input.enabled = some false ∨ hash.isSome then [attempt f.sessions (deleteAdminSessions id)] else []

/-- The checks of `update_admin`; the hash of a new password is their result. -/
def checkUpdate (i : Identity) (id : Uuid) (hash : String) (input : UpdateAdminInput) :
    Except Refusal (Option String) :=
  if input.role.any fun name => (Role.ofName? name).isNone then .error (.badRequest "invalid role")
  else if i.adminId = some id ∧ input.demotes then
    .error (.badRequest "you cannot disable or demote your own owner account")
  else match input.password with
    | none => .ok none
    | some password => (hashPassword hash password).map some

def updateAdmin (i : Identity) (id : Uuid) (hash : String) (input : UpdateAdminInput) :
    AuthDb → AuthDb × Except Refusal Unit :=
  perform (checkUpdate i id hash input) fun hash =>
    attempt f.row (updateAdminRow id hash input) :: afterUpdate f id hash input

/-! ### Custom roles and API keys -/

def validPermissions : Json → Bool
  | .obj fields => fields.all fun v =>
    v.1 ∈ ["nodes", "inbounds", "users", "groups", "routing", "domains", "config", "notifications",
      "audit", "admin"] && v.2.asI64?.any fun n => 0 ≤ n && n ≤ 2
  | _ => false

structure NewCustomRole where
  name : String
  permissions : Json

def checkNewRole (input : NewCustomRole) : Except Refusal Unit :=
  if trim input.name = "" ∨ 64 < input.name.utf8ByteSize then
    .error (.badRequest "name is required (max 64 chars)")
  else if ¬ validPermissions input.permissions then
    .error (.badRequest "permissions must map known domains to 0/1/2")
  else .ok ()

def insertCustomRole (id : Uuid) (input : NewCustomRole) : Statement := fun db =>
  if db.customRoles.rows.any fun r => r.id = id ∨ r.name = trim input.name then .error .conflict
  else .ok (db.putRole ⟨id, trim input.name, input.permissions⟩)

/-- `create_custom_role`, with the id it draws. -/
def createCustomRole (id : Uuid) (input : NewCustomRole) : AuthDb → AuthDb × Except Refusal Unit :=
  perform (checkNewRole input) fun _ => [attempt f.row (insertCustomRole id input)]

structure UpdateCustomRole where
  name : Option String
  permissions : Option Json

def checkPermissions (permissions : Option Json) : Except Refusal Unit :=
  if permissions.any fun p => !validPermissions p then
    .error (.badRequest "permissions must map known domains to 0/1/2")
  else .ok ()

def updateCustomRoleRow (id : Uuid) (input : UpdateCustomRole) : Statement := fun db =>
  match db.customRoles.find? id with
  | none => .error (.notFound "custom role not found")
  | some role =>
    let name := (input.name.map trim).getD role.name
    if db.customRoles.rows.any fun r => r.id ≠ id ∧ r.name = name then .error .conflict
    else .ok (db.putRole ⟨role.id, name, input.permissions.getD role.permissions⟩)

def updateCustomRole (id : Uuid) (input : UpdateCustomRole) : AuthDb → AuthDb × Except Refusal Unit :=
  perform (checkPermissions input.permissions) fun _ => [attempt f.row (updateCustomRoleRow id input)]

def deleteCustomRole (id : Uuid) : Statement := fun db =>
  if (db.customRoles.find? id).isSome then .ok (db.deleteRole id)
  else .error (.notFound "custom role not found")

structure NewApiKeyInput where
  (name role : String)
  expiresDays : ℤ

def isControl (c : Char) : Bool := c.toNat < 0x20 || (0x7f ≤ c.toNat && c.toNat < 0xa0)

/-- Microseconds of a day. -/
def dayMicros : ℤ := 86400000000

/-- `validate_api_key_input`: the name, the role and the end. -/
def validateApiKeyInput (i : Identity) (now : ℤ) (input : NewApiKeyInput) : Except Refusal (String × Role × Option ℤ) :=
  let name := trim input.name
  if name = "" ∨ 64 < name.toList.length ∨ name.toList.any isControl then
    .error (.badRequest "name must be 1-64 printable characters")
  else match [Role.owner, .admin, .operator, .viewer].find? (·.name = trim input.role) with
    | none => .error (.badRequest "scope must be owner/admin/operator/viewer")
    | some role =>
      if i.isReseller ∨ ¬ i.permits role then .error (.forbidden "cannot mint a key above your own role")
      else if ¬ (0 ≤ input.expiresDays ∧ input.expiresDays ≤ 3650) then
        .error (.badRequest "expires_days must be between 0 and 3650")
      else .ok (name, role,
        if 0 < input.expiresDays then some (now + input.expiresDays * dayMicros) else none)

def insertApiKey (id : Uuid) (name hash : String) (role : Role) (createdBy : Option Uuid)
    (expiresAt : Option ℤ) : Statement := fun db =>
  if db.apiKeys.rows.any fun k => k.id = id ∨ k.keyHash = hash then .error .conflict
  else .ok { db with apiKeys := db.apiKeys.put ⟨id, name, hash, role, createdBy, expiresAt, none⟩ }

variable (now : ℤ)

/-- `create_api_key`, with the id and the token it draws. -/
def createApiKey (i : Identity) (id : Uuid) (token : String)
    (input : NewApiKeyInput) : AuthDb → AuthDb × Except Refusal Unit :=
  perform (validateApiKeyInput i now input) fun x =>
    [attempt f.row (insertApiKey id x.1 (g.tokenHash ("hny_" ++ token)) x.2.1 i.adminId x.2.2)]

def ApiKey.revoke (id : Uuid) (k : ApiKey) : ApiKey :=
  if k.id = id ∧ k.revokedAt = none then { k with revokedAt := some now } else k

theorem ApiKey.keyHash_revoke (id : Uuid) (k : ApiKey) : (k.revoke now id).keyHash = k.keyHash := by
  rw [revoke]
  split <;> rfl

def revokeApiKey (id : Uuid) : Statement := fun db =>
  if db.apiKeys.rows.any fun k => k.id = id ∧ k.revokedAt = none then
    .ok { db with apiKeys := db.apiKeys.alter (ApiKey.revoke now id) (ApiKey.keyHash_revoke now id) }
  else .error (.notFound "api key not found or already revoked")

/-! ### Calls -/

/-- A request with its body, and what its handler draws. Requests to other handlers may end sessions
    and change the allowlist of addresses and the groups of nodes. -/
inductive Op where
  | createAdmin (id : Uuid) (hash : String) (input : CreateAdminInput)
  | updateAdmin (id : Uuid) (hash : String) (input : UpdateAdminInput)
  | createCustomRole (id : Uuid) (input : NewCustomRole)
  | updateCustomRole (id : Uuid) (input : UpdateCustomRole)
  | deleteCustomRole (id : Uuid)
  | createApiKey (id : Uuid) (token : String) (input : NewApiKeyInput)
  | revokeApiKey (id : Uuid)
  | other (m : Method) (path : String) (ended : List String) (adminIps : List String) (nodeGroups : List Uuid)

/-- Where the router takes it from. -/
def Op.route : Op → Method × String
  | .createAdmin .. => (.post, "/admins")
  | .updateAdmin id .. => (.patch, "/admins/" ++ id.text)
  | .createCustomRole .. => (.post, "/custom-roles")
  | .updateCustomRole id .. => (.patch, "/custom-roles/" ++ id.text)
  | .deleteCustomRole id => (.delete, "/custom-roles/" ++ id.text)
  | .createApiKey .. => (.post, "/api-keys")
  | .revokeApiKey id => (.delete, "/api-keys/" ++ id.text)
  | .other m path .. => (m, path)

/-- A handler, for the identity that is let in. -/
def handle (i : Identity) : Op → AuthDb → AuthDb × Except Refusal Unit
  | .createAdmin id hash input => createAdmin g f id hash input
  | .updateAdmin id hash input => updateAdmin f i id hash input
  | .createCustomRole id input => createCustomRole f id input
  | .updateCustomRole id input => updateCustomRole f id input
  | .deleteCustomRole id => statements [attempt f.row (deleteCustomRole id)]
  | .createApiKey id token input => createApiKey g f now i id token input
  | .revokeApiKey id => statements [attempt f.row (revokeApiKey now id)]
  | .other _ _ ended adminIps nodeGroups => fun db =>
    ({ db with
        sessions := db.sessions.keep (·.tokenHash ∉ ended)
        adminIps := adminIps
        nodeGroups := nodeGroups }, .ok ())

structure ApiCall where
  now : ℤ
  faults : Faults
  head : Head
  op : Op

def ApiCall.request (c : ApiCall) : ApiRequest := ⟨c.head, c.op.route.1, c.op.route.2⟩

def answer (db : AuthDb) (c : ApiCall) : AuthDb × Except Refusal Unit :=
  match requireAuth g c.faults c.now db c.request with
  | .error e => (db, .error e)
  | .ok i => handle g c.faults c.now i c.op db

/-- A call, or a login that ends in a session. -/
inductive Event where
  | call (c : ApiCall)
  | login (s : Session)

def authStep (db : AuthDb) : Event → AuthDb
  | .call c => (answer g db c).1
  | .login s =>
    if (db.sessions.find? s.tokenHash).isSome then db else { db with sessions := db.sessions.put s }

/-! ### What a step does to administrators -/

/-- What an update may leave as the custom role. -/
def LeavesRole (input : UpdateAdminInput) (old new : Option Uuid) : Prop :=
  match input.customRoleId with
  | .missing => new = old
  | .null => new = old ∨ new = none
  | .value r => new = old ∨ new = some r

/-- The administrators after an update of one of them. -/
def Updated (db : AuthDb) (hash : Option String) (input : UpdateAdminInput) (a : Admin) (db' : AuthDb) : Prop :=
  ∃ role, LeavesRole input a.customRoleId role ∧ ∀ k, db'.admins.find? k =
    if k = a.id then some { input.apply hash a with customRoleId := role } else db.admins.find? k

section

variable {f : Faults} {i : Identity} {id : Uuid} {hash : String} {hash' : Option String}
  {input : UpdateAdminInput} {db db' : AuthDb} {a : Admin}

theorem perform_ok {α : Type} {check : Except Refusal α} {body : α → List Statement} {x : α}
    (h : check = .ok x) : perform check body db = statements (body x) db := by
  rw [h]
  rfl

theorem attempt_eq_ok {fails : Bool} {statement : Statement} :
    attempt fails statement db = .ok db' ↔ fails = false ∧ statement db = .ok db' := by
  cases fails with
  | true => simp [attempt]
  | false => simp [attempt]

/-- The statement leaves the administrators alone. -/
def KeepsAdmins (statement : Statement) : Prop :=
  ∀ db db', statement db = .ok db' → db'.admins = db.admins

def SameAdmins (db db' : AuthDb) : Prop := db'.admins = db.admins

theorem KeepsAdmins.attempt {fails : Bool} {statement : Statement} (h : KeepsAdmins statement) :
    KeepsAdmins (attempt fails statement) :=
  fun _ _ hs => h _ _ (attempt_eq_ok.mp hs).2

theorem statements_keepAdmins {body : List Statement} (h : ∀ statement ∈ body, KeepsAdmins statement) :
    SameAdmins db (statements body db).1 :=
  statements_inv (fun statement hs s s' hok hsame => (h statement hs s s' hok).trans hsame) rfl

theorem perform_keepsAdmins {α : Type} {check : Except Refusal α} {body : α → List Statement}
    (h : ∀ x, ∀ statement ∈ body x, KeepsAdmins statement) : SameAdmins db (perform check body db).1 := by
  cases check with
  | error e => exact rfl
  | ok x => exact statements_keepAdmins (h x)

/-- The statement leaves what `view` shows alone. -/
def LeavesAlone {α : Type} (view : AuthDb → α) (statement : Statement) : Prop :=
  ∀ db db', statement db = .ok db' → view db' = view db

theorem keepsAdmins_sessions (id : Uuid) : KeepsAdmins (deleteAdminSessions id) := fun _ _ hs => ok.inj hs ▸ rfl

section

variable {α : Type} {view : AuthDb → α}

theorem keeps_groups (id : Uuid) (groups : List Uuid)
    (h : ∀ (db : AuthDb) groups, view { db with resellerGroups := groups } = view db) :
    LeavesAlone view (setResellerGroups id groups) := by
  intro s s' hs
  rw [setResellerGroups] at hs
  split at hs
  · exact ok.inj hs ▸ h s _
  · cases hs

theorem keeps_insertRole (id : Uuid) (input : NewCustomRole) (h : ∀ db role, view (db.putRole role) = view db) :
    LeavesAlone view (insertCustomRole id input) := by
  intro s s' hs
  rw [insertCustomRole] at hs
  split at hs
  · cases hs
  · exact ok.inj hs ▸ h s _

theorem keeps_updateRole (id : Uuid) (input : UpdateCustomRole) (h : ∀ db role, view (db.putRole role) = view db) :
    LeavesAlone view (updateCustomRoleRow id input) := by
  intro s s' hs
  rw [updateCustomRoleRow] at hs
  split at hs
  · cases hs
  dsimp only at hs
  split at hs
  · cases hs
  · exact ok.inj hs ▸ h s _

variable (h : ∀ (db : AuthDb) keys, view { db with apiKeys := keys } = view db)
include h

theorem keeps_insertKey (id : Uuid) (name hash : String) (role : Role) (createdBy : Option Uuid)
    (expiresAt : Option ℤ) : LeavesAlone view (insertApiKey id name hash role createdBy expiresAt) := by
  intro s s' hs
  rw [insertApiKey] at hs
  split at hs
  · cases hs
  · exact ok.inj hs ▸ h s _

theorem keeps_revoke (now : ℤ) (id : Uuid) : LeavesAlone view (revokeApiKey now id) := by
  intro s s' hs
  rw [revokeApiKey] at hs
  split at hs
  · exact ok.inj hs ▸ h s _
  · cases hs

end

theorem leavesRole_old (input : UpdateAdminInput) (old : Option Uuid) : LeavesRole input old old := by
  rw [LeavesRole]
  split
  · rfl
  · exact .inl rfl
  · exact .inl rfl

theorem find?_updateAdmin (ha : db.admins.find? a.id = some a) (fn : Admin → Admin)
    (hf : ∀ a, (fn a).id = a.id ∧ (fn a).customRoleId = a.customRoleId) (k : Uuid) :
    (db.updateAdmin a.id fn hf).admins.find? k = if k = a.id then some (fn a) else db.admins.find? k := by
  simp only [AuthDb.updateAdmin, find?_alter_at]
  split
  · rename_i hk
    rw [hk, ha, map_some]
  · rfl

theorem find?_assign (role : Option Uuid) (h : ∀ r ∈ role, (db.customRoles.find? r).isSome) (k : Uuid) :
    (db.assign id role h).admins.find? k = if k = id then
      (db.admins.find? id).map fun a => { a with customRoleId := role } else db.admins.find? k := by
  simp only [AuthDb.assign, find?_alter_at]
  split
  · rename_i hk
    rw [hk]
  · rfl

theorem updated_after (h : ∀ k, db'.admins.find? k =
      if k = a.id then some (input.apply hash' a) else db.admins.find? k) :
    Updated db hash' input a (statements (afterUpdate f a.id hash' input) db').1 := by
  refine statements_inv ?_ ⟨a.customRoleId, leavesRole_old _ _, h⟩
  intro statement hstatement s s' hs ⟨role, hrole, hfind⟩
  simp only [afterUpdate, mem_append] at hstatement
  rcases hstatement with (hgroups | hassign) | hsessions
  · split at hgroups
    · rw [mem_singleton.mp hgroups] at hs
      exact ⟨role, hrole, KeepsAdmins.attempt (keeps_groups _ _ fun _ _ => rfl) _ _ hs ▸ hfind⟩
    · cases hgroups
  · -- the assignment itself
    have hput : ∀ new hnew, LeavesRole input a.customRoleId new → s' = s.assign a.id new hnew →
        Updated db hash' input a s' := by
      rintro new - hleaves rfl
      refine ⟨new, hleaves, fun k => ?_⟩
      rw [find?_assign, hfind, hfind, if_pos rfl]
      split <;> rfl
    split at hassign
    · cases hassign
    rw [mem_singleton.mp hassign] at hs
    obtain ⟨-, hs⟩ := attempt_eq_ok.mp hs
    cases hpatch : input.customRoleId with
    | missing =>
      rw [hpatch] at hs
      exact ⟨role, hrole, (ok.inj hs) ▸ hfind⟩
    | null =>
      rw [hpatch] at hs
      exact hput none _ (by rw [LeavesRole, hpatch]; exact .inr rfl) (ok.inj hs).symm
    | value r =>
      rw [hpatch, setAdminCustomRole] at hs
      split at hs
      · exact hput _ _ (by rw [LeavesRole, hpatch]; exact .inr rfl) (ok.inj hs).symm
      · cases hs
  · split at hsessions
    · rw [mem_singleton.mp hsessions] at hs
      exact ⟨role, hrole, (keepsAdmins_sessions _).attempt _ _ hs ▸ hfind⟩
    · cases hsessions

theorem attempt_updateAdminRow (hrow : f.row = false) (ha : db.admins.find? a.id = some a) :
    attempt f.row (updateAdminRow a.id hash' input) db =
      .ok (db.updateAdmin a.id (input.apply hash') fun _ => ⟨rfl, rfl⟩) := by
  rw [attempt_eq_ok, updateAdminRow, ha]
  exact ⟨hrow, rfl⟩

/-- An update that passes the checks changes the row. -/
theorem updateAdmin_done (hcheck : checkUpdate i a.id hash input = .ok hash') (hrow : f.row = false)
    (ha : db.admins.find? a.id = some a) : Updated db hash' input a (updateAdmin f i a.id hash input db).1 := by
  rw [updateAdmin, perform_ok hcheck]
  simp only [statements, attempt_updateAdminRow hrow ha]
  exact updated_after (find?_updateAdmin ha _ _)

theorem updateAdmin_refused
    (h : (∃ e, checkUpdate i id hash input = .error e) ∨ f.row = true ∨ db.admins.find? id = none) :
    (updateAdmin f i id hash input db).1 = db := by
  rw [updateAdmin]
  rcases hcheck : checkUpdate i id hash input with e | hash'
  · rfl
  rw [perform_ok rfl]
  have hfirst : ∃ e, attempt f.row (updateAdminRow id hash' input) db = .error e := by
    rcases h with ⟨e, he⟩ | hrow | hnone
    · rw [hcheck] at he
      cases he
    · exact ⟨.internal, by rw [hrow]; rfl⟩
    · cases f.row with
      | true => exact ⟨.internal, rfl⟩
      | false => exact ⟨.notFound "admin not found", by simp [attempt, updateAdminRow, hnone]⟩
  obtain ⟨e, he⟩ := hfirst
  simp [statements, he]

theorem createAdmin_admins (g : Gate) (f : Faults) (id : Uuid) (hash : String) (input : CreateAdminInput)
    (db : AuthDb) : (createAdmin g f id hash input db).1.admins = db.admins ∨ ∃ a : Admin,
      db.admins.find? a.id = none ∧ (createAdmin g f id hash input db).1.admins = db.admins.put a := by
  rw [createAdmin]
  rcases checkCreate hash input with e | x
  · exact .inl rfl
  rw [perform_ok rfl, statements]
  rcases hinsert : attempt f.row (insertNewAdmin g input id x.2 x.1) db with e | db₁
  · exact .inl rfl
  obtain ⟨-, hinsert⟩ := attempt_eq_ok.mp hinsert
  rw [insertNewAdmin] at hinsert
  split at hinsert
  · cases hinsert
  split at hinsert
  · cases hinsert
  rename_i hfree
  have hnew : db.admins.find? id = none := by
    simpa using (not_or.mp hfree).1
  refine .inr ⟨input.admin id x.2 x.1, hnew, ?_⟩
  -- the groups come after the row
  have hgroups : ∀ statement ∈ (if x.1 = .reseller then
      [attempt f.groups (setResellerGroups id input.groupIds)] else []), KeepsAdmins statement := by
    split
    · simpa using KeepsAdmins.attempt (keeps_groups id input.groupIds fun _ _ => rfl)
    · simp
  exact (statements_keepAdmins hgroups).trans (ok.inj hinsert ▸ rfl)

end

/-- What an event can do to the administrators. -/
inductive Effect (g : Gate) (db : AuthDb) : Event → AuthDb → Prop
  | same {e : Event} {db' : AuthDb} (h : db'.admins = db.admins) : Effect g db e db'
  | created {e : Event} {db' : AuthDb} (a : Admin) (hnew : db.admins.find? a.id = none)
      (h : db'.admins = db.admins.put a) : Effect g db e db'
  | updated {c : ApiCall} {db' : AuthDb} (i : Identity) (a : Admin) (hash : String) (hash' : Option String)
      (input : UpdateAdminInput) (hi : requireAuth g c.faults c.now db c.request = .ok i)
      (hop : c.op = .updateAdmin a.id hash input) (hcheck : checkUpdate i a.id hash input = .ok hash')
      (hrow : c.faults.row = false) (ha : db.admins.find? a.id = some a) (h : Updated db hash' input a db') :
      Effect g db (.call c) db'
  | deleted {c : ApiCall} {db' : AuthDb} (i : Identity) (r : Uuid)
      (hi : requireAuth g c.faults c.now db c.request = .ok i) (hop : c.op = .deleteCustomRole r)
      (h : ∀ k, db'.admins.find? k = (db.admins.find? k).map (Admin.lose r)) : Effect g db (.call c) db'

section

variable {g : Gate} {db : AuthDb}

theorem effect_updateAdmin {c : ApiCall} {i : Identity} {id : Uuid} {hash : String}
    {input : UpdateAdminInput} (hi : requireAuth g c.faults c.now db c.request = .ok i)
    (hop : c.op = .updateAdmin id hash input) : Effect g db (.call c) (updateAdmin c.faults i id hash input db).1 := by
  rcases hcheck : checkUpdate i id hash input with e | hash'
  · exact .same (by rw [updateAdmin_refused (.inl ⟨e, hcheck⟩)])
  cases hrow : c.faults.row with
  | true => exact .same (by rw [updateAdmin_refused (.inr (.inl hrow))])
  | false =>
    cases ha : db.admins.find? id with
    | none => exact .same (by rw [updateAdmin_refused (.inr (.inr ha))])
    | some a =>
      obtain ⟨-, rfl⟩ := find?_eq_some.mp ha
      exact .updated i a hash hash' input hi hop hcheck hrow ha (updateAdmin_done hcheck hrow ha)

theorem authStep_effect (g : Gate) (db : AuthDb) (e : Event) : Effect g db e (authStep g db e) := by
  cases e with
  | login s =>
    refine .same ?_
    rw [authStep]
    split <;> rfl
  | call c =>
    rw [authStep, answer]
    rcases hi : requireAuth g c.faults c.now db c.request with e | i
    · exact .same rfl
    dsimp only
    cases hop : c.op with
    | createAdmin id hash input =>
      rcases createAdmin_admins g c.faults id hash input db with h | ⟨a, hnew, h⟩
      · exact .same h
      · exact .created a hnew h
    | updateAdmin id hash input => exact effect_updateAdmin hi hop
    | createCustomRole id input =>
      exact .same (perform_keepsAdmins (by simpa using KeepsAdmins.attempt (keeps_insertRole id input fun _ _ => rfl)))
    | updateCustomRole id input =>
      exact .same (perform_keepsAdmins (by simpa using KeepsAdmins.attempt (keeps_updateRole id input fun _ _ => rfl)))
    | deleteCustomRole id =>
      rw [handle, statements]
      rcases hdelete : attempt c.faults.row (deleteCustomRole id) db with e | db'
      · exact .same rfl
      obtain ⟨-, hdelete⟩ := attempt_eq_ok.mp hdelete
      rw [deleteCustomRole] at hdelete
      split at hdelete
      · refine .deleted i id hi hop fun k => ?_
        change db'.admins.find? k = _
        rw [← ok.inj hdelete, AuthDb.deleteRole, find?_alter]
      · cases hdelete
    | createApiKey id token input =>
      refine .same (perform_keepsAdmins fun x => ?_)
      simpa using KeepsAdmins.attempt (keeps_insertKey (fun _ _ => rfl) id _ _ _ _ _)
    | revokeApiKey id =>
      exact .same (statements_keepAdmins (by simpa using KeepsAdmins.attempt (keeps_revoke (fun _ _ => rfl) c.now id)))
    | other m path ended adminIps nodeGroups => exact .same rfl

end

end Honey.Master
