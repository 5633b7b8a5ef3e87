import Honey.Master.Resellers

/-! What a reseller has in the panel besides its users: sessions, the history of its logins, and saved views.

        session        target = own account - rows of `admin_sessions` joined with the account
        saved view     own account - resource - name - definition

    The handlers are written as a reseller's request runs them; none of them reads a table about users. -/

namespace Honey.Master
open Honey.Schemes

/-! ### Rows -/

/-- The columns of `admin_sessions` that authentication does not read. -/
structure SessionDetail where
  tokenHash : String
  id : Uuid
  lastSeenAt : ℤ
  (userAgent remoteAddr : Option String)
  createdAt : ℤ
  deriving DecidableEq, Repr

/-- A session joined with its account. -/
structure AdminSession where
  (id adminId : Uuid)
  username : String
  (expiresAt lastSeenAt : ℤ)
  (userAgent remoteAddr : Option String)
  createdAt : ℤ
  deriving DecidableEq, Repr

/-- `admin_login_events`. -/
structure LoginEvent where
  id : ℤ
  adminId : Option Uuid
  (username outcome : String)
  (remoteAddr userAgent : Option String)
  createdAt : ℤ
  deriving DecidableEq, Repr

/-- `saved_views`. -/
structure SavedView where
  (id adminId : Uuid)
  (name resource : String)
  definition : Json
  (createdAt updatedAt : ℤ)

/-- The tables about accounts. -/
structure Office where
  auth : AuthDb
  details : Table SessionDetail.tokenHash
  events : List LoginEvent
  views : Table SavedView.id

/-! ### Sessions -/

variable (i : Identity)

def sessionAccount : Except Refusal Uuid :=
  match i.adminId with
  | some id => .ok id
  | none => .error (.forbidden "admin sessions require a panel session")

def mayManageAccount (own target : Uuid) : Bool :=
  target = own || (!i.isReseller && i.permits .admin)

namespace Office

variable (o : Office) (now : ℤ)

/-- A session that has not expired, with its account. -/
def sessionRow (s : Session) : Option AdminSession :=
  if now < s.expiresAt then
    (o.details.find? s.tokenHash).bind fun d => (o.auth.admins.find? s.adminId).map fun a =>
      ⟨d.id, s.adminId, a.username, s.expiresAt, d.lastSeenAt, d.userAgent, d.remoteAddr, d.createdAt⟩
  else none

def adminSessions : List AdminSession := o.auth.sessions.rows.filterMap (o.sessionRow now)

/-- `admin_session_id_for_hash`. -/
def sessionIdForHash (hash : String) : Option Uuid :=
  ((o.auth.sessions.find? hash).filter (now < ·.expiresAt)).bind fun s =>
    (o.details.find? s.tokenHash).map (·.id)

/-- The sessions that pass stay. -/
def keepSessions (p : Session → Bool) : Office :=
  { o with auth := { o.auth with sessions := o.auth.sessions.keep p } }

/-- The account that a query is about: its own, unless it may manage the other one. -/
def target (i : Identity) (adminId : Option Uuid) (refusal : String) : Except Refusal Uuid := do
  let own ← sessionAccount i
  let target := adminId.getD own
  if ¬ mayManageAccount i own target then throw (.forbidden refusal)
  if (o.auth.admins.find? target).isNone then throw (.notFound "admin not found")
  return target

variable (i : Identity)

/-- `list_sessions`: the sessions of an account, each with whether it is the one that asks. -/
def listSessions (adminId : Option Uuid) : Except Refusal (List (AdminSession × Bool)) := do
  let target ← o.target i adminId "admin session is outside your scope"
  let current := i.sessionHash.bind (o.sessionIdForHash now)
  let rows := ((o.adminSessions now).filter (·.adminId = target)).insertionSort fun a b => b.lastSeenAt ≤ a.lastSeenAt
  return rows.map fun s => (s, current = some s.id)

/-- `revoke_session`: the tables, and whether the session was the one that asked. -/
def revokeSession (id : Uuid) : Except Refusal (Office × Bool) := do
  let own ← sessionAccount i
  match (o.adminSessions now).find? (·.id = id) with
  | none => throw (.notFound "admin session not found")
  | some s =>
    if ¬ mayManageAccount i own s.adminId then throw (.forbidden "admin session is outside your scope")
    let current := i.sessionHash.bind (o.sessionIdForHash now) = some id
    return (o.keepSessions fun s => (o.details.find? s.tokenHash).all (·.id ≠ id), current)

/-- `revoke_other_sessions`, with the number of them. -/
def revokeOtherSessions : Except Refusal (Office × ℕ) := do
  let own ← sessionAccount i
  match i.sessionHash with
  | none => throw (.forbidden "current panel session is required")
  | some hash =>
    let other (s : Session) : Bool := s.adminId = own && s.tokenHash ≠ hash && now < s.expiresAt
    return (o.keepSessions (!other ·), (o.auth.sessions.rows.filter other).length)

/-- `list_login_history`. -/
def loginHistory (adminId : Option Uuid) (all : Bool) (limit : Option ℤ) : Except Refusal (List LoginEvent) := do
  let _ ← sessionAccount i
  let n := (max 1 (min (limit.getD 100) 200)).toNat
  let newest := o.events.insertionSort fun a b => b.createdAt ≤ a.createdAt
  if all then
    if i.isReseller ∨ ¬ i.permits .admin then
      throw (.forbidden "all login history requires admin role")
    return newest.take n
  let target ← o.target i adminId "login history is outside your scope"
  return (newest.filter (·.adminId = some target)).take n

end Office

/-! ### Saved views -/

def savedViewAdmin : Except Refusal Uuid :=
  match i.adminId with
  | some id => .ok id
  | none => .error (.forbidden "personal saved views require a panel session")

/-- The resources that have labels and saved views. -/
def viewResources : List String := ["nodes", "inbounds", "users", "issues"]

def ensureViewResource (resource : String) : Except Refusal Unit :=
  if resource ∉ viewResources then .error (.badRequest "unsupported saved-view resource")
  else if i.isReseller ∧ resource ≠ "users" then .error (.forbidden "resellers may only save user views")
  else .ok ()

def viewSorts : String → List String
  | "nodes" => ["name", "status", "last_seen"]
  | "inbounds" => ["tag", "node", "port"]
  | "users" => ["username", "status", "traffic"]
  | "issues" => ["severity", "detected", "entity"]
  | _ => []

def viewColumns : String → List String
  | "nodes" => ["name", "address", "status", "labels", "transport", "version", "last_seen", "actions"]
  | "inbounds" => ["tag", "node", "protocol", "labels", "core", "listen", "security", "status", "reach", "actions"]
  | "users" => ["username", "uuid", "status", "labels", "traffic", "expires", "actions"]
  | "issues" => ["severity", "code", "issue", "type", "entity", "labels", "node", "detected", "actions"]
  | _ => []

/-- The search text of a view, trimmed. -/
def normalizeSearch (definition : Json) : Except Refusal Json :=
  match definition.get? "search" with
  | none => .ok definition
  | some value => match value.asStr? with
    | none => .error (.badRequest "saved-view search must be a string")
    | some text =>
      if 200 < (trim text).utf8ByteSize then .error (.badRequest "saved-view search is too long")
      else .ok (definition.set "search" (.str (trim text)))

/-- The labels of a view, normalised. -/
def normalizeViewLabels (definition : Json) : Except Refusal Json :=
  match definition.get? "labels" with
  | none => .ok definition
  | some (.arr values) => match values.mapM Json.asStr? with
    | none => .error (.badRequest "saved-view labels must be strings")
    | some labels => (normalizeLabels labels).map fun labels =>
      definition.set "labels" (.arr (labels.map .str))
  | some _ => .error (.badRequest "saved-view labels must be an array")

def checkColumns (resource : String) : Option Json → Except Refusal Unit
  | none => .ok ()
  | some (.arr selected) =>
    if selected = [] ∨ selected.any fun v => !(v.asStr?.any (· ∈ viewColumns resource)) then
      .error (.badRequest "unsupported or empty saved-view columns")
    else .ok ()
  | some _ => .error (.badRequest "saved-view columns must be an array")

def normalizeViewDefinition (resource : String) (definition : Json) : Except Refusal Json :=
  match definition with
  | .obj fields => do
      if fields.any (·.1 ∉ ["search", "labels", "sort", "columns", "severity", "kind", "node"]) then
        throw (.badRequest "saved-view definition has an unknown field")
      let definition ← normalizeSearch (.obj fields)
      let definition ← normalizeViewLabels definition
      if (definition.get? "sort").any fun v => !(v.asStr?.any (· ∈ viewSorts resource)) then
        throw (.badRequest "unsupported saved-view sort")
      checkColumns resource (definition.get? "columns")
      if ["severity", "kind", "node"].any fun key => (definition.get? key).any fun v =>
          resource ≠ "issues" || !(v.asStr?.any (·.utf8ByteSize ≤ 64)) then
        throw (.badRequest "issue-only saved-view filter is invalid")
      if 8192 < definition.render.utf8ByteSize then
        throw (.badRequest "saved-view definition is too large")
      return definition
  | _ => .error (.badRequest "saved-view definition must be an object")

structure NewSavedView where
  (name resource : String)
  definition : Json

structure UpdateSavedView where
  name : Option String
  definition : Option Json

/-- A name of a view, trimmed. -/
def viewName (raw : String) : Except Refusal String :=
  if trim raw = "" ∨ 80 < (trim raw).utf8ByteSize then
    .error (.badRequest "saved-view name must be 1-80 characters")
  else .ok (trim raw)

namespace Office

variable (o : Office) (g : Gate) (le : String → String → Bool) (now : ℤ)

/-- `list_saved_views`, in the order of the collation `le`. -/
def listSavedViews (admin : Uuid) : List SavedView :=
  (o.views.rows.filter (·.adminId = admin)).insertionSort fun a b =>
    if a.resource = b.resource then le (g.lower a.name) (g.lower b.name) else le a.resource b.resource

/-- Store a view, unless the account has another one of the resource and the name. -/
def putView (v : SavedView) : Except Refusal (Office × SavedView) :=
  if o.views.rows.any fun w =>
      w.id ≠ v.id ∧ w.adminId = v.adminId ∧ w.resource = v.resource ∧ g.lower w.name = g.lower v.name then
    .error .conflict
  else .ok ({ o with views := o.views.put v }, v)

/-- `create_saved_view`, under the id that is drawn. -/
def createSavedView (i : Identity) (id : Uuid) (input : NewSavedView) : Except Refusal (Office × SavedView) := do
  let admin ← savedViewAdmin i
  ensureViewResource i input.resource
  let name ← viewName input.name
  let definition ← normalizeViewDefinition input.resource input.definition
  if (o.views.find? id).isSome then throw .conflict
  o.putView g ⟨id, admin, name, input.resource, definition, now, now⟩

def updateSavedView (i : Identity) (id : Uuid) (input : UpdateSavedView) : Except Refusal (Office × SavedView) := do
  let admin ← savedViewAdmin i
  match (o.listSavedViews g le admin).find? (·.id = id) with
  | none => throw (.notFound "saved view not found")
  | some v =>
    ensureViewResource i v.resource
    let name ← (input.name.map viewName).getD (.ok v.name)
    let definition ← (input.definition.map (normalizeViewDefinition v.resource)).getD (.ok v.definition)
    o.putView g { v with name := name, definition := definition, updatedAt := now }

def deleteSavedView (i : Identity) (id : Uuid) : Except Refusal Office := do
  let admin ← savedViewAdmin i
  if (o.views.find? id).any (·.adminId = admin) then
    return { o with views := o.views.keep (·.id ≠ id) }
  else throw (.notFound "saved view not found")

end Office

/-! ### Requests -/

/-- A request about the account itself. -/
inductive OfficeCall where
  | me
  | logout
  | sessions (adminId : Option Uuid)
  | revokeSession (id : Uuid)
  | revokeOthers
  | loginHistory (adminId : Option Uuid) (all : Bool) (limit : Option ℤ)
  | views
  | createView (input : NewSavedView)
  | updateView (id : Uuid) (input : UpdateSavedView)
  | deleteView (id : Uuid)

/-- An empty answer may take the session cookie away. -/
inductive OfficeReply where
  | identity (i : Identity)
  | noContent (setCookie : Option String)
  | sessions (rows : List (AdminSession × Bool))
  | revoked (n : ℕ)
  | events (rows : List LoginEvent)
  | views (rows : List SavedView)
  | view (v : SavedView)

/-- The cookie of an ended session. -/
def endedCookie : String := "honey_session=; Path=/; HttpOnly; SameSite=Strict; Max-Age=0"

/-- The handlers; `id` is drawn for a new row. -/
def Office.handle (o : Office) (g : Gate) (le : String → String → Bool) (now : ℤ) (i : Identity) (id : Uuid) :
    OfficeCall → Except Refusal (Office × OfficeReply)
  | .me => .ok (o, .identity i)
  | .logout =>
    .ok (match i.sessionHash with
      | some hash => o.keepSessions (·.tokenHash ≠ hash)
      | none => o, .noContent (some endedCookie))
  | .sessions adminId => (o.listSessions now i adminId).map fun rows => (o, .sessions rows)
  | .revokeSession sid => (o.revokeSession now i sid).map fun r =>
    (r.1, .noContent (if r.2 then some endedCookie else none))
  | .revokeOthers => (o.revokeOtherSessions now i).map fun r => (r.1, .revoked r.2)
  | .loginHistory adminId all limit => (o.loginHistory i adminId all limit).map fun rows => (o, .events rows)
  | .views => (savedViewAdmin i).map fun admin => (o, .views (o.listSavedViews g le admin))
  | .createView input => (o.createSavedView g now i id input).map fun r => (r.1, .view r.2)
  | .updateView vid input => (o.updateSavedView g le now i vid input).map fun r => (r.1, .view r.2)
  | .deleteView vid => (o.deleteSavedView i vid).map fun o => (o, .noContent none)

end Honey.Master
