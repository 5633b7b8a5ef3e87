import Honey.Master.Frames
import Honey.Master.Public
import Honey.Master.Resellers
import Honey.Master.Revert

/-! The requests that change users, groups, inbounds, WireGuard interfaces and services (`api/mod.rs`), each with
    the nodes that its handler hands to `push_nodes`.

        request -- checks -- statements -- push_nodes
                                               |
          an inbound, an interface, a service  +- its node
          the groups of a node                 +- the node
          a user                               +- the nodes of the user, before; of its groups, before and after
          an import                            +- every node, if somebody was created
          a group, a configuration             +- none

    The tables are as they are at rest: what a request brings is sealed on its way in, and a stored secret that
    the handler reads or returns has to open. Failures of single statements are not modelled. -/

namespace Honey.Master
open Honey.Schemes Json Except

/-! ### State and requests -/

/-- What the handlers take from outside; `readTime` reads a time in JSON. -/
structure Backend where
  gate : Gate
  env : Env
  texts : Texts
  readTime : String → Option ℤ
  fromTimestamp : ℤ → Option ℤ
  collates : env.Collates

/-- The tables. -/
structure Console where
  users : UserDb
  groups : Table NodeGroup.id
  versions : List EntityVersion
  routingProfiles : List Uuid

/-- Who asks. The account and the groups it may sell are read if it is a reseller. -/
structure Actor where
  identity : Identity
  account : Option Admin
  entitled : List Uuid

/-- An entry of `POST /import/users`. -/
structure ImportUser where
  username : String
  (trafficLimitBytes dataLimit expiresAt expire : Option ℤ)
  status : Option String
  enabled : Option Bool

/-- What is drawn for an entry. -/
structure ImportDraw where
  user : UserDraw
  password : Option String

structure NewWgInterface where
  name : String
  listenPort : ℤ
  addressCidr : String
  mtu : ℤ
  amnezia : Bool

structure WgDraw where
  id : Uuid
  privateKey : String
  amneziaParams : Json

structure UpdateWgInterface where
  name : Option String
  (listenPort mtu : Option ℤ)
  enabled : Option Bool

structure NewNodeService where
  (kind name : String)
  listenPort : ℤ
  config : Json

structure ServiceDraw where
  id : Uuid
  raw : Vector UInt8 16

structure UpdateNodeService where
  name : Option String
  listenPort : Option ℤ
  enabled : Option Bool
  config : Option Json

/-- A request, with what its handler draws. -/
inductive Change where
  | createInbound (id : Uuid) (fresh : String × String) (input : NewInbound)
  | updateInbound (id : Uuid) (fresh : String × String) (input : UpdateInbound)
  | revertInbound (id : Uuid) (version : ℕ) (fresh : String × String)
  | deleteInbound (id : Uuid)
  | createGroup (input : NewNodeGroup)
  | updateGroup (id : Uuid) (name note : Option String)
  | deleteGroup (id : Uuid)
  | configApply (doc : ConfigDoc)
  | setNodeGroups (id : Uuid) (groups : List Uuid)
  | createUser (x : UserDraw) (input : CreateUserInput)
  | editUser (x : EditDraw) (id : Uuid) (e : Edit)
  | revertUser (id : Uuid) (version : ℕ)
  | gdprErase (id : Uuid)
  | setQuotaInterval (id : Uuid) (interval : String)
  | assignProfile (id : Uuid) (profile : Option Uuid)
  | importUsers (input : List (ImportUser × ImportDraw))
  | createWg (x : WgDraw) (node : Uuid) (input : NewWgInterface)
  | updateWg (id : Uuid) (input : UpdateWgInterface)
  | deleteWg (id : Uuid)
  | createService (x : ServiceDraw) (node : Uuid) (input : NewNodeService)
  | updateService (id : Uuid) (input : UpdateNodeService)
  | deleteService (id : Uuid)

/-- The tables after a request, and the nodes to push; or the error. -/
abbrev Answer := Except Refusal (Console × List Uuid)

/-- The error of an inbound's statement. -/
def answered {α : Type} (missing : String) : Except ApiError α → Except Refusal α
  | .ok a => .ok a
  | .error (.badRequest message) => .error (.badRequest message)
  | .error .notFound => .error (.notFound missing)
  | .error .conflict => .error .conflict

def orMissing {α : Type} (missing : String) : Option α → Except Refusal α
  | some a => .ok a
  | none => .error (.notFound missing)

/-- `from_value` of a snapshot. -/
def revertable {α : Type} : Except String α → Except Refusal α
  | .ok a => .ok a
  | .error e => .error (.badRequest ("snapshot is not revertable: " ++ e))

/-- `push_nodes`: the nodes that are pushed a little later. -/
def pushNodes (settings : List (String × String)) (connected ids : List Uuid) : List Uuid :=
  if settingInt settings "auto_push_enabled" 1 = 0 then [] else ids.dedup.filter (· ∈ connected)

namespace Console

variable (b : Backend) (a : Actor) (now : ℤ) (s : Console)

def db : Db := s.users.db

def withUsers (users : UserDb) : Console := { s with users := users }

/-- Other tables, and the same users. -/
def withDb (db : Db) (h : db.users = s.db.users) : Console :=
  s.withUsers (s.users.withDb db (congrArg (fun t => t.rows.map (·.username)) h))

def groupDb : GroupDb := ⟨s.db, s.groups⟩

/-- Groups deleted, with what their foreign keys take along. -/
def without (r : Removal) : Console :=
  { s.withDb (r.run b.texts s.groupDb).db (by rw [run_db]; rfl) with groups := (r.run b.texts s.groupDb).groups }

def known : List Uuid := s.groups.rows.map (·.id)

end Console

/-! ### Inbounds -/

variable (env : Env)

/-- The rows that open. A lookup of another row fails the request; so does a chain through a row that is missing. -/
def Db.readable (db : Db) : Db :=
  { db with inbounds := db.inbounds.keep fun i => (env.decryptInbound i).toOption.isSome }

/-- A new row, with its secrets sealed. -/
def Inbound.sealed (ib : Inbound) : Except Refusal Inbound := do
  let key ← sealPassword env ib.realityPrivateKey
  let password ← sealPassword env ib.chainPassword
  return { ib with realityPrivateKey := key, chainPassword := password }

/-- A new private key, sealed. -/
def sealKey : Patch String → Except Refusal (Patch String)
  | .value key => (opened (env.encrypt key)).map .value
  | key => .ok key

/-- The row that the `UPDATE` of `update_inbound` leaves. -/
def UpdateInbound.sealedRow (input : UpdateInbound) (fresh : String × String) (stored : Inbound) :
    Except Refusal Inbound := do
  let key ← sealKey env input.realityPrivateKey
  let row := input.chain fresh ({ input with realityPrivateKey := key }.apply stored)
  match input.upstreamInboundId with
  | .value _ =>
    let password ← sealPassword env row.chainPassword
    return { row with chainPassword := password }
  | _ => return row

namespace Console

variable (b : Backend) (a : Actor) (now : ℤ) (s : Console)

/-- The constraints on a row, and the row. -/
def putInbound (row : Inbound) : Answer := do
  let _ ← answered "inbound not found" (writeInbound s.db row)
  return (s.withDb (s.db.withInbound row.id (some row)) rfl, [row.nodeId])

def createInbound (id : Uuid) (fresh : String × String) (input : NewInbound) : Answer := do
  validated (validateInbound (input.row id fresh))
  validated (validateUpstream (s.db.readable b.env) input.upstreamInboundId none input.core)
  if (s.db.inbounds.find? id).isSome then throw .conflict
  let row ← (input.stored id fresh).sealed b.env
  s.putInbound row

def updateInbound (id : Uuid) (fresh : String × String) (input : UpdateInbound) : Answer := do
  validated (validateUpdateInbound input)
  let stored ← orMissing "inbound not found" (s.db.inbounds.find? id)
  let current ← opened (b.env.decryptInbound stored)
  validated (validateUpdate (s.db.readable b.env) current input)
  let row ← input.sealedRow b.env fresh stored
  s.putInbound row

def revertInbound (id : Uuid) (version : ℕ) (fresh : String × String) : Answer := do
  let snapshot ← answered "version not found for this entity" (loadVersion s.versions version "inbound" id)
  let update ← revertable (UpdateInbound.fromValue snapshot)
  let stored ← orMissing "inbound not found" (s.db.inbounds.find? id)
  let row ← update.sealedRow b.env fresh stored
  let answer ← s.putInbound row
  let _ ← opened (b.env.decryptInbound row)
  return answer

/-- `delete_inbound`; `upstream_inbound_id` of others is set to null. -/
def deleteInbound (id : Uuid) : Answer := do
  let stored ← orMissing "inbound not found" (s.db.inbounds.find? id)
  let _ ← opened (b.env.decryptInbound stored)
  return (s.withDb (s.db.withInbound id none) rfl, [stored.nodeId])

/-! ### Groups -/

def createGroup (input : NewNodeGroup) : Answer := do
  if trim input.name = "" then throw (.badRequest "name is required")
  let g ← createNodeGroup input s.groupDb
  return ({ s with groups := g.groups }, [])

def updateGroup (id : Uuid) (name note : Option String) : Answer := do
  let cur ← orMissing "group not found" (s.groups.find? id)
  let g ← putGroup { cur with name := trim (name.getD cur.name), note := trim (note.getD cur.note) } s.groupDb
  return ({ s with groups := g.groups }, [])

def deleteGroup (id : Uuid) : Answer := do
  (Honey.Master.deleteGroup s.groupDb id).2
  return (s.without b (.api id), [])

/-- `config_apply`, as far as groups go. -/
def configApply (doc : ConfigDoc) : Answer := do
  let existing := listNodeGroups b.texts s.groupDb
  if doc.dryRun = false then (statements (doc.groups.map (storeGroup existing)) s.groupDb).2
  return (s.without b (.apply doc (prunedGroups b.texts existing doc).length), [])

def setNodeGroups (id : Uuid) (groups : List Uuid) : Answer := do
  if (s.db.nodes.find? id).isNone then throw (.notFound "node not found")
  if groups.all (· ∈ s.known) = false then throw .reference
  return (s.withDb { s.db with
    nodeGroupMembers := s.db.nodeGroupMembers.filter (·.1 ≠ id) ++ groups.dedup.map (id, ·) } rfl, [id])

end Console

/-! ### Users -/

/-- An account that nothing reads. -/
def Admin.blank : Admin := ⟨0, "", "", .viewer, false, 0, 0, 0, 0, none⟩

/-- What the statements about a user read besides it. -/
def Actor.market (b : Backend) (known : List Uuid) (account : Admin) (a : Actor) : Market :=
  ⟨b.gate, b.env, account, a.entitled, known⟩

def Actor.ownedUser (b : Backend) (a : Actor) (s : UserDb) (id : Uuid) : Except Refusal Subscriber := do
  let u ← userFound (← getUser b.env s id)
  if a.identity.isReseller ∧ u.profile.createdBy ≠ a.identity.adminId then
    throw (.forbidden "this user is outside your scope")
  return u

/-- The grant of the default group in `create_user`. -/
def UserDb.grantDefault (groups : Table NodeGroup.id) (id : Uuid) (s : UserDb) : UserDb :=
  let defaults := (groups.rows.filter (·.isDefault)).map fun g => (id, g.id)
  { s with db := { s.db with
      userGroupAccess := s.db.userGroupAccess ++ defaults.filter (· ∉ s.db.userGroupAccess) } }

def UserDb.setUserEnabled (now : ℤ) (id : Uuid) (enabled : Bool) (s : UserDb) : UserDb :=
  (s.changeUser id (fun u => { u with enabled := enabled }) fun _ => ⟨rfl, rfl⟩).amend id now (fun p => p)
    UserDb.columns_kept

/-- The nodes that are pushed for an edit. -/
def Edit.pushes (before after : Db) (id : Uuid) : Edit → List Uuid
  | .update _ | .delete | .rotate _ | .reset => userNodeIds before id
  | .setGroups _ => userNodeIds before id ++ userNodeIds after id
  | .rotateSubscription | .setAlias _ | .setLabels _ | .addSubscription _ | .deleteSubscription _ => []

/-- `serde_json::from_value` of an update of a user. -/
def UpdateUserInput.fromValue (readTime : String → Option ℤ) (j : Json) : Except String UpdateUserInput := do
  return {
    username := ← optionField asStr? j "username"
    password := ← optionField asStr? j "password"
    subscriptionTitle := ← patchField asStr? j "subscription_title"
    subscriptionDescription := ← patchField asStr? j "subscription_description"
    subscriptionGroup := ← patchField asStr? j "subscription_group"
    subscriptionTrafficPolicy := ← optionField asStr? j "subscription_traffic_policy"
    enabled := ← optionField asBool? j "enabled"
    trafficLimitBytes := ← optionField asInt? j "traffic_limit_bytes"
    expiresAt := ← patchField (fun v => v.asStr?.bind readTime) j "expires_at"
    deviceLimit := ← optionField asInt? j "device_limit" }

/-- The user that an entry stands for. -/
def ImportUser.new (b : Backend) (u : ImportUser) (password : String) : CreateUserInput where
  username := trim u.username
  password := password
  subscriptionTitle := none
  subscriptionDescription := none
  subscriptionGroup := none
  subscriptionTrafficPolicy := "inherit"
  trafficLimitBytes := max ((u.trafficLimitBytes.or u.dataLimit).getD 0) 0
  expiresAt := u.expiresAt.or ((u.expire.filter (0 < ·)).bind b.fromTimestamp)
  deviceLimit := 0

def ImportUser.isEnabled (u : ImportUser) : Bool :=
  u.enabled.getD !(u.status = some "disabled" || u.status = some "expired")

namespace Console

variable (b : Backend) (a : Actor) (now : ℤ) (s : Console)

def createUser (x : UserDraw) (input : CreateUserInput) : Answer := do
  validated (validateUser input.toNewUser)
  if a.identity.isReseller then
    if a.identity.adminId = none then throw (.forbidden "reseller identity has no account")
    match a.account with
    | none => throw (.forbidden "reseller account not found")
    | some account => match createForReseller (a.market b s.known account) now x input s.users with
      | (_, .error r) => throw r
      | (users, .ok ()) => return (s.withUsers users, userNodeIds users.db x.id)
  else
    let users ← insertUser b.gate b.env now x a.identity.adminId input s.users
    let users := users.grantDefault s.groups x.id
    return (s.withUsers users, userNodeIds users.db x.id)

/-- What an edit writes. Only a reseller is held to the groups it may sell. -/
def runEdit (x : EditDraw) (id : Uuid) (e : Edit) : Except Refusal UserDb :=
  match a.identity.isReseller, e with
  | false, .setGroups groups => s.users.setUserGroups s.known id groups
  | _, e => e.run (a.market b s.known (a.account.getD .blank)) now x id s.users

/-- The handlers that write one user. -/
def editUser (x : EditDraw) (id : Uuid) (e : Edit) : Answer := do
  e.check
  let _ ← a.ownedUser b s.users id
  let users ← runEdit b a now s x id e
  return (s.withUsers users, e.pushes s.db users.db id)

def revertUser (id : Uuid) (version : ℕ) : Answer := do
  let _ ← a.ownedUser b s.users id
  let snapshot ← answered "version not found for this entity" (loadVersion s.versions version "user" id)
  let update ← revertable (UpdateUserInput.fromValue b.readTime snapshot)
  let users ← userFound (← updateUserRow b.env now id update s.users)
  return (s.withUsers users, userNodeIds s.db id)

def gdprErase (id : Uuid) : Answer := do
  let _ ← a.ownedUser b s.users id
  return (s.withUsers (s.users.deleteUser id), userNodeIds s.db id)

def setQuotaInterval (id : Uuid) (interval : String) : Answer := do
  let interval := trim interval
  if interval ∉ ["none", "daily", "weekly"] then throw (.badRequest "interval must be none, daily or weekly")
  let resetAt := if interval = "none" then none else some (now + (if interval = "weekly" then 7 else 1) * 86400)
  let _ ← orMissing "user not found" (s.db.users.find? id)
  return (s.withUsers (s.users.amend id now
    (fun p => { p with quotaInterval := interval, quotaResetAt := resetAt }) fun _ => ⟨rfl, rfl⟩), [])

def assignProfile (id : Uuid) (profile : Option Uuid) : Answer := do
  if profile.all (· ∈ s.routingProfiles) = false then throw (.badRequest "routing profile does not exist")
  let _ ← orMissing "user not found" (s.db.users.find? id)
  return (s.withUsers (s.users.amend id now (fun p => { p with routingProfileId := profile })
    fun _ => ⟨rfl, rfl⟩), [])

/-- One entry of an import: the users, and whether one was created. -/
def importUser (users : UserDb) (entry : ImportUser × ImportDraw) : UserDb × Bool :=
  let name := trim entry.1.username
  if name = "" then (users, false)
  else if (users.db.users.rows.find? (·.username = name)).any fun u => (b.env.decryptUser u).toOption.isSome then
    (users, false)
  else match entry.2.password with
    | none => (users, false)
    | some password =>
      match insertUser b.gate b.env now entry.2.user a.identity.adminId (entry.1.new b password) users with
      | .error _ => (users, false)
      | .ok users =>
        let users := users.grantDefault s.groups entry.2.user.id
        (if entry.1.isEnabled then users else users.setUserEnabled now entry.2.user.id false, true)

/-- The loop of an import. -/
def importAll (acc : UserDb × Bool) (entry : ImportUser × ImportDraw) : UserDb × Bool :=
  ((importUser b a now s acc.1 entry).1, acc.2 || (importUser b a now s acc.1 entry).2)

def importUsers (input : List (ImportUser × ImportDraw)) : Answer :=
  let all := input.foldl (importAll b a now s) (s.users, false)
  .ok (s.withUsers all.1, if all.2 then all.1.db.nodes.rows.map (·.id) else [])

end Console

/-! ### WireGuard interfaces -/

/-- A new row, with its key sealed. -/
def NewWgInterface.row (input : NewWgInterface) (x : WgDraw) (node : Uuid) (key : String) (now : ℤ) : WgInterface where
  id := x.id
  nodeId := node
  name := trim input.name
  listenPort := input.listenPort
  privateKey := key
  addressCidr := trim input.addressCidr
  mtu := max 1280 (min input.mtu 1500)
  amnezia := input.amnezia
  amneziaParams := if input.amnezia then x.amneziaParams else .obj []
  enabled := true
  createdAt := now

/-- The row after an update. -/
def UpdateWgInterface.apply (input : UpdateWgInterface) (row : WgInterface) : WgInterface :=
  { row with
    name := input.name.getD row.name
    listenPort := input.listenPort.getD row.listenPort
    mtu := input.mtu.getD row.mtu
    enabled := input.enabled.getD row.enabled }

namespace Console

variable (b : Backend) (now : ℤ) (s : Console)

/-- The unique constraint on node and port. -/
def WgTaken (row : WgInterface) : Prop :=
  ∃ i ∈ s.db.wgInterfaces.rows, i.id ≠ row.id ∧ i.nodeId = row.nodeId ∧ i.listenPort = row.listenPort

instance (row : WgInterface) : Decidable (s.WgTaken row) := inferInstanceAs (Decidable (∃ _ ∈ _, _))

def createWg (x : WgDraw) (node : Uuid) (input : NewWgInterface) : Answer := do
  if trim input.name = "" then throw (.badRequest "name is required")
  if validPort input.listenPort = false then throw (.badRequest "listen_port out of range")
  validated (((parseCidr input.addressCidr).map fun _ => ()).mapError ("address_cidr: " ++ ·))
  if (s.db.nodes.find? node).isNone then throw (.notFound "node not found")
  let key ← opened (b.env.encrypt x.privateKey)
  let row := input.row x node key now
  if (s.db.wgInterfaces.find? x.id).isSome ∨ s.WgTaken row then throw .conflict
  return (s.withDb { s.db with wgInterfaces := s.db.wgInterfaces.put row } rfl, [node])

def updateWg (id : Uuid) (input : UpdateWgInterface) : Answer := do
  let old ← orMissing "wireguard interface not found" (s.db.wgInterfaces.find? id)
  if s.WgTaken (input.apply old) then throw .conflict
  let _ ← opened (b.env.decrypt old.privateKey)
  return (s.withDb { s.db with wgInterfaces := s.db.wgInterfaces.put (input.apply old) } rfl, [old.nodeId])

/-- `delete_wg`; the peers go with their interface. -/
def deleteWg (id : Uuid) : Answer := do
  let old ← orMissing "wireguard interface not found" (s.db.wgInterfaces.find? id)
  let _ ← opened (b.env.decrypt old.privateKey)
  return (s.withDb { s.db with
    wgInterfaces := s.db.wgInterfaces.keep (·.id ≠ id)
    wgPeers := s.db.wgPeers.keep (·.interfaceId ≠ id) } rfl, [old.nodeId])

end Console

/-! ### Services -/

/-- The row after an update. -/
def UpdateNodeService.apply (input : UpdateNodeService) (row : NodeService) : NodeService :=
  { row with
    name := input.name.getD row.name
    listenPort := input.listenPort.getD row.listenPort
    enabled := input.enabled.getD row.enabled
    config := input.config.getD row.config }

namespace Console

variable (b : Backend) (a : Actor) (now : ℤ) (s : Console)

/-- The unique constraint on node and port. -/
def ServiceTaken (row : NodeService) : Prop :=
  ∃ i ∈ s.db.services.rows, i.id ≠ row.id ∧ i.nodeId = row.nodeId ∧ i.listenPort = row.listenPort

instance (row : NodeService) : Decidable (s.ServiceTaken row) := inferInstanceAs (Decidable (∃ _ ∈ _, _))

def createService (x : ServiceDraw) (node : Uuid) (input : NewNodeService) : Answer := do
  if input.kind ∉ ["mtproto", "naive"] then throw (.badRequest "kind must be mtproto or naive")
  if trim input.name = "" then throw (.badRequest "name is required")
  if validPort input.listenPort = false then throw (.badRequest "listen_port out of range")
  validated (validateServiceConfig input.kind input.config)
  if (s.db.nodes.find? node).isNone then throw (.notFound "node not found")
  let secret ← sealPassword b.env (serviceSecret input.kind input.config x.raw)
  let row : NodeService := ⟨x.id, node, input.kind, trim input.name, input.listenPort, secret, input.config, true, now⟩
  if (s.db.services.find? x.id).isSome ∨ s.ServiceTaken row then throw .conflict
  return (s.withDb { s.db with services := s.db.services.put row } rfl, [node])

/-- The check of a new configuration, which reads the service. -/
def checkConfig (id : Uuid) : Option Json → Except Refusal Unit
  | none => .ok ()
  | some config => do
      let current ← orMissing "service not found" (s.db.services.find? id)
      let _ ← opened (b.env.decryptOption current.secret)
      validated (validateServiceConfig current.kind config)

def updateService (id : Uuid) (input : UpdateNodeService) : Answer := do
  s.checkConfig b id input.config
  if input.listenPort.all validPort = false then throw (.badRequest "listen_port out of range")
  let old ← orMissing "service not found" (s.db.services.find? id)
  if s.ServiceTaken (input.apply old) then throw .conflict
  let _ ← opened (b.env.decryptOption old.secret)
  return (s.withDb { s.db with services := s.db.services.put (input.apply old) } rfl, [old.nodeId])

def deleteService (id : Uuid) : Answer := do
  let old ← orMissing "service not found" (s.db.services.find? id)
  let _ ← opened (b.env.decryptOption old.secret)
  return (s.withDb { s.db with services := s.db.services.keep (·.id ≠ id) } rfl, [old.nodeId])

/-! ### Every request -/

def handle : Change → Answer
  | .createInbound id fresh input => s.createInbound b id fresh input
  | .updateInbound id fresh input => s.updateInbound b id fresh input
  | .revertInbound id version fresh => s.revertInbound b id version fresh
  | .deleteInbound id => s.deleteInbound b id
  | .createGroup input => s.createGroup input
  | .updateGroup id name note => s.updateGroup id name note
  | .deleteGroup id => s.deleteGroup b id
  | .configApply doc => s.configApply b doc
  | .setNodeGroups id groups => s.setNodeGroups id groups
  | .createUser x input => s.createUser b a now x input
  | .editUser x id e => s.editUser b a now x id e
  | .revertUser id version => s.revertUser b a now id version
  | .gdprErase id => s.gdprErase b a id
  | .setQuotaInterval id interval => s.setQuotaInterval now id interval
  | .assignProfile id profile => s.assignProfile now id profile
  | .importUsers input => s.importUsers b a now input
  | .createWg x node input => s.createWg b now x node input
  | .updateWg id input => s.updateWg b id input
  | .deleteWg id => s.deleteWg b id
  | .createService x node input => s.createService b now x node input
  | .updateService id input => s.updateService b id input
  | .deleteService id => s.deleteService b id

end Console

/-! ### What an accepted request on an inbound has passed -/

theorem orMissing_eq_ok {α : Type} {missing : String} {x : Option α} {y : α} :
    orMissing missing x = .ok y ↔ x = some y := by
  cases x <;> simp [orMissing]

theorem answered_eq_ok {α : Type} {missing : String} {x : Except ApiError α} {y : α} :
    answered missing x = .ok y ↔ x = .ok y := by
  cases x with
  | ok z => simp [answered]
  | error e => cases e <;> simp [answered]

theorem revertable_eq_ok {α : Type} {x : Except String α} {y : α} : revertable x = .ok y ↔ x = .ok y := by
  cases x <;> simp [revertable]

theorem validated_eq_ok {x : Except String Unit} : validated x = .ok () ↔ x = .ok () := by
  cases x <;> simp [validated]

theorem opened_eq_ok {α : Type} {x : Except String α} {y : α} : opened x = .ok y ↔ x = .ok y := by
  cases x <;> simp [opened]

theorem sealed_eq {env : Env} {ib row : Inbound} (h : ib.sealed env = .ok row) :
    ∃ key password, row = { ib with realityPrivateKey := key, chainPassword := password } := by
  obtain ⟨key, -, h⟩ := bind_eq_ok.mp h
  obtain ⟨password, -, h⟩ := bind_eq_ok.mp h
  exact ⟨key, password, (ok.inj h).symm⟩

theorem sealedRow_eq {env : Env} {input : UpdateInbound} {fresh : String × String} {stored row : Inbound}
    (h : input.sealedRow env fresh stored = .ok row) :
    ∃ key uuid password, row = { input.apply stored with
      realityPrivateKey := key
      upstreamInboundId := input.upstreamInboundId.over stored.upstreamInboundId
      chainUuid := uuid
      chainPassword := password } := by
  obtain ⟨key, -, h⟩ := bind_eq_ok.mp h
  cases hup : input.upstreamInboundId with
  | missing | null =>
    simp only [UpdateInbound.chain, hup] at h
    obtain rfl := ok.inj h
    exact ⟨_, _, _, rfl⟩
  | value up =>
    simp only [UpdateInbound.chain, hup] at h
    obtain ⟨password, -, h⟩ := bind_eq_ok.mp h
    obtain rfl := ok.inj h
    exact ⟨_, _, _, rfl⟩

section

variable {b : Backend} {s s' : Console} {ids : List Uuid} {id : Uuid} {fresh : String × String}

theorem putInbound_eq_ok {row : Inbound} : s.putInbound row = .ok (s', ids) ↔
    writeInbound s.db row = .ok { s.db with inbounds := s.db.inbounds.put row } ∧
      s' = s.withDb (s.db.withInbound row.id (some row)) rfl ∧ ids = [row.nodeId] := by
  rw [Console.putInbound, bind_eq_ok]
  constructor
  · rintro ⟨db', hwrite, h⟩
    obtain ⟨rfl, rfl⟩ := Prod.mk.inj (ok.inj h)
    rw [answered_eq_ok] at hwrite
    obtain ⟨-, rfl⟩ := writeInbound_ok hwrite
    exact ⟨hwrite, rfl, rfl⟩
  · rintro ⟨hwrite, rfl, rfl⟩
    exact ⟨_, answered_eq_ok.mpr hwrite, rfl⟩

theorem Console.createInbound_eq_ok {input : NewInbound} : s.createInbound b id fresh input = .ok (s', ids) ↔
    validateInbound (input.row id fresh) = .ok () ∧
      validateUpstream (s.db.readable b.env) input.upstreamInboundId none input.core = .ok () ∧
      s.db.inbounds.find? id = none ∧
      ∃ row, (input.stored id fresh).sealed b.env = .ok row ∧ s.putInbound row = .ok (s', ids) := by
  rw [Console.createInbound, then_eq_ok, then_eq_ok, validated_eq_ok, validated_eq_ok]
  cases s.db.inbounds.find? id with
  | none => simp [bind_eq_ok]
  | some old => simp [bind, Except.bind]

theorem Console.updateInbound_eq_ok {input : UpdateInbound} : s.updateInbound b id fresh input = .ok (s', ids) ↔
    validateUpdateInbound input = .ok () ∧ ∃ stored current row, s.db.inbounds.find? id = some stored ∧
      b.env.decryptInbound stored = .ok current ∧ validateUpdate (s.db.readable b.env) current input = .ok () ∧
      input.sealedRow b.env fresh stored = .ok row ∧ s.putInbound row = .ok (s', ids) := by
  rw [Console.updateInbound, then_eq_ok, validated_eq_ok]
  refine and_congr_right fun _ => ?_
  constructor
  · intro h
    obtain ⟨stored, hstored, h⟩ := bind_eq_ok.mp h
    obtain ⟨current, hcurrent, h⟩ := bind_eq_ok.mp h
    obtain ⟨hup, h⟩ := then_eq_ok.mp h
    obtain ⟨row, hrow, h⟩ := bind_eq_ok.mp h
    exact ⟨stored, current, row, orMissing_eq_ok.mp hstored, opened_eq_ok.mp hcurrent, validated_eq_ok.mp hup, hrow, h⟩
  · rintro ⟨stored, current, row, hstored, hcurrent, hup, hrow, h⟩
    refine bind_eq_ok.mpr ⟨stored, orMissing_eq_ok.mpr hstored, ?_⟩
    refine bind_eq_ok.mpr ⟨current, opened_eq_ok.mpr hcurrent, ?_⟩
    exact then_eq_ok.mpr ⟨validated_eq_ok.mpr hup, bind_eq_ok.mpr ⟨row, hrow, h⟩⟩

theorem Console.deleteInbound_ok (h : s.deleteInbound b id = .ok (s', ids)) :
    ∃ stored, s.db.inbounds.find? id = some stored ∧ s'.db = s.db.withInbound id none ∧ ids = [stored.nodeId] := by
  obtain ⟨stored, hstored, h⟩ := bind_eq_ok.mp h
  obtain ⟨_, -, h⟩ := bind_eq_ok.mp h
  obtain ⟨rfl, rfl⟩ := Prod.mk.inj (ok.inj h)
  exact ⟨stored, orMissing_eq_ok.mp hstored, rfl, rfl⟩

end

end Honey.Master
