import Honey.Master.Service
import Honey.Schemes.Run
import Honey.Schemes.Text

/-! What the API accepts as a user and as an inbound (`api/mod.rs`), and the users that a sequence of
    accepted requests leaves.

        create -+ names and passwords are not empty
        update -+> users, names unique

    Rows are here as `decrypt_user` gives them, with their secrets in the clear. -/

namespace Honey.Master
open Honey.Schemes Table

/-! ### Users -/

structure NewUser where
  (username password : String)
  (subscriptionTitle subscriptionDescription subscriptionGroup : Option String)
  subscriptionTrafficPolicy : String
  trafficLimitBytes : ℤ
  expiresAt : Option ℤ

/-- A field of a `PATCH` request. -/
inductive Patch (α : Type) where
  | missing
  | null
  | value (a : α)
  deriving Inhabited

def Patch.value? {α : Type} : Patch α → Option α
  | .value a => some a
  | _ => none

structure UpdateUser where
  (username password : Option String)
  (subscriptionTitle subscriptionDescription subscriptionGroup : Patch String)
  subscriptionTrafficPolicy : Option String
  enabled : Option Bool
  trafficLimitBytes : Option ℤ
  expiresAt : Patch ℤ

/-- A text of `1` to `max` characters, if there is one. -/
def validateText (max : ℕ) (message : String) (text : Option String) : Except String Unit :=
  reject (text.any fun t => !(1 ≤ (trim t).toList.length && (trim t).toList.length ≤ max)) message

def validateSubscriptionTitle : Option String → Except String Unit :=
  validateText 25 "subscription_title must contain 1 to 25 characters"

def validateSubscriptionDescription : Option String → Except String Unit :=
  validateText 200 "subscription_description must contain 1 to 200 characters"

def validateSubscriptionGroup : Option String → Except String Unit :=
  validateText 40 "subscription_group must contain 1 to 40 characters"

def validateTrafficPolicy (policy : String) (allowInherit : Bool) : Except String Unit :=
  reject (!(policy ∈ ["auto", "always", "never"] || (allowInherit && policy = "inherit")))
    "subscription_traffic_policy must be inherit, auto, always or never"

def validateUser (input : NewUser) : Except String Unit := do
  reject (trim input.username = "" || input.password = "") "username and password must not be empty"
  reject (input.trafficLimitBytes < 0) "traffic_limit_bytes must not be negative"
  validateSubscriptionTitle input.subscriptionTitle
  validateSubscriptionDescription input.subscriptionDescription
  validateSubscriptionGroup input.subscriptionGroup
  validateTrafficPolicy input.subscriptionTrafficPolicy true

def validateUpdateUser (input : UpdateUser) : Except String Unit := do
  reject (input.username.any (trim · = "") || input.password.any (· = "")) "username and password must not be empty"
  reject (input.trafficLimitBytes.any (· < 0)) "traffic_limit_bytes must not be negative"
  validateSubscriptionTitle input.subscriptionTitle.value?
  validateSubscriptionDescription input.subscriptionDescription.value?
  validateSubscriptionGroup input.subscriptionGroup.value?
  match input.subscriptionTrafficPolicy with
  | some policy => validateTrafficPolicy policy true
  | none => .ok ()

inductive ApiError where
  | badRequest (message : String)
  | notFound
  /-- A unique constraint of the table. -/
  | conflict

/-- `create_user`, with the id and the uuid it draws. -/
def createUser (users : Table User.id) (id : Uuid) (uuid : String) (input : NewUser) :
    Except ApiError (Table User.id) :=
  match validateUser input with
  | .error message => .error (.badRequest message)
  | .ok () =>
    if id ∈ users.rows.map (·.id) ∨ input.username ∈ users.rows.map (·.username) then .error .conflict
    else .ok (users.put ⟨id, input.username, uuid, input.password, true, input.trafficLimitBytes, 0, input.expiresAt⟩)

/-- The row after an update. -/
def UpdateUser.apply (input : UpdateUser) (u : User) : User :=
  { u with
    username := input.username.getD u.username
    password := input.password.getD u.password
    enabled := input.enabled.getD u.enabled
    trafficLimitBytes := input.trafficLimitBytes.getD u.trafficLimitBytes
    expiresAt := match input.expiresAt with
      | .missing => u.expiresAt
      | .null => none
      | .value t => some t }

def updateUser (users : Table User.id) (id : Uuid) (input : UpdateUser) : Except ApiError (Table User.id) :=
  match validateUpdateUser input with
  | .error message => .error (.badRequest message)
  | .ok () => match users.find? id with
    | none => .error .notFound
    | some u =>
      if ∃ v ∈ users.rows, v.id ≠ id ∧ v.username = (input.apply u).username then .error .conflict
      else .ok (users.put (input.apply u))

inductive UserOp where
  | create (id : Uuid) (uuid : String) (input : NewUser)
  | update (id : Uuid) (input : UpdateUser)

def UserOp.run (users : Table User.id) : UserOp → Except ApiError (Table User.id)
  | .create id uuid input => createUser users id uuid input
  | .update id input => updateUser users id input

/-- A request that fails changes nothing. -/
def userStep (users : Table User.id) (op : UserOp) : Table User.id :=
  match op.run users with
  | .ok users => users
  | .error _ => users

/-- What the requests guarantee. -/
structure Accounts (users : Table User.id) : Prop where
  distinct : ∀ u ∈ users.rows, ∀ v ∈ users.rows, u.username = v.username → u = v
  named : ∀ u ∈ users.rows, trim u.username ≠ ""
  password : ∀ u ∈ users.rows, u.password ≠ ""

theorem accounts_empty : Accounts empty :=
  ⟨fun _ h => (List.not_mem_nil h).elim, fun _ h => (List.not_mem_nil h).elim, fun _ h => (List.not_mem_nil h).elim⟩

theorem accounts_put {users : Table User.id} {r : User} (h : Accounts users)
    (hname : trim r.username ≠ "") (hpassword : r.password ≠ "")
    (hfree : ∀ v ∈ users.rows, v.id ≠ r.id → v.username ≠ r.username) : Accounts (users.put r) := by
  refine ⟨forall_put_pair (fun _ => rfl) (fun v hv hvr => ?_) h.distinct, forall_put hname h.named,
    forall_put hpassword h.password⟩
  have hne := hfree v hv hvr
  exact ⟨fun heq => absurd heq hne, fun heq => absurd heq.symm hne⟩

theorem validateUser_ok {input : NewUser} (h : validateUser input = .ok ()) :
    trim input.username ≠ "" ∧ input.password ≠ "" := by
  obtain ⟨⟨⟩, hfirst, -⟩ := bind_eq_ok.mp h
  simpa using reject_eq_ok.mp hfirst

theorem validateUpdateUser_ok {input : UpdateUser} (h : validateUpdateUser input = .ok ()) :
    (∀ n, input.username = some n → trim n ≠ "") ∧ ∀ p, input.password = some p → p ≠ "" := by
  obtain ⟨⟨⟩, hfirst, -⟩ := bind_eq_ok.mp h
  obtain ⟨hname, hpassword⟩ := Bool.or_eq_false_iff.mp (reject_eq_ok.mp hfirst)
  refine ⟨fun n hn => ?_, fun p hp => ?_⟩
  · simpa [hn] using hname
  · simpa [hp] using hpassword

theorem createUser_accounts {users users' : Table User.id} {id : Uuid} {uuid : String} {input : NewUser}
    (h : Accounts users) (hc : createUser users id uuid input = .ok users') : Accounts users' := by
  rw [createUser] at hc
  rcases hv : validateUser input with message | ⟨⟨⟩⟩
  · simp only [hv] at hc
    cases hc
  simp only [hv] at hc
  split at hc
  · cases hc
  rename_i hfree
  obtain ⟨hname, hpassword⟩ := validateUser_ok hv
  rw [← Except.ok.inj hc]
  exact accounts_put h hname hpassword fun v hv _ hvn =>
    hfree (.inr (List.mem_map.mpr ⟨v, hv, hvn⟩))

theorem updateUser_accounts {users users' : Table User.id} {id : Uuid} {input : UpdateUser}
    (h : Accounts users) (hc : updateUser users id input = .ok users') : Accounts users' := by
  rw [updateUser] at hc
  rcases hv : validateUpdateUser input with message | ⟨⟨⟩⟩
  · rw [hv] at hc
    cases hc
  rcases hu : users.find? id with _ | u
  · simp only [hv, hu] at hc
    cases hc
  simp only [hv, hu] at hc
  split at hc
  · cases hc
  rename_i hfree
  obtain ⟨hmem, rfl⟩ := find?_eq_some.mp hu
  obtain ⟨hname, hpassword⟩ := validateUpdateUser_ok hv
  rw [← Except.ok.inj hc]
  refine accounts_put h ?_ ?_ fun v hv hvid hvn => hfree ⟨v, hv, hvid, hvn⟩
  · -- the new name, or the one it had
    rcases hn : input.username with _ | n
    · simpa [UpdateUser.apply, hn] using h.named u hmem
    · simpa [UpdateUser.apply, hn] using hname n hn
  · rcases hp : input.password with _ | p
    · simpa [UpdateUser.apply, hp] using h.password u hmem
    · simpa [UpdateUser.apply, hp] using hpassword p hp

theorem accounts_step (users : Table User.id) (op : UserOp) (h : Accounts users) : Accounts (userStep users op) := by
  rw [userStep]
  split
  · rename_i users' hrun
    cases op with
    | create id uuid input => exact createUser_accounts h hrun
    | update id input => exact updateUser_accounts h hrun
  · exact h

/-- After any requests: names are unique and not blank, passwords not empty. -/
theorem accounts_run (ops : List UserOp) : Accounts (ops.foldl userStep empty) :=
  inv_foldl accounts_step ops empty accounts_empty

/-! ### Inbounds -/

/-- The protocols of `validate_effective_security`. -/
def protocolSupported (core kind : String) : Bool :=
  match core with
  | "singbox" => kind ∈ ["vless", "hysteria2", "vmess", "trojan", "shadowsocks", "tuic", "anytls", "shadowtls"]
  | "xray" => kind ∈ ["vless", "vmess", "trojan", "shadowsocks"]
  | _ => false

def networkSupported (core network : String) : Bool :=
  match core with
  | "singbox" => network ∈ ["tcp", "ws", "grpc", "http", "h2", "httpupgrade", "quic"]
  | "xray" => network ∈ ["tcp", "ws", "grpc", "http", "h2", "httpupgrade", "xhttp", "quic", "mkcp"]
  | _ => false

def validRealityKey (value : String) : Bool :=
  value.utf8ByteSize = 43 && value.toList.all fun c => c.isAlphanum || c == '-' || c == '_'

def validShortId (value : String) : Bool :=
  2 ≤ value.utf8ByteSize && value.utf8ByteSize ≤ 16 && value.utf8ByteSize % 2 = 0 &&
    value.toList.all fun c => c.isDigit || ('a' ≤ c && c ≤ 'f') || ('A' ≤ c && c ≤ 'F')

def blank (value : Option String) : Bool := value.getD "" = ""

def validateEffectiveSecurity (ib : Inbound) (acme : Bool) : Except String Unit := do
  reject (!protocolSupported ib.core ib.kind)
    ("protocol '" ++ ib.kind ++ "' is not supported by core '" ++ ib.core ++ "'")
  reject (!networkSupported ib.core ib.network)
    ("transport '" ++ ib.network ++ "' is not supported by core '" ++ ib.core ++ "'")
  reject (ib.kind = "hysteria2" && !ib.tlsEnabled) "hysteria2 requires tls_enabled=true"
  reject (ib.kind = "hysteria2" && ib.reality) "hysteria2 does not support reality"
  reject (ib.tlsEnabled && !ib.reality && !acme && (blank ib.certPath || blank ib.keyPath))
    "tls requires both cert_path and key_path (or enable acme)"
  reject (ib.reality && ib.kind ≠ "vless") "reality is supported only with vless"
  reject (ib.reality && blank ib.serverName) "reality requires server_name"
  reject (ib.reality && blank ib.realityHandshakeServer) "reality requires reality_handshake_server"
  reject (ib.reality && !ib.realityPrivateKey.any validRealityKey)
    "reality_private_key must be an unpadded base64url X25519 key"
  reject (ib.reality && !ib.realityPublicKey.any validRealityKey)
    "reality_public_key must be an unpadded base64url X25519 key"
  reject (ib.reality && (ib.realityShortIds.isEmpty || ib.realityShortIds.any (!validShortId ·)))
    "reality_short_ids must contain even-length hexadecimal IDs (2-16 chars)"
  reject (ib.reality && ib.core = "xray" && ib.network ∉ ["tcp", "xhttp", "grpc"])
    "xray reality supports only tcp, xhttp, or grpc transport"

theorem validateEffectiveSecurity_ok {ib : Inbound} {acme : Bool} (h : validateEffectiveSecurity ib acme = .ok ()) :
    protocolSupported ib.core ib.kind ∧ (ib.kind = "hysteria2" → ib.tlsEnabled) := by
  obtain ⟨⟨⟩, hprotocol, h⟩ := bind_eq_ok.mp h
  obtain ⟨⟨⟩, -, h⟩ := bind_eq_ok.mp h
  obtain ⟨⟨⟩, htls, -⟩ := bind_eq_ok.mp h
  refine ⟨by simpa using reject_eq_ok.mp hprotocol, fun hkind => ?_⟩
  simpa [hkind] using reject_eq_ok.mp htls

end Honey.Master
