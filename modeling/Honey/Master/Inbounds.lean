import Honey.Master.Accept

/-! Creating and editing inbounds (`api/mod.rs`, `db/repo.rs`).

        create   validate_inbound - validate_upstream - INSERT
        update   validate_update_inbound - validate_effective_update - validate_upstream - UPDATE

    A creation goes through all of `validate_inbound`. An update checks the fields of the patch one by
    one and then the security of the row it leaves, which is less: what it does not look at is
    `Overlooked`. Rows are here with their secrets in the clear. -/

namespace Honey.Master
open Honey.Schemes Table Json List Bool

/-! ### The checks -/

def Json.isObject : Json → Bool
  | .obj _ => true
  | _ => false

/-- `Value::as_u64`. -/
def Json.asU64? : Json → Option ℕ
  | .int n => if 0 ≤ n ∧ n < 2 ^ 64 then some n.toNat else none
  | _ => none

variable (extra : Json)

def acmeEnabled : Bool :=
  match extra.get? "acme" with
  | none | some .null | some (.bool false) => false
  | some _ => true

/-- `acme_email`: of the settings, or of the extra itself. -/
def acmeEmail : Option String :=
  ((((extra.get? "acme").bind (·.get? "email")).or (extra.get? "acme_email")).bind asStr?).filter (trim · ≠ "")

def isValidNetwork (network : String) : Bool :=
  network ∈ ["tcp", "ws", "grpc", "http", "h2", "httpupgrade", "xhttp", "quic", "mkcp"]

def isValidTransportMode (mode : String) : Bool :=
  mode ∈ ["auto", "packet-up", "stream-up", "stream-one"]

def isValidUtlsFingerprint (fingerprint : String) : Bool :=
  fingerprint ∈ ["chrome", "firefox", "safari", "ios", "android", "edge", "360", "qq", "random", "randomized"]

def validPort (port : ℤ) : Bool := 1 ≤ port && port ≤ 65535

/-- A text of `extra.happ`. -/
def validateHappText (happ : Json) (key : String) (max : ℕ) : Except String Unit :=
  match happ.get? key with
  | none => .ok ()
  | some value => match value.asStr? with
    | none => .error ("extra.happ." ++ key ++ " must be text")
    | some text => reject (max < (trim text).toList.length)
        ("extra.happ." ++ key ++ " must not exceed " ++ toString max ++ " characters")

def validateCountryCode (happ : Json) : Except String Unit :=
  match happ.get? "country_code" with
  | none => .ok ()
  | some value => match value.asStr? with
    | none => .error "extra.happ.country_code must be text"
    | some code => reject (code ≠ "" && (code.utf8ByteSize ≠ 2 || !code.toList.all Char.isAlpha))
        "extra.happ.country_code must be a two-letter ISO code"

/-- The part of `validate_inbound_basics` on `extra.happ`. -/
def validateHapp : Except String Unit :=
  match extra.get? "happ" with
  | none => .ok ()
  | some happ => do
      reject (!happ.isObject) "extra.happ must be an object"
      validateHappText happ "name" 80
      validateHappText happ "description" 30
      validateCountryCode happ

/-- `acme.get(key).and_then(as_bool).unwrap_or(false)`. -/
def Json.flag (j : Json) (key : String) : Bool := ((j.get? key).bind asBool?).getD false

def validateAlternativePort (acme : Json) : Except String Unit :=
  match acme.get? "alternative_http_port" with
  | none => .ok ()
  | some value => match value.asU64? with
    | none => .error "extra.acme.alternative_http_port must be a port"
    | some port => reject (!(1 ≤ port && port ≤ 65535)) "extra.acme.alternative_http_port must be between 1 and 65535"

/-- The part of `validate_inbound_basics` on `extra.acme`, where that is an object. -/
def validateAcmeOptions : Except String Unit :=
  match extra.get? "acme" with
  | some (.obj fields) => do
      validateAlternativePort (.obj fields)
      reject (flag (.obj fields) "disable_http_challenge" && flag (.obj fields) "disable_tls_alpn_challenge" &&
          (get? (.obj fields) "dns01_challenge").isNone)
        "ACME cannot disable both HTTP-01 and TLS-ALPN-01 without DNS-01"
  | _ => .ok ()

def validateInboundBasics (tag kind core : String) (port : ℤ) (extra : Json) : Except String Unit := do
  reject (trim tag = "" || trim kind = "") "inbound tag and kind must not be empty"
  reject (core ∉ ["singbox", "xray"]) "core must be singbox or xray"
  reject (!validPort port) "listen_port must be between 1 and 65535"
  reject (!extra.isObject) "extra must be a JSON object"
  validateHapp extra
  validateAcmeOptions extra

def validateVlessFlow (kind network : String) (tlsEnabled : Bool) (flow : String) : Except String Unit :=
  if trim flow = "" then .ok ()
  else do
    reject (kind ≠ "vless") "flow is only supported for vless inbounds"
    reject (trim flow ≠ "xtls-rprx-vision") "unsupported VLESS flow; use xtls-rprx-vision or leave it empty"
    reject (network ≠ "tcp" || !tlsEnabled) "xtls-rprx-vision requires VLESS over TCP with TLS or REALITY"

/-- What Xray can do with the settings of `extra.acme`. -/
def validateXrayAcme (acme : Json) : Except String Unit := do
  reject (!acme.isObject) "xray acme settings must be an object"
  reject (acme.flag "disable_http_challenge") "xray acme supports HTTP-01 only"
  reject (acme.get? "dns01_challenge").isSome "xray acme does not support DNS-01"
  reject ((acme.get? "alternative_http_port").any (·.asU64? ≠ some 9080))
    "xray acme alternative_http_port must be 9080"

def validateAcmeForCore (core : String) (extra : Json) : Except String Unit :=
  match extra.get? "acme" with
  | none | some .null | some (.bool _) => .ok ()
  | some acme => do
      reject (acmeEmail extra).isNone "acme requires an email (extra.acme.email)"
      match core with
      | "singbox" => .ok ()
      | "xray" => validateXrayAcme acme
      | _ => .error "acme is supported only by sing-box or xray"

/-- The part of `validate_inbound` for inbounds with a certificate of their own. -/
def validateAcme (ib : Inbound) : Except String Unit :=
  if acmeEnabled ib.extra then do
    reject ib.reality "acme and reality are mutually exclusive"
    reject (!ib.tlsEnabled) "acme requires tls_enabled=true"
    reject (trim (ib.serverName.getD "") = "") "acme requires a server_name (the domain to certify)"
    reject (acmeEmail ib.extra).isNone "acme requires an email (extra.acme.email)"
    validateAcmeForCore ib.core ib.extra
  else .ok ()

/-- The characters of a timeout. -/
def timeoutChar (c : Char) : Bool := c.isDigit || c ∈ ['s', 'm', 'h', 'd', '.']

def validateInbound (ib : Inbound) : Except String Unit := do
  validateInboundBasics ib.tag ib.kind ib.core ib.listenPort ib.extra
  reject (ib.reality && !ib.tlsEnabled) "reality requires tls_enabled=true"
  reject (ib.reality && blank ib.realityPrivateKey) "reality_private_key is required"
  reject (ib.reality && blank ib.realityPublicKey) "reality_public_key is required"
  validateAcme ib
  validateEffectiveSecurity ib (acmeEnabled ib.extra)
  reject (!isValidNetwork ib.network) "network must be one of tcp/ws/grpc/http/h2/httpupgrade/xhttp/quic/mkcp"
  reject (ib.transportMode.any (!isValidTransportMode ·))
    "transport_mode must be one of auto/packet-up/stream-up/stream-one"
  reject (ib.utlsFingerprint.any (!isValidUtlsFingerprint ·))
    ("utls_fingerprint must be one of chrome/firefox/safari/ios/android/edge/360/qq/random/" ++ "randomized")
  validateVlessFlow ib.kind ib.network ib.tlsEnabled ib.flow
  reject (ib.shadowtlsHandshakePort.any (!validPort ·)) "shadowtls_handshake_port must be between 1 and 65535"
  reject (ib.kind = "shadowtls" && blank ib.shadowtlsHandshakeServer) "shadowtls requires a handshake server"
  reject (trim ib.udpIdleTimeout = "") "udp_idle_timeout must not be empty"
  reject (32 < ib.udpIdleTimeout.utf8ByteSize || !ib.udpIdleTimeout.toList.all timeoutChar)
    "udp_idle_timeout must be a duration such as 60s or 5m"

/-! ### Requests -/

structure NewInbound where
  nodeId : Uuid
  (tag kind core : String)
  listenPort : ℤ
  flow : String
  tlsEnabled : Bool
  (serverName certPath keyPath : Option String)
  reality : Bool
  (realityPrivateKey realityPublicKey : Option String)
  realityShortIds : List String
  realityHandshakeServer : Option String
  realityHandshakePort : Option ℤ
  network : String
  (transportPath transportHost transportServiceName transportMode : Option String)
  ech : Bool
  (utlsFingerprint shadowtlsHandshakeServer : Option String)
  shadowtlsHandshakePort : Option ℤ
  extra : Json
  (upMbps downMbps : ℤ)
  udpIdleTimeout : String
  upstreamInboundId : Option Uuid
  deriving Inhabited

structure UpdateInbound where
  (tag kind core : Option String)
  listenPort : Option ℤ
  flow : Option String
  tlsEnabled : Option Bool
  (serverName certPath keyPath : Patch String)
  reality : Option Bool
  (realityPrivateKey realityPublicKey : Patch String)
  realityShortIds : Option (List String)
  realityHandshakeServer : Patch String
  realityHandshakePort : Patch ℤ
  network : Option String
  (transportPath transportHost transportServiceName transportMode : Patch String)
  ech : Option Bool
  (utlsFingerprint shadowtlsHandshakeServer : Patch String)
  shadowtlsHandshakePort : Patch ℤ
  extra : Option Json
  enabled : Option Bool
  (upMbps downMbps : Option ℤ)
  udpIdleTimeout : Option String
  upstreamInboundId : Patch Uuid
  deriving Inhabited

/-- A timeout as it is stored. -/
def storedTimeout (value : String) : String := if trim value = "" then "60s" else value

/-- The credential of a chain, if there is an upstream; `fresh` is the pair just drawn. -/
def chainCredential (fresh : String × String) (upstream : Option Uuid) : Option String × Option String :=
  (upstream.map fun _ => fresh.1, upstream.map fun _ => fresh.2)

/-- The values of a request as a row. -/
def NewInbound.row (input : NewInbound) (id : Uuid) (fresh : String × String) : Inbound where
  id := id
  nodeId := input.nodeId
  tag := input.tag
  kind := input.kind
  core := input.core
  listen := "::"
  listenPort := input.listenPort
  flow := input.flow
  tlsEnabled := input.tlsEnabled
  serverName := input.serverName
  certPath := input.certPath
  keyPath := input.keyPath
  reality := input.reality
  realityPrivateKey := input.realityPrivateKey
  realityPublicKey := input.realityPublicKey
  realityShortIds := input.realityShortIds
  realityHandshakeServer := input.realityHandshakeServer
  realityHandshakePort := input.realityHandshakePort
  network := input.network
  transportPath := input.transportPath
  transportHost := input.transportHost
  transportServiceName := input.transportServiceName
  transportMode := input.transportMode
  ech := input.ech
  utlsFingerprint := input.utlsFingerprint
  shadowtlsHandshakeServer := input.shadowtlsHandshakeServer
  shadowtlsHandshakePort := input.shadowtlsHandshakePort
  extra := input.extra
  enabled := true
  upMbps := input.upMbps
  downMbps := input.downMbps
  udpIdleTimeout := input.udpIdleTimeout
  upstreamInboundId := input.upstreamInboundId
  chainUuid := (chainCredential fresh input.upstreamInboundId).1
  chainPassword := (chainCredential fresh input.upstreamInboundId).2

/-- The row that `create_inbound` of the repository inserts. -/
def NewInbound.stored (input : NewInbound) (id : Uuid) (fresh : String × String) : Inbound :=
  { input.row id fresh with
    upMbps := max input.upMbps 0
    downMbps := max input.downMbps 0
    udpIdleTimeout := storedTimeout input.udpIdleTimeout }

/-- `CASE WHEN set THEN value ELSE column END`. -/
def Patch.over {α : Type} (current : Option α) : Patch α → Option α
  | .missing => current
  | .null => none
  | .value a => some a

/-- The row after an update, but for the chain. -/
def UpdateInbound.apply (input : UpdateInbound) (ib : Inbound) : Inbound :=
  { ib with
    tag := input.tag.getD ib.tag
    kind := input.kind.getD ib.kind
    core := input.core.getD ib.core
    listenPort := input.listenPort.getD ib.listenPort
    flow := input.flow.getD ib.flow
    tlsEnabled := input.tlsEnabled.getD ib.tlsEnabled
    serverName := input.serverName.over ib.serverName
    certPath := input.certPath.over ib.certPath
    keyPath := input.keyPath.over ib.keyPath
    reality := input.reality.getD ib.reality
    realityPrivateKey := input.realityPrivateKey.over ib.realityPrivateKey
    realityPublicKey := input.realityPublicKey.over ib.realityPublicKey
    realityShortIds := input.realityShortIds.getD ib.realityShortIds
    realityHandshakeServer := input.realityHandshakeServer.over ib.realityHandshakeServer
    realityHandshakePort := input.realityHandshakePort.over ib.realityHandshakePort
    network := input.network.getD ib.network
    transportPath := input.transportPath.over ib.transportPath
    transportHost := input.transportHost.over ib.transportHost
    transportServiceName := input.transportServiceName.over ib.transportServiceName
    transportMode := input.transportMode.over ib.transportMode
    ech := input.ech.getD ib.ech
    utlsFingerprint := input.utlsFingerprint.over ib.utlsFingerprint
    shadowtlsHandshakeServer := input.shadowtlsHandshakeServer.over ib.shadowtlsHandshakeServer
    shadowtlsHandshakePort := input.shadowtlsHandshakePort.over ib.shadowtlsHandshakePort
    extra := input.extra.getD ib.extra
    enabled := input.enabled.getD ib.enabled
    upMbps := (input.upMbps.map (max · 0)).getD ib.upMbps
    downMbps := (input.downMbps.map (max · 0)).getD ib.downMbps
    udpIdleTimeout := (input.udpIdleTimeout.map storedTimeout).getD ib.udpIdleTimeout }

/-- A new upstream comes with a new credential. -/
def UpdateInbound.chain (input : UpdateInbound) (fresh : String × String) (ib : Inbound) : Inbound :=
  match input.upstreamInboundId with
  | .missing => ib
  | .null => { ib with upstreamInboundId := none, chainUuid := none, chainPassword := none }
  | .value up => { ib with
      upstreamInboundId := some up
      chainUuid := (chainCredential fresh (some up)).1
      chainPassword := (chainCredential fresh (some up)).2 }

def validateUpdateInbound (input : UpdateInbound) : Except String Unit := do
  reject (input.tag.any (trim · = "") || input.kind.any (trim · = "")) "inbound tag and kind must not be empty"
  reject (input.core.any (· ∉ ["singbox", "xray"])) "core must be singbox or xray"
  reject (input.udpIdleTimeout.any (trim · = "")) "udp_idle_timeout must not be empty"
  reject (input.listenPort.any (!validPort ·)) "listen_port must be between 1 and 65535"
  reject (input.extra.any (!·.isObject)) "extra must be a JSON object"
  reject (input.realityHandshakePort.value?.any (!validPort ·)) "reality_handshake_port must be between 1 and 65535"
  reject (input.network.any (!isValidNetwork ·)) "unsupported network transport"
  reject (input.transportMode.value?.any (!isValidTransportMode ·))
    "transport_mode must be one of auto/packet-up/stream-up/stream-one"
  reject (input.utlsFingerprint.value?.any (!isValidUtlsFingerprint ·))
    ("utls_fingerprint must be one of chrome/firefox/safari/ios/android/edge/360/qq/random/" ++ "randomized")
  reject (input.flow.any fun flow => trim flow ≠ "" && flow ≠ "xtls-rprx-vision")
    "unsupported VLESS flow; use xtls-rprx-vision or leave it empty"
  reject (input.shadowtlsHandshakePort.value?.any (!validPort ·))
    "shadowtls_handshake_port must be between 1 and 65535"

/-- `validate_effective_update`, on the values that the update leaves. -/
def validateEffectiveUpdate (current : Inbound) (input : UpdateInbound) : Except String Unit := do
  let ib := input.apply current
  validateVlessFlow ib.kind ib.network ib.tlsEnabled ib.flow
  validateEffectiveSecurity ib (acmeEnabled ib.extra)
  validateAcmeForCore ib.core ib.extra

/-! ### Chains -/

def chainable : List String := ["vless", "vmess", "trojan", "hysteria2", "tuic", "shadowsocks"]

/-- The loop of `validate_upstream`: where the chain has led after `n` hops. A row that is missing ends
    the loop where it is. -/
def followChain (db : Db) (self : Uuid) : ℕ → Option Uuid → Except String (Option Uuid)
  | 0, hop => .ok hop
  | _ + 1, none => .ok none
  | n + 1, some next =>
    if next = self then .error "that chain leads back here (cycle)"
    else match db.inbounds.find? next with
      | some ib => followChain db self n ib.upstreamInboundId
      | none => .ok (some next)

def validateDepth (db : Db) (self : Option Uuid) (exit : Inbound) : Except String Unit :=
  match self with
  | none => .ok ()
  | some self => do
      let hop ← followChain db self 8 exit.upstreamInboundId
      reject hop.isSome "multihop chain is too deep (max 8 hops)"

def validateUpstream (db : Db) (upstream self : Option Uuid) (entryCore : String) : Except String Unit :=
  match upstream with
  | none => .ok ()
  | some id => do
      reject (entryCore = "xray") "multihop entry must run on sing-box (the chain outbound is sing-box)"
      reject (self = some id) "an inbound cannot chain to itself"
      match db.inbounds.find? id with
      | none => .error "upstream inbound not found"
      | some exit => do
          reject (exit.core ≠ "singbox") "multihop exit must run on sing-box"
          reject (exit.kind ∉ chainable) ("protocol '" ++ exit.kind ++ "' cannot be a multihop exit")
          validateDepth db self exit

/-! ### The handlers -/

/-- The `CHECK` constraints of the table. -/
def inboundChecks (ib : Inbound) : Bool :=
  validPort ib.listenPort && (!ib.reality || ib.tlsEnabled) && ib.core ∈ ["singbox", "xray"] &&
    isValidNetwork ib.network && ib.shadowtlsHandshakePort.all validPort

/-- Writing a row: its checks, the unique constraints and the references. -/
def writeInbound (db : Db) (ib : Inbound) : Except ApiError Db :=
  if inboundChecks ib = false then .error (.badRequest "value violates a database constraint")
  else if ∃ other ∈ db.inbounds.rows, other.id ≠ ib.id ∧ other.nodeId = ib.nodeId ∧
      (other.tag = ib.tag ∨ other.listenPort = ib.listenPort) then .error .conflict
  else if db.nodes.find? ib.nodeId = none ∨ ∃ up ∈ ib.upstreamInboundId, db.inbounds.find? up = none then
    .error (.badRequest "referenced resource does not exist or is still in use")
  else .ok { db with inbounds := db.inbounds.put ib }

/-- `create_inbound`, with the id and the credential it draws. -/
def createInbound (db : Db) (id : Uuid) (fresh : String × String) (input : NewInbound) : Except ApiError Db :=
  match validateInbound (input.row id fresh) with
  | .error message => .error (.badRequest message)
  | .ok () => match validateUpstream db input.upstreamInboundId none input.core with
    | .error message => .error (.badRequest message)
    | .ok () =>
      if id ∈ db.inbounds.rows.map (·.id) then .error .conflict
      else writeInbound db (input.stored id fresh)

/-- The checks of `update_inbound` on a row that is there. -/
def validateUpdate (db : Db) (current : Inbound) (input : UpdateInbound) : Except String Unit := do
  validateEffectiveUpdate current input
  match input.upstreamInboundId.value? with
  | some up => validateUpstream db (some up) (some current.id) (input.core.getD current.core)
  | none => .ok ()

def updateInbound (db : Db) (id : Uuid) (fresh : String × String) (input : UpdateInbound) : Except ApiError Db :=
  match validateUpdateInbound input with
  | .error message => .error (.badRequest message)
  | .ok () => match db.inbounds.find? id with
    | none => .error .notFound
    | some current => match validateUpdate db current input with
      | .error message => .error (.badRequest message)
      | .ok () => writeInbound db (input.chain fresh (input.apply current))

inductive InboundOp where
  | create (id : Uuid) (fresh : String × String) (input : NewInbound)
  | update (id : Uuid) (fresh : String × String) (input : UpdateInbound)

def InboundOp.run (db : Db) : InboundOp → Except ApiError Db
  | .create id fresh input => createInbound db id fresh input
  | .update id fresh input => updateInbound db id fresh input

/-- A request that fails changes nothing. -/
def inboundStep (db : Db) (op : InboundOp) : Db :=
  match op.run db with
  | .ok db => db
  | .error _ => db

/-! ### What an update overlooks -/

/-- The checks of `validate_inbound` that an update does not make, on the row it leaves. -/
structure Overlooked (ib : Inbound) : Prop where
  happ : validateHapp ib.extra = .ok ()
  options : validateAcmeOptions ib.extra = .ok ()
  exclusive : acmeEnabled ib.extra → ib.reality = false
  tls : acmeEnabled ib.extra → ib.tlsEnabled
  name : acmeEnabled ib.extra → trim (ib.serverName.getD "") ≠ ""
  email : acmeEnabled ib.extra → (acmeEmail ib.extra).isSome
  handshake : ib.kind = "shadowtls" → blank ib.shadowtlsHandshakeServer = false
  timeout : ib.udpIdleTimeout.utf8ByteSize ≤ 32 ∧ ib.udpIdleTimeout.toList.all timeoutChar

/-- The checks of `validate_inbound` on the fields that a patch may leave as they are. -/
structure Fields (ib : Inbound) : Prop where
  names : (trim ib.tag = "" || trim ib.kind = "") = false
  core : decide (ib.core ∉ ["singbox", "xray"]) = false
  port : (!validPort ib.listenPort) = false
  extra : (!ib.extra.isObject) = false
  mode : ib.transportMode.any (!isValidTransportMode ·) = false
  fingerprint : ib.utlsFingerprint.any (!isValidUtlsFingerprint ·) = false
  handshakePort : ib.shadowtlsHandshakePort.any (!validPort ·) = false
  timeout : decide (trim ib.udpIdleTimeout = "") = false

variable {ib : Inbound} {input : UpdateInbound} {db : Db} {id : Uuid} {fresh : String × String}

theorem validateAcme_eq_ok : validateAcme ib = .ok () ↔
    (acmeEnabled ib.extra → ib.reality = false ∧ ib.tlsEnabled ∧ trim (ib.serverName.getD "") ≠ "" ∧
      (acmeEmail ib.extra).isSome ∧ validateAcmeForCore ib.core ib.extra = .ok ()) := by
  rw [validateAcme]
  cases acmeEnabled ib.extra with
  | false => simp
  | true => simp [then_eq_ok, reject_eq_ok]

theorem not_blank_of_valid {key : Option String} (h : key.any validRealityKey) : blank key = false := by
  rcases key with _ | key
  · cases h
  have hne : key ≠ "" := by
    rintro rfl
    exact absurd h (by decide)
  simpa [blank] using hne

theorem isValidNetwork_of_supported {core network : String} (h : networkSupported core network) :
    isValidNetwork network := by
  unfold networkSupported at h
  split at h
  · simp only [decide_eq_true_eq] at h
    simp only [isValidNetwork, decide_eq_true_eq]
    exact (subset_def.mp (by decide)) h
  · exact h
  · cases h

/-- What `validate_effective_security` says about the rest of `validate_inbound`. -/
theorem validateEffectiveSecurity_covers {acme : Bool} (h : validateEffectiveSecurity ib acme = .ok ()) :
    (ib.reality && blank ib.realityPrivateKey) = false ∧
      (ib.reality && blank ib.realityPublicKey) = false ∧ isValidNetwork ib.network := by
  simp only [validateEffectiveSecurity, then_eq_ok, reject_eq_ok] at h
  obtain ⟨-, hnetwork, -, -, -, -, -, -, hprivate, hpublic, -⟩ := h
  refine ⟨?_, ?_, isValidNetwork_of_supported (by simpa using hnetwork)⟩
  · cases hr : ib.reality with
    | false => rfl
    | true => exact not_blank_of_valid (by simpa [hr] using hprivate)
  · cases hr : ib.reality with
    | false => rfl
    | true => exact not_blank_of_valid (by simpa [hr] using hpublic)

/-- `validate_inbound` in the three parts that matter to an update. -/
theorem validateInbound_eq_ok : validateInbound ib = .ok () ↔ Fields ib ∧ (ib.reality && !ib.tlsEnabled) = false ∧
      (validateVlessFlow ib.kind ib.network ib.tlsEnabled ib.flow = .ok () ∧
        validateEffectiveSecurity ib (acmeEnabled ib.extra) = .ok () ∧
        (acmeEnabled ib.extra → validateAcmeForCore ib.core ib.extra = .ok ())) ∧ Overlooked ib := by
  simp only [validateInbound, validateInboundBasics, then_eq_ok, reject_eq_ok, validateAcme_eq_ok]
  constructor
  · rintro ⟨⟨hnames, hcore, hport, hextra, hhapp, hoptions⟩, htls, -, -, hacme, hsec, -, hmode, hutls,
      hflow, hsport, hshake, hblank, htime⟩
    refine ⟨⟨hnames, hcore, hport, hextra, hmode, hutls, hsport, hblank⟩, htls,
      ⟨hflow, hsec, fun h => (hacme h).2.2.2.2⟩,
      ⟨hhapp, hoptions, fun h => (hacme h).1, fun h => (hacme h).2.1, fun h => (hacme h).2.2.1,
        fun h => (hacme h).2.2.2.1, fun hkind => by simpa [hkind] using hshake, ?_⟩⟩
    simpa [or_eq_false_iff] using htime
  · rintro ⟨hf, htls, ⟨hflow, hsec, hcore⟩, ho⟩
    obtain ⟨hprivate, hpublic, hnetwork⟩ := validateEffectiveSecurity_covers hsec
    refine ⟨⟨hf.names, hf.core, hf.port, hf.extra, ho.happ, ho.options⟩, htls, hprivate, hpublic,
      fun h => ⟨ho.exclusive h, ho.tls h, ho.name h, ho.email h, hcore h⟩, hsec, by simpa using hnetwork,
      hf.mode, hf.fingerprint, hflow, hf.handshakePort, ?_, hf.timeout, ?_⟩
    · cases hkind : decide (ib.kind = "shadowtls") with
      | false => rfl
      | true => exact ho.handshake (of_decide_eq_true hkind)
    · simpa [or_eq_false_iff] using ho.timeout

theorem any_getD {α : Type} {p : α → Bool} {o : Option α} {d : α} (ho : o.any p = false)
    (hd : p d = false) : p (o.getD d) = false := by
  cases o with
  | none => exact hd
  | some a => exact ho

theorem any_over {α : Type} {p : α → Bool} {patch : Patch α} {current : Option α}
    (hp : patch.value?.any p = false) (hc : current.any p = false) : (patch.over current).any p = false := by
  cases patch with
  | missing => exact hc
  | null => rfl
  | value a => exact hp

theorem fields_apply (hf : Fields ib) (hv : validateUpdateInbound input = .ok ()) : Fields (input.apply ib) := by
  simp only [validateUpdateInbound, then_eq_ok, reject_eq_ok] at hv
  obtain ⟨hnames, hcore, htime, hport, hextra, -, -, hmode, hutls, -, hsport⟩ := hv
  obtain ⟨htag, hkind⟩ := or_eq_false_iff.mp hnames
  obtain ⟨htag', hkind'⟩ := or_eq_false_iff.mp hf.names
  refine ⟨or_eq_false_iff.mpr ⟨any_getD htag htag', any_getD hkind hkind'⟩,
    any_getD hcore hf.core, any_getD hport hf.port, any_getD hextra hf.extra,
    any_over hmode hf.mode, any_over hutls hf.fingerprint, any_over hsport hf.handshakePort, ?_⟩
  cases h : input.udpIdleTimeout with
  | none => simpa [UpdateInbound.apply, h] using hf.timeout
  | some value =>
    have hvalue : trim value ≠ "" := by simpa [h] using htime
    simp [UpdateInbound.apply, h, storedTimeout, hvalue]

theorem validateAcmeForCore_of_not_enabled {core : String} {extra : Json}
    (h : acmeEnabled extra = false) : validateAcmeForCore core extra = .ok () := by
  unfold acmeEnabled at h
  split at h
  · simp [validateAcmeForCore, *]
  · simp [validateAcmeForCore, *]
  · simp [validateAcmeForCore, *]
  · cases h

/-- The row that an accepted update leaves is valid exactly if it passes what was overlooked. -/
theorem validateInbound_apply_iff (hvalid : validateInbound ib = .ok ()) (hv : validateUpdateInbound input = .ok ())
    (he : validateEffectiveUpdate ib input = .ok ()) (hc : inboundChecks (input.apply ib)) :
    validateInbound (input.apply ib) = .ok () ↔ Overlooked (input.apply ib) := by
  rw [validateInbound_eq_ok]
  obtain ⟨hflow, hsec, hcore⟩ : _ ∧ _ ∧ _ := by
    simpa only [validateEffectiveUpdate, then_eq_ok] using he
  have htls : ((input.apply ib).reality && !(input.apply ib).tlsEnabled) = false := by
    simp only [inboundChecks, and_eq_true] at hc
    simpa [or_iff_not_imp_left] using hc.1.1.1.2
  constructor
  · rintro ⟨-, -, -, ho⟩
    exact ho
  · intro ho
    exact ⟨fields_apply (validateInbound_eq_ok.mp hvalid).1 hv, htls, ⟨hflow, hsec, fun _ => hcore⟩, ho⟩

/-! ### Runs of requests -/

def AllValid (db : Db) : Prop := ∀ ib ∈ db.inbounds.rows, validateInbound ib = .ok ()

theorem writeInbound_ok {db' : Db} (h : writeInbound db ib = .ok db') :
    inboundChecks ib ∧ db' = { db with inbounds := db.inbounds.put ib } := by
  unfold writeInbound at h
  split at h
  · cases h
  rename_i hchecks
  split at h
  · cases h
  · split at h
    · cases h
    · exact ⟨by simpa using hchecks, (Except.ok.inj h).symm⟩

theorem allValid_put_iff (h : AllValid db) :
    AllValid { db with inbounds := db.inbounds.put ib } ↔ validateInbound ib = .ok () := by
  constructor
  · intro hall
    exact hall ib (mem_put.mpr (.inl rfl))
  · exact fun hib => forall_put hib h

theorem validateInbound_stored {input : NewInbound} (h : validateInbound (input.row id fresh) = .ok ()) :
    validateInbound (input.stored id fresh) = .ok () := by
  have htime : storedTimeout input.udpIdleTimeout = input.udpIdleTimeout :=
    if_neg (of_decide_eq_false (validateInbound_eq_ok.mp h).1.timeout)
  rw [NewInbound.stored, htime]
  exact h

theorem createInbound_ok {db' : Db} {input : NewInbound} (h : createInbound db id fresh input = .ok db') :
    validateInbound (input.row id fresh) = .ok () ∧
    db' = { db with inbounds := db.inbounds.put (input.stored id fresh) } := by
  unfold createInbound at h
  rcases hv : validateInbound (input.row id fresh) with message | ⟨⟨⟩⟩
  · simp only [hv] at h
    cases h
  rcases hu : validateUpstream db input.upstreamInboundId none input.core with message | ⟨⟨⟩⟩
  · simp only [hv, hu] at h
    cases h
  simp only [hv, hu] at h
  split at h
  · cases h
  · exact ⟨rfl, (writeInbound_ok h).2⟩

theorem createInbound_valid {db' : Db} {input : NewInbound} (hall : AllValid db)
    (h : createInbound db id fresh input = .ok db') : AllValid db' := by
  obtain ⟨hvalid, rfl⟩ := createInbound_ok h
  exact (allValid_put_iff hall).mpr (validateInbound_stored hvalid)

theorem updateInbound_ok {db' : Db} (h : updateInbound db id fresh input = .ok db') :
    ∃ current, db.inbounds.find? id = some current ∧ validateUpdateInbound input = .ok () ∧
      validateEffectiveUpdate current input = .ok () ∧ inboundChecks (input.chain fresh (input.apply current)) ∧
      db' = { db with inbounds := db.inbounds.put (input.chain fresh (input.apply current)) } := by
  unfold updateInbound at h
  rcases hv : validateUpdateInbound input with message | ⟨⟨⟩⟩
  · simp only [hv] at h
    cases h
  rcases hf : db.inbounds.find? id with _ | current
  · simp only [hv, hf] at h
    cases h
  rcases hu : validateUpdate db current input with message | ⟨⟨⟩⟩
  · simp only [hv, hf, hu] at h
    cases h
  · simp only [hv, hf, hu] at h
    obtain ⟨hchecks, hdb⟩ := writeInbound_ok h
    exact ⟨current, rfl, rfl, (then_eq_ok.mp hu).1, hchecks, hdb⟩

theorem validateInbound_chain (input : UpdateInbound) (fresh : String × String) (ib : Inbound) :
    validateInbound (input.chain fresh ib) = validateInbound ib ∧
      inboundChecks (input.chain fresh ib) = inboundChecks ib := by
  unfold UpdateInbound.chain
  split
  · exact ⟨rfl, rfl⟩
  · exact ⟨rfl, rfl⟩
  · exact ⟨rfl, rfl⟩

/-- An update that is accepted leaves a row that passes what was not checked. -/
def UpdateChecked (db : Db) : InboundOp → Prop
  | .create _ _ _ => True
  | .update id fresh input => ∀ current, db.inbounds.find? id = some current →
      (∃ db', updateInbound db id fresh input = .ok db') → Overlooked (input.apply current)

theorem updateInbound_valid_iff {db' : Db} (hall : AllValid db) (h : updateInbound db id fresh input = .ok db') :
    AllValid db' ↔ UpdateChecked db (.update id fresh input) := by
  obtain ⟨current, hfind, hv, he, hchecks, hdb⟩ := updateInbound_ok h
  obtain ⟨hsame, hsame'⟩ := validateInbound_chain input fresh _
  have hcurrent := hall current (find?_eq_some.mp hfind).1
  rw [hdb, allValid_put_iff hall, hsame, validateInbound_apply_iff hcurrent hv he (hsame' ▸ hchecks)]
  constructor
  · rintro ho current' hfind' -
    rw [hfind] at hfind'
    exact Option.some.inj hfind' ▸ ho
  · intro hu
    exact hu current hfind ⟨db', h⟩

theorem allValid_step_iff (db : Db) (op : InboundOp) (hall : AllValid db) :
    AllValid (inboundStep db op) ↔ UpdateChecked db op := by
  rw [inboundStep]
  rcases hrun : op.run db with e | db'
  · -- a request that fails
    refine iff_of_true hall ?_
    cases op with
    | create id fresh input => trivial
    | update id fresh input =>
      rintro current - ⟨db', h⟩
      rw [InboundOp.run, h] at hrun
      cases hrun
  · cases op with
    | create id fresh input => exact iff_of_true (createInbound_valid hall hrun) trivial
    | update id fresh input => exact updateInbound_valid_iff hall hrun

/-- No inbounds yet. -/
def Db.bare (db : Db) : Db := { db with inbounds := empty }

/-- All rows stay valid exactly if no accepted update leaves one that fails a check it overlooked. -/
theorem stored_inbounds_valid_iff (db : Db) (ops : List InboundOp) :
    Always inboundStep (fun db op => AllValid (inboundStep db op)) db.bare ops ↔
      Always inboundStep UpdateChecked db.bare ops :=
  always_iff (fun db op hall hop => (allValid_step_iff db op hall).mpr hop) allValid_step_iff ops
    db.bare fun _ h => (not_mem_nil h).elim

/-! ### An update that is not checked -/

/-- A database with one node. -/
def oneNode : Db := { Db.initial with nodes := empty.put ⟨7, "home", "10.0.0.1", true, false, none, none, none⟩ }

/-- VLESS over plain TCP. -/
def vlessRequest : NewInbound :=
  { (default : NewInbound) with
    nodeId := 7
    tag := "in"
    kind := "vless"
    core := "singbox"
    listenPort := 443
    network := "tcp"
    utlsFingerprint := some "qq"
    extra := .obj []
    udpIdleTimeout := "60s" }

/-- A patch of the timeout alone. -/
def timeoutPatch (timeout : String) : UpdateInbound :=
  { (default : UpdateInbound) with udpIdleTimeout := some timeout }

/-- The database after the creation. -/
def vlessStored : Db :=
  { oneNode.bare with inbounds := empty.put (vlessRequest.stored 1 ("", "")) }

theorem writeInbound_passes (hchecks : inboundChecks ib)
    (hunique : ¬ ∃ other ∈ db.inbounds.rows, other.id ≠ ib.id ∧ other.nodeId = ib.nodeId ∧
      (other.tag = ib.tag ∨ other.listenPort = ib.listenPort))
    (hnode : db.nodes.find? ib.nodeId ≠ none) (hexit : ∀ up ∈ ib.upstreamInboundId, db.inbounds.find? up ≠ none) :
    writeInbound db ib = .ok { db with inbounds := db.inbounds.put ib } := by
  have hrefs : ¬ (db.nodes.find? ib.nodeId = none ∨ ∃ up ∈ ib.upstreamInboundId, db.inbounds.find? up = none) := by
    rintro (h | ⟨up, hmem, h⟩)
    · exact hnode h
    · exact hexit up hmem h
  rw [writeInbound, if_neg (by simp [hchecks]), if_neg hunique, if_neg hrefs]

theorem writeInbound_alone (hchecks : inboundChecks ib) (halone : ∀ other ∈ db.inbounds.rows, other.id = ib.id)
    (hnode : db.nodes.find? ib.nodeId ≠ none) (hup : ib.upstreamInboundId = none) :
    writeInbound db ib = .ok { db with inbounds := db.inbounds.put ib } := by
  refine writeInbound_passes hchecks ?_ hnode (hup ▸ nofun)
  rintro ⟨other, hother, hid, -⟩
  exact hid (halone other hother)

theorem node_of_oneNode : oneNode.bare.nodes.find? 7 ≠ none := by
  simp [oneNode, Db.bare]

theorem create_vlessRequest : createInbound oneNode.bare 1 ("", "") vlessRequest = .ok vlessStored := by
  simp only [createInbound]
  refine (if_neg not_mem_nil).trans ?_
  exact writeInbound_alone (by decide) (fun _ h => (not_mem_nil h).elim) node_of_oneNode rfl

/-- The row after the update. -/
def vlessPatched : Inbound := (timeoutPatch "soon").apply (vlessRequest.stored 1 ("", ""))

/-- Both requests are accepted, and the row that is stored is not valid. -/
theorem unchecked_timeout_stored : createInbound oneNode.bare 1 ("", "") vlessRequest = .ok vlessStored ∧
      ∃ db, updateInbound vlessStored 1 ("", "") (timeoutPatch "soon") = .ok db ∧ ¬ AllValid db := by
  refine ⟨create_vlessRequest,
    { vlessStored with inbounds := vlessStored.inbounds.put vlessPatched }, ?_, fun h => ?_⟩
  · refine writeInbound_alone (by decide) (fun other h => ?_) node_of_oneNode rfl
    rcases mem_put.mp h with rfl | ⟨h, -⟩
    · rfl
    · exact (not_mem_nil h).elim
  · have hrow := h _ (mem_put.mpr (.inl rfl))
    revert hrow
    decide

end Honey.Master
