import Honey.Master.Subscription
import Honey.Master.Wireguard

/-! The spec of a node (`spec.rs`): what the database says the agent should run.

        inbounds -- users (active, with access) -- chain users
                 +- upstream outbound, tls, transport, extra
        wireguard - peers of active users, provisioned on the way
        services

    Building it may write: a user without a WireGuard peer gets one. -/

namespace Honey.Master
open Honey.Schemes

/-! ### The message -/

structure InboundUser where
  (name uuid password flow : String)
  quotaBytes : ℕ
  deriving DecidableEq, Repr

structure Reality where
  privateKey : String
  shortIds : List String
  handshakeServer : String
  handshakePort : ℕ
  deriving DecidableEq, Repr

structure Tls where
  enabled : Bool
  (serverName certPath keyPath : String)
  reality : Option Reality
  ech : Bool
  (utlsFingerprint shadowtlsHandshakeServer : String)
  shadowtlsHandshakePort : ℕ
  deriving DecidableEq, Repr

structure Transport where
  (network path host serviceName mode : String)
  deriving DecidableEq, Repr

/-- `pb::Inbound`. -/
structure SpecInbound where
  (core tag type listen : String)
  listenPort : ℕ
  users : List InboundUser
  tls : Option Tls
  extraJson : String
  transport : Option Transport
  (upMbps downMbps : ℕ)
  upstreamOutboundJson : String
  deriving DecidableEq, Repr

structure WireguardPeer where
  (publicKey allowedIp : String)
  deriving DecidableEq, Repr

structure WireguardInterface where
  name : String
  listenPort : ℕ
  (privateKey address : String)
  mtu : ℕ
  amnezia : Bool
  amneziaParamsJson : String
  peers : List WireguardPeer
  deriving DecidableEq, Repr

/-- `pb::NodeService`. -/
structure SpecService where
  (kind name : String)
  listenPort : ℕ
  (secret configJson : String)
  deriving DecidableEq, Repr

structure NodeSpec where
  (logLevel clashListen clashSecret : String)
  inbounds : List SpecInbound
  wireguard : List WireguardInterface
  services : List SpecService
  deriving DecidableEq, Repr

/-! ### Reading the database -/

/-- What the build takes from outside: the secrets backend and the collation of user names. -/
structure Env where
  (decrypt encrypt : String → Except String String)
  usernameLe : String → String → Bool

/-- Key pairs (private, public) generated for an interface and a user. -/
abbrev Keys := Uuid → Uuid → Except String (String × String)

def User.suppressedReason (u : User) (now : ℤ) : Option String :=
  if ¬ u.enabled then some "disabled"
  else if u.expiresAt.any (· ≤ now) then some "expired"
  else if 0 < u.trafficLimitBytes ∧ u.trafficLimitBytes ≤ u.usedTrafficBytes then some "quota"
  else none

def User.isActive (u : User) (now : ℤ) : Bool := (u.suppressedReason now).isNone

variable (env : Env)

/-- An optional secret. -/
def Env.decryptOption : Option String → Except String (Option String)
  | none => .ok none
  | some s => (env.decrypt s).map some

def Env.decryptUser (u : User) : Except String User := do
  let password ← env.decrypt u.password
  let uuid ← env.decrypt u.uuid
  return { u with password := password, uuid := uuid }

def Env.decryptInbound (i : Inbound) : Except String Inbound := do
  let key ← env.decryptOption i.realityPrivateKey
  let password ← env.decryptOption i.chainPassword
  return { i with realityPrivateKey := key, chainPassword := password }

def Env.decryptWgPeer (p : WgPeer) : Except String WgPeer := do
  let key ← env.decrypt p.privateKey
  return { p with privateKey := key }

variable (db : Db) (node : Uuid)

def enabledNodeInbounds : Except String (List Inbound) :=
  ((db.inbounds.rows.filter fun i => i.nodeId = node ∧ i.enabled).insertionSort
    fun i j => i.listenPort ≤ j.listenPort).mapM env.decryptInbound

/-- A node in no group serves everybody, one in groups the users of those groups. -/
def Db.hasAccess (user : Uuid) : Bool :=
  db.nodeGroupMembers.all (·.1 ≠ node) || db.nodeGroupMembers.any fun m => m.1 = node ∧ (user, m.2) ∈ db.userGroupAccess

def usersWithNodeAccess : Except String (List User) :=
  ((db.users.rows.filter fun u => db.hasAccess node u.id).insertionSort
    fun u v => env.usernameLe u.username v.username).mapM env.decryptUser

/-- The name of an entry inbound at its exit. -/
def chainLabel (i : Inbound) : String := "chain-" ++ i.tag ++ "-" ++ i.id.text

def chainUsersForExit (exit : Uuid) : Except String (List (String × String × Option String)) :=
  (db.inbounds.rows.filter fun i =>
      i.upstreamInboundId = some exit ∧ i.enabled ∧ i.chainUuid.isSome).mapM fun i => do
    let password ← env.decryptOption i.chainPassword
    return (chainLabel i, i.chainUuid.getD "", password)

def endpointForInbound (id : Uuid) : Option SubscriptionEndpoint :=
  (db.inbounds.find? id).bind fun i => (db.nodes.find? i.nodeId).bind fun n =>
    if i.enabled ∧ n.enabled ∧ ¬ n.maintenance then
      some ⟨n.name, n.address, i.tag, i.kind, i.listenPort, i.flow, i.tlsEnabled, i.serverName,
        i.reality, i.realityPublicKey, i.realityShortIds, i.network, i.transportPath,
        i.transportHost, i.transportServiceName, i.utlsFingerprint, i.ech, i.extra⟩
    else none

/-! ### Inbounds -/

/-- `build_chain_outbound`: empty where chaining is not possible. -/
def buildChainOutbound (entry : Inbound) (exit : Uuid) : Except String String :=
  if entry.core = "xray" then .ok ""
  else match entry.chainUuid, entry.chainPassword, endpointForInbound db exit with
    | some uuid, some password, some endpoint => do
        let outbound ← singboxOutbound uuid (chainLabel entry) password endpoint
        return (outbound.set "tag" (.str ("chain-" ++ entry.tag))).render
    | _, _, _ => .ok ""

variable (ib : Inbound)

/-- `upstream_outbound_json` of an inbound. -/
def upstreamOutbound : Except String String :=
  match ib.upstreamInboundId with
  | some exit => buildChainOutbound db ib exit
  | none => .ok ""

/-- A port of 1 to 65535. -/
def portIn (port : ℤ) : Option ℕ := if 1 ≤ port ∧ port ≤ 65535 then some port.toNat else none

/-- `u32::try_from`. -/
def u32From (n : ℤ) : Option ℕ := if 0 ≤ n ∧ n < 2 ^ 32 then some n.toNat else none

/-- Flow is carried on the inbound and means something to vless only. -/
def Inbound.userFlow : String := if ib.kind = "vless" then ib.flow else ""

/-- The entry of a user on an inbound, with what is left of its quota. -/
def inboundUser (u : User) : InboundUser where
  name := u.username
  uuid := u.uuid
  password := u.password
  flow := ib.userFlow
  quotaBytes :=
    if 0 < u.trafficLimitBytes then (max (u.trafficLimitBytes - u.usedTrafficBytes) 0).toNat else 0

def chainUser (c : String × String × Option String) : InboundUser :=
  ⟨c.1, c.2.1, c.2.2.getD "", ib.userFlow, 0⟩

def buildReality : Except String (Option Reality) :=
  if ib.reality then do
    let port ← match ib.realityHandshakePort with
      | none => pure 443
      | some port => match portIn port with
        | some port => pure port
        | none => throw ("inbound '" ++ ib.tag ++ "' has invalid reality handshake port " ++ toString port)
    return some ⟨ib.realityPrivateKey.getD "", ib.realityShortIds, ib.realityHandshakeServer.getD "", port⟩
  else .ok none

def buildTls : Except String (Option Tls) :=
  if ib.tlsEnabled ∨ ib.shadowtlsHandshakeServer.isSome then do
    let reality ← buildReality ib
    return some
      { enabled := ib.tlsEnabled
        serverName := ib.serverName.getD ""
        certPath := ib.certPath.getD ""
        keyPath := ib.keyPath.getD ""
        reality := reality
        ech := ib.ech
        utlsFingerprint := ib.utlsFingerprint.getD ""
        shadowtlsHandshakeServer := ib.shadowtlsHandshakeServer.getD ""
        shadowtlsHandshakePort := (ib.shadowtlsHandshakePort.bind u32From).getD 0 }
  else .ok none

/-- The pass-through settings; hysteria's idle timeout travels in them. -/
def buildExtra : String :=
  let extra : Json := match ib.extra with
    | .null => .obj []
    | v => v
  let extra := if ib.kind = "hysteria2" then
      extra.set "udpIdleTimeout" (.str (if trim ib.udpIdleTimeout = "" then "60s" else ib.udpIdleTimeout))
    else extra
  match extra with
  | .null | .obj [] => ""
  | v => v.render

def buildTransport : Option Transport :=
  if ib.network ≠ "tcp" then
    some ⟨ib.network, ib.transportPath.getD "", ib.transportHost.getD "",
      ib.transportServiceName.getD "", ib.transportMode.getD ""⟩
  else none

/-- One round of the loop of `build_node_spec`, for the users that are active. -/
def buildInbound (active : List User) (ib : Inbound) : Except String SpecInbound := do
  let some listenPort := portIn ib.listenPort
    | throw ("inbound '" ++ ib.tag ++ "' has invalid listen_port " ++ toString ib.listenPort)
  let chain ← chainUsersForExit env db ib.id
  let upstream ← upstreamOutbound db ib
  let tls ← buildTls ib
  return {
    core := ib.core
    tag := ib.tag
    type := ib.kind
    listen := ib.listen
    listenPort := listenPort
    users := active.map (inboundUser ib) ++ chain.map (chainUser ib)
    tls := tls
    extraJson := buildExtra ib
    transport := buildTransport ib
    upMbps := ib.upMbps.toNat
    downMbps := ib.downMbps.toNat
    upstreamOutboundJson := upstream }

theorem buildInbound_eq_ok {env : Env} {db : Db} {active : List User} {ib : Inbound} {s : SpecInbound} :
    buildInbound env db active ib = .ok s ↔ ∃ port chain upstream tls, portIn ib.listenPort = some port ∧
      chainUsersForExit env db ib.id = .ok chain ∧ upstreamOutbound db ib = .ok upstream ∧ buildTls ib = .ok tls ∧
      s = ⟨ib.core, ib.tag, ib.kind, ib.listen, port,
        active.map (inboundUser ib) ++ chain.map (chainUser ib), tls, buildExtra ib, buildTransport ib,
        ib.upMbps.toNat, ib.downMbps.toNat, upstream⟩ := by
  rw [buildInbound]
  rcases portIn ib.listenPort with _ | port
  · simp
  simp only [bind_eq_ok, Option.some.injEq]
  constructor
  · rintro ⟨chain, hchain, upstream, hupstream, tls, htls, h⟩
    exact ⟨port, chain, upstream, tls, rfl, hchain, hupstream, htls, (Except.ok.inj h).symm⟩
  · rintro ⟨_, chain, upstream, tls, rfl, hchain, hupstream, htls, rfl⟩
    exact ⟨chain, hchain, upstream, hupstream, tls, htls, rfl⟩

/-! ### WireGuard and services -/

def enabledWgInterfaces : Except String (List WgInterface) :=
  ((db.wgInterfaces.rows.filter fun i => i.nodeId = node ∧ i.enabled).insertionSort
    fun i j => i.createdAt ≤ j.createdAt).mapM fun i => do
      let key ← env.decrypt i.privateKey
      return { i with privateKey := key }

/-- `wg_peers`, the one table that building a spec writes. -/
abbrev Peers := Table WgPeer.key

def wgPeersForInterface (peers : Peers) (iface : Uuid) : Except String (List WgPeer) :=
  (peers.rows.filter (·.interfaceId = iface)).mapM env.decryptWgPeer

variable (keys : Keys)

/-- A new peer on the lowest free address. -/
def newWgPeer (peers : Peers) (iface : WgInterface) (user : Uuid) : Except String WgPeer := do
  let taken := (peers.rows.filter (·.interfaceId = iface.id)).filterMap fun p =>
    parseIpv4 p.address.toList
  let ip ← allocateIp iface.addressCidr taken
  let (privateKey, publicKey) ← keys iface.id user
  let privateEnc ← env.encrypt privateKey
  return ⟨iface.id, user, privateEnc, publicKey, ip.text⟩

def ensureWgPeer (peers : Peers) (iface : WgInterface) (user : Uuid) : Peers × Except String WgPeer :=
  match peers.find? (iface.id, user) with
  | some existing => (peers, env.decryptWgPeer existing)
  | none => match newWgPeer env keys peers iface user with
    | .error e => (peers, .error e)
    | .ok peer => (peers.put peer, env.decryptWgPeer peer)

/-- A peer for every user that is not in `has`. -/
def provision (env : Env) (keys : Keys) (iface : WgInterface) (has : List Uuid) :
    Peers → List User → Peers × Except String Unit
  | peers, [] => (peers, .ok ())
  | peers, u :: us =>
    if u.id ∈ has then provision env keys iface has peers us
    else match ensureWgPeer env keys peers iface u.id with
      | (peers, .error e) => (peers, .error e)
      | (peers, .ok _) => provision env keys iface has peers us

/-- The message of an interface whose peers are there. -/
def wgMessage (active : List User) (peers : Peers) (iface : WgInterface) : Except String WireguardInterface := do
  let rows ← wgPeersForInterface env peers iface.id
  let (_, len) ← parseCidr iface.addressCidr
  let server ← serverAddress iface.addressCidr
  return {
    name := iface.name
    listenPort := (u32From iface.listenPort).getD 0
    privateKey := iface.privateKey
    address := server.text ++ "/" ++ toString len
    mtu := (u32From iface.mtu).getD 1420
    amnezia := iface.amnezia
    amneziaParamsJson := if iface.amnezia then iface.amneziaParams.render else ""
    peers := (rows.filter fun p => p.userId ∈ active.map (·.id)).map fun p =>
      ⟨p.publicKey, p.address ++ "/32"⟩ }

/-- One round of the WireGuard loop. -/
def buildWgInterface (active : List User) (peers : Peers)
    (iface : WgInterface) : Peers × Except String WireguardInterface :=
  match wgPeersForInterface env peers iface.id with
  | .error e => (peers, .error e)
  | .ok existing => match provision env keys iface (existing.map (·.userId)) peers active with
    | (peers, .error e) => (peers, .error e)
    | (peers, .ok ()) => (peers, wgMessage env active peers iface)

def buildWireguard (env : Env) (keys : Keys) (active : List User) :
    Peers → List WgInterface → Peers × Except String (List WireguardInterface)
  | peers, [] => (peers, .ok [])
  | peers, iface :: ifaces => match buildWgInterface env keys active peers iface with
    | (peers, .error e) => (peers, .error e)
    | (peers, .ok w) =>
      let (peers, rest) := buildWireguard env keys active peers ifaces
      (peers, rest.map (w :: ·))

def enabledNodeServices : Except String (List SpecService) :=
  ((db.services.rows.filter fun s => s.nodeId = node ∧ s.enabled).insertionSort
    fun s t => s.createdAt ≤ t.createdAt).mapM fun s => do
      let secret ← env.decryptOption s.secret
      return ⟨s.kind, s.name, (u32From s.listenPort).getD 0, secret.getD "", s.config.render⟩

/-! ### The whole spec -/

/-- The inbounds of the spec and the active users, without any write. -/
def buildInbounds (now : ℤ) : Except String (List User × List SpecInbound) := do
  let rows ← enabledNodeInbounds env db node
  let users ← usersWithNodeAccess env db node
  let active := users.filter (·.isActive now)
  let inbounds ← rows.mapM (buildInbound env db active)
  return (active, inbounds)

/-- `build_node_spec`: the database with new peers in it, and the spec or an error. -/
def buildNodeSpec (db : Db) (node : Uuid) (now : ℤ) : Db × Except String NodeSpec :=
  match buildInbounds env db node now with
  | .error e => (db, .error e)
  | .ok (active, inbounds) => match enabledWgInterfaces env db node with
    | .error e => (db, .error e)
    | .ok ifaces => match buildWireguard env keys active db.wgPeers ifaces with
      | (peers, .error e) => ({ db with wgPeers := peers }, .error e)
      | (peers, .ok wireguard) => ({ db with wgPeers := peers }, do
          let services ← enabledNodeServices env db node
          return ⟨"info", "127.0.0.1:9090", "", inbounds, wireguard, services⟩)

end Honey.Master
