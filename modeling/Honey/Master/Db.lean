import Honey.Master.Json
import Honey.Schemes.Except
import Honey.Schemes.Table

/-! The tables of the master's database that the modelled code reads and writes, with their keys.
    Columns that none of it uses are left out. Secrets are kept as they are at rest. -/

namespace Honey.Master
open Honey.Schemes

abbrev Uuid := BitVec 128

instance Uuid.lawful : LawfulBEq Uuid := inferInstance

instance Uuid.lawfulPair : LawfulBEq (Uuid × Uuid) := inferInstance

/-- The hexadecimal digits `lo, …, lo + n - 1` of a uuid, counted from the left. -/
def Uuid.digits (u : Uuid) (lo n : ℕ) : List Char :=
  (List.range n).map fun i => Nat.digitChar (u.toNat / 16 ^ (31 - (lo + i)) % 16)

/-- The hyphenated form, `8-4-4-4-12`. -/
def Uuid.text (u : Uuid) : String :=
  String.ofList (u.digits 0 8 ++ '-' :: u.digits 8 4 ++ '-' :: u.digits 12 4 ++ '-' :: u.digits 16 4 ++
    '-' :: u.digits 20 12)

/-- The core a counter or an inbound belongs to, as `core_str` and the check of the hourly table know it. -/
inductive Core where | singbox | xray
  deriving DecidableEq, Repr

/-- Where the last push of a node ended. -/
inductive PushStatus where | started | applied | unchanged | failed
  deriving DecidableEq, Repr

/-- `nodes`. -/
structure Node where
  id : Uuid
  (name address : String)
  (enabled maintenance : Bool)
  (desiredSpecHash appliedSpecHash : Option String)
  lastPushStatus : Option PushStatus

/-- `users`. Times are microseconds. -/
structure User where
  id : Uuid
  (username uuid password : String)
  enabled : Bool
  (trafficLimitBytes usedTrafficBytes : ℤ)
  expiresAt : Option ℤ

/-- `inbounds`. -/
structure Inbound where
  (id nodeId : Uuid)
  (tag kind core listen : String)
  listenPort : ℤ
  flow : String
  tlsEnabled : Bool
  (serverName certPath keyPath : Option String)
  reality : Bool
  (realityPrivateKey realityPublicKey : Option String)
  realityShortIds : List String
  realityHandshakeServer : Option String
  realityHandshakePort : Option ℤ
  network : String
  (transportPath transportHost transportServiceName transportMode : Option String)
  ech : Bool
  (utlsFingerprint shadowtlsHandshakeServer : Option String)
  shadowtlsHandshakePort : Option ℤ
  extra : Json
  enabled : Bool
  (upMbps downMbps : ℤ)
  udpIdleTimeout : String
  upstreamInboundId : Option Uuid
  (chainUuid chainPassword : Option String)
  deriving Inhabited

/-- `node_user_traffic`. -/
structure TrafficRow where
  (nodeId userId : Uuid)
  core : Core
  (upBytes downBytes lastUp lastDown : ℤ)
  lastEpoch : String
  deriving DecidableEq, Repr

def TrafficRow.key (r : TrafficRow) : Uuid × Uuid × Core := (r.nodeId, r.userId, r.core)

/-- `traffic_usage_hourly`. -/
structure HourlyRow where
  bucket : ℤ
  (nodeId userId : Uuid)
  core : Core
  (upBytes downBytes sampleCount : ℤ)
  deriving DecidableEq, Repr

def HourlyRow.key (r : HourlyRow) : ℤ × Uuid × Uuid × Core := (r.bucket, r.nodeId, r.userId, r.core)

/-- `wg_interfaces`. -/
structure WgInterface where
  (id nodeId : Uuid)
  name : String
  listenPort : ℤ
  (privateKey addressCidr : String)
  mtu : ℤ
  amnezia : Bool
  amneziaParams : Json
  enabled : Bool
  createdAt : ℤ

/-- `wg_peers`. -/
structure WgPeer where
  (interfaceId userId : Uuid)
  (privateKey publicKey address : String)

def WgPeer.key (p : WgPeer) : Uuid × Uuid := (p.interfaceId, p.userId)

/-- `node_services`. -/
structure NodeService where
  (id nodeId : Uuid)
  (kind name : String)
  listenPort : ℤ
  secret : Option String
  config : Json
  enabled : Bool
  createdAt : ℤ

/-- The database. Rows are listed in the order in which a query without `ORDER BY` returns them. -/
structure Db where
  nodes : Table Node.id
  users : Table User.id
  (nodeGroupMembers userGroupAccess : List (Uuid × Uuid))
  inbounds : Table Inbound.id
  traffic : Table TrafficRow.key
  hourly : Table HourlyRow.key
  wgInterfaces : Table WgInterface.id
  wgPeers : Table WgPeer.key
  services : Table NodeService.id

/-- The tables of a new installation. -/
def Db.initial : Db := ⟨.empty, .empty, [], [], .empty, .empty, .empty, .empty, .empty, .empty⟩

/-- What a statement fails with. -/
inductive DbError where | notFound | foreignKey | outOfRange
  deriving DecidableEq, Repr

/-- A value that fits `bigint`. -/
def InI64 (x : ℤ) : Prop := -2 ^ 63 ≤ x ∧ x < 2 ^ 63

instance (x : ℤ) : Decidable (InI64 x) := inferInstanceAs (Decidable (_ ∧ _))

/-- A checked `bigint` result. -/
def bigint (x : ℤ) : Except DbError ℤ := if InI64 x then .ok x else .error .outOfRange

theorem bigint_eq_ok {x y : ℤ} : bigint x = .ok y ↔ InI64 x ∧ y = x := by
  rw [bigint]
  split <;> rename_i h
  · simp [h, eq_comm]
  · simp [h]

end Honey.Master
