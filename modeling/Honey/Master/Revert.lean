import Honey.Master.Guard
import Honey.Master.Inbounds
import Honey.Schemes.Walk

/-! Reverting an inbound to an earlier version (`revert_inbound` in `api/mod.rs`).

        create, update -- row -- to_value --> snapshot        no private key, no chain password
                                                 |
        revert         snapshot -- from_value --> patch -- UPDATE      no check at all
                                                 |
        absent: as the row is now     null: cleared     value: as it was

    The version was checked when it was captured, on the row and the other inbounds as they were then. What a revert
    leaves is sound exactly if the parts that the snapshot does not hold, the private key and the exits of other
    inbounds, still fit it (`revert_sound_iff`). Rows are here with their secrets in the clear. -/

namespace Honey.Master
open Honey.Schemes List Table Json

/-! ### Snapshots -/

namespace Json

def ofInt? : Option ℤ → Json
  | none => .null
  | some n => .int n

def asInt? : Json → Option ℤ
  | .int n => some n
  | _ => none

def asTexts? : Json → Option (List String)
  | .arr items => items.mapM asStr?
  | _ => none

/-- A uuid, in the form that serde reads and writes. -/
def asUuid? (j : Json) : Option Uuid := j.asStr?.bind parseUuid

/-- A value of any kind. -/
def asValue? (j : Json) : Option Json := some j

end Json

/-- `serde_json::to_value` of an inbound: the private key and the password of the chain are skipped. The
    columns that nothing here reads are left out. -/
def Inbound.toValue (ib : Inbound) : Json := .obj [ ("cert_path", .ofOption ib.certPath),
  ("chain_uuid", .ofOption ib.chainUuid),
  ("core", .str ib.core),
  ("down_mbps", .int ib.downMbps),
  ("ech", .bool ib.ech),
  ("enabled", .bool ib.enabled),
  ("extra", ib.extra),
  ("flow", .str ib.flow),
  ("id", .str ib.id.text),
  ("key_path", .ofOption ib.keyPath),
  ("kind", .str ib.kind),
  ("listen", .str ib.listen),
  ("listen_port", .int ib.listenPort),
  ("network", .str ib.network),
  ("node_id", .str ib.nodeId.text),
  ("reality", .bool ib.reality),
  ("reality_handshake_port", .ofInt? ib.realityHandshakePort),
  ("reality_handshake_server", .ofOption ib.realityHandshakeServer),
  ("reality_public_key", .ofOption ib.realityPublicKey),
  ("reality_short_ids", .arr (ib.realityShortIds.map .str)),
  ("server_name", .ofOption ib.serverName),
  ("shadowtls_handshake_port", .ofInt? ib.shadowtlsHandshakePort),
  ("shadowtls_handshake_server", .ofOption ib.shadowtlsHandshakeServer),
  ("tag", .str ib.tag),
  ("tls_enabled", .bool ib.tlsEnabled),
  ("transport_host", .ofOption ib.transportHost),
  ("transport_mode", .ofOption ib.transportMode),
  ("transport_path", .ofOption ib.transportPath),
  ("transport_service_name", .ofOption ib.transportServiceName),
  ("udp_idle_timeout", .str ib.udpIdleTimeout),
  ("up_mbps", .int ib.upMbps),
  ("upstream_inbound_id", .ofOption (ib.upstreamInboundId.map Uuid.text)),
  ("utls_fingerprint", .ofOption ib.utlsFingerprint)]

section

variable {α : Type} (read : Json → Option α) (j : Json) (name : String)

/-- A value that is there. The texts of serde's own errors are not modelled. -/
def typed (v : Json) : Except String α :=
  match read v with
  | some a => .ok a
  | none => .error ("invalid type for " ++ name)

/-- A field of type `Option<T>`: absent and null are the same. -/
def optionField : Except String (Option α) :=
  match j.get? name with
  | none | some .null => .ok none
  | some v => (typed read name v).map some

/-- A field of type `Patch<T>`: absent and null are not the same. -/
def patchField : Except String (Patch α) :=
  match j.get? name with
  | none => .ok .missing
  | some .null => .ok .null
  | some v => (typed read name v).map .value

end

/-- `serde_json::from_value` of an update. -/
def UpdateInbound.fromValue (j : Json) : Except String UpdateInbound := do
  return {
    tag := ← optionField asStr? j "tag"
    kind := ← optionField asStr? j "kind"
    core := ← optionField asStr? j "core"
    listenPort := ← optionField asInt? j "listen_port"
    flow := ← optionField asStr? j "flow"
    tlsEnabled := ← optionField asBool? j "tls_enabled"
    serverName := ← patchField asStr? j "server_name"
    certPath := ← patchField asStr? j "cert_path"
    keyPath := ← patchField asStr? j "key_path"
    reality := ← optionField asBool? j "reality"
    realityPrivateKey := ← patchField asStr? j "reality_private_key"
    realityPublicKey := ← patchField asStr? j "reality_public_key"
    realityShortIds := ← optionField asTexts? j "reality_short_ids"
    realityHandshakeServer := ← patchField asStr? j "reality_handshake_server"
    realityHandshakePort := ← patchField asInt? j "reality_handshake_port"
    network := ← optionField asStr? j "network"
    transportPath := ← patchField asStr? j "transport_path"
    transportHost := ← patchField asStr? j "transport_host"
    transportServiceName := ← patchField asStr? j "transport_service_name"
    transportMode := ← patchField asStr? j "transport_mode"
    ech := ← optionField asBool? j "ech"
    utlsFingerprint := ← patchField asStr? j "utls_fingerprint"
    shadowtlsHandshakeServer := ← patchField asStr? j "shadowtls_handshake_server"
    shadowtlsHandshakePort := ← patchField asInt? j "shadowtls_handshake_port"
    extra := ← optionField asValue? j "extra"
    enabled := ← optionField asBool? j "enabled"
    upMbps := ← optionField asInt? j "up_mbps"
    downMbps := ← optionField asInt? j "down_mbps"
    udpIdleTimeout := ← optionField asStr? j "udp_idle_timeout"
    upstreamInboundId := ← patchField asUuid? j "upstream_inbound_id" }

/-! ### The handler -/

/-- `entity_versions`. -/
structure EntityVersion where
  id : ℕ
  resourceType : String
  resourceId : Uuid
  snapshot : Json

def loadVersion (versions : List EntityVersion) (version : ℕ) (type : String) (id : Uuid) : Except ApiError Json :=
  match (versions.find? (·.id = version)).filter fun v => v.resourceType = type ∧ v.resourceId = id with
  | none => .error .notFound
  | some v => .ok v.snapshot

variable (db : Db)

/-- `revert_inbound`, with the credential it draws. -/
def revertInbound (versions : List EntityVersion) (id : Uuid) (version : ℕ)
    (fresh : String × String) : Except ApiError Db :=
  match loadVersion versions version "inbound" id with
  | .error e => .error e
  | .ok snapshot => match UpdateInbound.fromValue snapshot with
    | .error e => .error (.badRequest ("snapshot is not revertable: " ++ e))
    | .ok update => match db.inbounds.find? id with
      | none => .error .notFound
      | some current => writeInbound db (update.chain fresh (update.apply current))

/-! ### A snapshot read back -/

def Patch.ofOption {α : Type} : Option α → Patch α
  | none => .null
  | some a => .value a

def Json.notNull? : Json → Option Json
  | .null => none
  | j => some j

/-- The patch that a snapshot is read as. -/
def Inbound.patch (ib : Inbound) : UpdateInbound where
  tag := some ib.tag
  kind := some ib.kind
  core := some ib.core
  listenPort := some ib.listenPort
  flow := some ib.flow
  tlsEnabled := some ib.tlsEnabled
  serverName := .ofOption ib.serverName
  certPath := .ofOption ib.certPath
  keyPath := .ofOption ib.keyPath
  reality := some ib.reality
  realityPrivateKey := .missing
  realityPublicKey := .ofOption ib.realityPublicKey
  realityShortIds := some ib.realityShortIds
  realityHandshakeServer := .ofOption ib.realityHandshakeServer
  realityHandshakePort := .ofOption ib.realityHandshakePort
  network := some ib.network
  transportPath := .ofOption ib.transportPath
  transportHost := .ofOption ib.transportHost
  transportServiceName := .ofOption ib.transportServiceName
  transportMode := .ofOption ib.transportMode
  ech := some ib.ech
  utlsFingerprint := .ofOption ib.utlsFingerprint
  shadowtlsHandshakeServer := .ofOption ib.shadowtlsHandshakeServer
  shadowtlsHandshakePort := .ofOption ib.shadowtlsHandshakePort
  extra := ib.extra.notNull?
  enabled := some ib.enabled
  upMbps := some ib.upMbps
  downMbps := some ib.downMbps
  udpIdleTimeout := some ib.udpIdleTimeout
  upstreamInboundId := .ofOption ib.upstreamInboundId

theorem mapM_map_some {α β γ : Type} {f : α → β} {g : β → Option γ} {h : α → γ}
    (hgf : ∀ a, g (f a) = some (h a)) : ∀ l : List α, (l.map f).mapM g = some (l.map h)
  | [] => rfl
  | a :: l => by
    rw [map_cons, mapM_cons, hgf, mapM_map_some hgf l]
    rfl

theorem hexDigit_digitChar : ∀ d < 16, hexDigit? (Nat.digitChar d) = some d ∧ Nat.digitChar d ≠ '-' := by
  decide

namespace Uuid

variable (u : Uuid)

theorem digits_append (lo n m : ℕ) : u.digits lo n ++ u.digits (lo + n) m = u.digits lo (n + m) := by
  simp only [Uuid.digits, range_add, map_append, map_map]
  congr 2
  ext i
  simp [add_assoc]

theorem hyphen_notMem_digits (lo n : ℕ) : '-' ∉ u.digits lo n := by
  intro h
  obtain ⟨i, -, hi⟩ := mem_map.mp h
  exact (hexDigit_digitChar _ (Nat.mod_lt _ (by decide))).2 hi

theorem length_digits (lo n : ℕ) : (u.digits lo n).length = n := by
  simp [Uuid.digits]

theorem foldl_digits (u : Uuid) : ∀ n ≤ 32,
    ((List.range n).map fun i => u.toNat / 16 ^ (31 - i) % 16).foldl (fun n d => 16 * n + d) 0 = u.toNat / 16 ^ (32 - n)
  | 0, _ => (Nat.div_eq_of_lt u.isLt).symm
  | n + 1, hn => by
    rw [range_succ, map_append, foldl_append, foldl_digits u n (by omega)]
    have hpow : 32 - n = (31 - n) + 1 := by omega
    have hsucc : 32 - (n + 1) = 31 - n := by omega
    rw [hsucc, hpow, pow_succ, ← Nat.div_div_eq_div_mul]
    exact Nat.div_add_mod _ 16

theorem parseSimple_digits : parseSimple (u.digits 0 32) = some u := by
  have hdigits : (u.digits 0 32).mapM hexDigit? = some ((range 32).map fun i => u.toNat / 16 ^ (31 - i) % 16) := by
    refine mapM_map_some (fun i => ?_) _
    rw [zero_add]
    exact (hexDigit_digitChar _ (Nat.mod_lt _ (by decide))).1
  rw [parseSimple, if_pos (u.length_digits 0 32), hdigits, Option.map_some, foldl_digits u 32 le_rfl]
  simp

theorem parse_text : parseUuid u.text = some u := by
  have hlist : u.text.toList = ['-'].intercalate
      [u.digits 0 8, u.digits 8 4, u.digits 12 4, u.digits 16 4, u.digits 20 12] := by
    simp [Uuid.text]
  have hsplit : u.text.toList.splitOn '-' =
      [u.digits 0 8, u.digits 8 4, u.digits 12 4, u.digits 16 4, u.digits 20 12] := by
    rw [hlist]
    refine splitOn_intercalate '-' ?_ (by simp)
    simp [hyphen_notMem_digits]
  have hlen : u.text.toList.length = 36 := by
    rw [hlist]
    simp [length_digits]
  have hflat : (u.text.toList.splitOn '-').flatten = u.digits 0 32 := by
    rw [hsplit]
    simp only [flatten_cons, flatten_nil, append_nil]
    rw [digits_append u 16 4 12, digits_append u 12 4 16, digits_append u 8 4 20, digits_append u 0 8 24]
  rw [parseUuid]
  simp only [hlen]
  rw [if_neg (by decide), if_pos trivial, parseHyphenated,
    if_pos (by rw [hsplit]; simp [length_digits]), hflat, parseSimple_digits]

end Uuid
section

variable {α : Type} {read : Json → Option α} {j v : Json} {name : String}

theorem optionField_value {a : α} (hget : j.get? name = some v) (hread : read v = some a)
    (hv : v ≠ .null) : optionField read j name = .ok (some a) := by
  rw [optionField, hget]
  cases v with
  | null => exact absurd rfl hv
  | _ => simp [typed, hread, Except.map]

theorem patchField_value {a : α} (hget : j.get? name = some v) (hread : read v = some a)
    (hv : v ≠ .null) : patchField read j name = .ok (.value a) := by
  rw [patchField, hget]
  cases v with
  | null => exact absurd rfl hv
  | _ => simp [typed, hread, Except.map]

theorem optionField_str {s : String} (hget : j.get? name = some (.str s)) :
    optionField asStr? j name = .ok (some s) := optionField_value hget rfl nofun

theorem optionField_bool {b : Bool} (hget : j.get? name = some (.bool b)) :
    optionField asBool? j name = .ok (some b) := optionField_value hget rfl nofun

theorem optionField_int {n : ℤ} (hget : j.get? name = some (.int n)) :
    optionField asInt? j name = .ok (some n) := optionField_value hget rfl nofun

theorem patchField_str {o : Option String} (hget : j.get? name = some (.ofOption o)) :
    patchField asStr? j name = .ok (.ofOption o) := by
  cases o with
  | none => rw [patchField, hget]; rfl
  | some s => exact patchField_value hget rfl nofun

theorem patchField_int {o : Option ℤ} (hget : j.get? name = some (.ofInt? o)) :
    patchField asInt? j name = .ok (.ofOption o) := by
  cases o with
  | none => rw [patchField, hget]; rfl
  | some s => exact patchField_value hget rfl nofun

theorem optionField_extra (hget : j.get? name = some v) : optionField asValue? j name = .ok v.notNull? := by
  rw [optionField, hget]
  cases v <;> rfl

theorem asTexts_texts (l : List String) : asTexts? (.arr (l.map .str)) = some l := by
  have hmap := mapM_map_some (f := str) (g := asStr?) (h := id) (fun _ => rfl) l
  rwa [map_id] at hmap

theorem patchField_uuid {o : Option Uuid} (hget : j.get? name = some (.ofOption (o.map Uuid.text))) :
    patchField asUuid? j name = .ok (.ofOption o) := by
  cases o with
  | none => rw [patchField, hget]; rfl
  | some u => exact patchField_value hget u.parse_text nofun

end

/-- A snapshot is read as the patch of everything it holds. -/
theorem fromValue_toValue (ib : Inbound) : UpdateInbound.fromValue ib.toValue = .ok ib.patch := by
  have hprivate : patchField asStr? ib.toValue "reality_private_key" = .ok .missing := rfl
  have hids : optionField asTexts? ib.toValue "reality_short_ids" = _ :=
    optionField_value rfl (asTexts_texts ib.realityShortIds) nofun
  rw [UpdateInbound.fromValue]
  -- every other field is in the snapshot under its name, with a value of its type
  repeat refine bind_eq_ok.mpr ⟨_, by first
      | exact hprivate
      | exact hids
      | exact optionField_str rfl
      | exact optionField_int rfl
      | exact optionField_bool rfl
      | exact patchField_str rfl
      | exact patchField_int rfl
      | exact patchField_uuid rfl
      | exact optionField_extra rfl, ?_⟩
  rfl

/-! ### The row that a revert leaves -/

theorem over_ofOption {α : Type} (o current : Option α) : (Patch.ofOption o).over current = o := by
  cases o <;> rfl

/-- The row after a revert: the snapshot, but for the private key, and with a new credential. -/
def reverted (fresh : String × String) (current snap : Inbound) : Inbound :=
  snap.patch.chain fresh (snap.patch.apply current)

section

variable {fresh : String × String} {current snap : Inbound}

theorem reverted_upstream : (reverted fresh current snap).upstreamInboundId = snap.upstreamInboundId := by
  rw [reverted, Inbound.patch]
  cases snap.upstreamInboundId <;> rfl

theorem reverted_id : (reverted fresh current snap).id = current.id := by
  rw [reverted, UpdateInbound.chain]
  split <;> rfl

theorem over_missing {α : Type} (current : Option α) : (Patch.missing : Patch α).over current = current := rfl

theorem chain_checked (fresh : String × String) (input : UpdateInbound) (ib : Inbound) (acme : Bool) :
    validateEffectiveSecurity (input.chain fresh ib) acme = validateEffectiveSecurity ib acme ∧
    (input.chain fresh ib).core = ib.core ∧ (input.chain fresh ib).extra = ib.extra ∧
    (input.chain fresh ib).realityPrivateKey = ib.realityPrivateKey ∧
    (input.chain fresh ib).realityPublicKey = ib.realityPublicKey := by
  rw [UpdateInbound.chain]
  split <;> exact ⟨rfl, rfl, rfl, rfl, rfl⟩

theorem reverted_checked (fresh : String × String) (current snap : Inbound) (acme : Bool) :
    validateEffectiveSecurity (reverted fresh current snap) acme = validateEffectiveSecurity
      { snap with realityPrivateKey := current.realityPrivateKey } acme ∧
    (reverted fresh current snap).core = snap.core ∧
    (reverted fresh current snap).extra = snap.extra.notNull?.getD current.extra ∧
    (reverted fresh current snap).realityPrivateKey = current.realityPrivateKey ∧
    (reverted fresh current snap).realityPublicKey = snap.realityPublicKey := by
  obtain ⟨hsec, hcore, hextra, hprivate, hpublic⟩ := chain_checked fresh snap.patch _ acme
  refine ⟨hsec.trans ?_, hcore, hextra, hprivate, hpublic.trans (over_ofOption _ _)⟩
  simp [validateEffectiveSecurity, UpdateInbound.apply, Inbound.patch, over_ofOption, over_missing]

end

theorem revertInbound_ok {db db' : Db} {versions : List EntityVersion} {id : Uuid} {version : ℕ}
    {fresh : String × String} {snap current : Inbound}
    (hload : loadVersion versions version "inbound" id = .ok snap.toValue)
    (hcurrent : db.inbounds.find? id = some current) (h : revertInbound db versions id version fresh = .ok db') :
    db' = { db with inbounds := db.inbounds.put (reverted fresh current snap) } := by
  rw [revertInbound, hload] at h
  simp only [fromValue_toValue, hcurrent] at h
  exact (writeInbound_ok h).2

/-! ### Versions -/

/-- The inbound that a request is about. -/
def InboundOp.target : InboundOp → Uuid
  | .create id _ _ => id
  | .update id _ _ => id

/-- The row that an accepted creation or update leaves, of which `capture_version` takes a snapshot. -/
def Captured (snap : Inbound) : Prop :=
  ∃ db op db', InboundOp.run db op = .ok db' ∧ db'.inbounds.find? op.target = some snap

theorem Captured.checked {snap : Inbound} (h : Captured snap) :
    validateEffectiveSecurity snap (acmeEnabled snap.extra) = .ok () ∧
    validateAcmeForCore snap.core snap.extra = .ok () := by
  obtain ⟨db, op, db', hrun, hfind⟩ := h
  cases op with
  | create id fresh input =>
    obtain ⟨hvalid, rfl⟩ := createInbound_ok hrun
    have hsnap : input.stored id fresh = snap := by
      have hid : id = (input.stored id fresh).id := rfl
      rw [InboundOp.target, find?_put, if_pos hid] at hfind
      exact Option.some.inj hfind
    obtain ⟨-, -, ⟨-, hsec, hacme⟩, -⟩ := validateInbound_eq_ok.mp (validateInbound_stored hvalid)
    rw [hsnap] at hsec hacme
    refine ⟨hsec, ?_⟩
    cases he : acmeEnabled snap.extra with
    | true => exact hacme he
    | false => exact validateAcmeForCore_of_not_enabled he
  | update id fresh input =>
    obtain ⟨current, hcurrent, -, heff, -, rfl⟩ := updateInbound_ok hrun
    have hid : id = (input.chain fresh (input.apply current)).id := by
      rw [UpdateInbound.chain]
      split <;> exact (find?_eq_some.mp hcurrent).2.symm
    have hsnap : input.chain fresh (input.apply current) = snap := by
      rw [InboundOp.target, find?_put, if_pos hid] at hfind
      exact Option.some.inj hfind
    obtain ⟨-, hsec, hacme⟩ : _ ∧ _ ∧ _ := by
      simpa only [validateEffectiveUpdate, then_eq_ok] using heff
    obtain ⟨hsame, hcore, hextra, -⟩ :=
      chain_checked fresh input (input.apply current) (acmeEnabled (input.apply current).extra)
    rw [← hsnap, hextra, hcore, hsame]
    exact ⟨hsec, hacme⟩

/-- With another private key, only the check of that key can come out otherwise. -/
theorem security_of_key {snap : Inbound} {acme acme' : Bool}
    (h : validateEffectiveSecurity snap acme = .ok ()) (hacme : acme = true → acme' = true) (key : Option String) :
    validateEffectiveSecurity { snap with realityPrivateKey := key } acme' = .ok () ↔
      (snap.reality = true → key.any validRealityKey = true) := by
  simp only [validateEffectiveSecurity, then_eq_ok, reject_eq_ok] at h ⊢
  obtain ⟨hkind, hnet, htls, hhy, hcert, hvless, hname, hshake, -, hpublic, hids, hxray⟩ := h
  constructor
  · rintro ⟨-, -, -, -, -, -, -, -, hkey, -⟩ hreality
    simpa [hreality] using hkey
  · intro hkey
    refine ⟨hkind, hnet, htls, hhy, ?_, hvless, hname, hshake, ?_, hpublic, hids, hxray⟩
    · cases acme with
      | true => simp [hacme rfl]
      | false =>
        cases acme' with
        | true => simp
        | false => exact hcert
    · cases hreality : snap.reality with
      | false => rfl
      | true => simp [hkey hreality]

/-! ### Chains -/

/-- `a` chains to `b`. -/
def ChainsTo (a b : Uuid) : Prop :=
  ∃ ib, db.inbounds.find? a = some ib ∧ ib.upstreamInboundId = some b

/-- No chain leads back to where it starts. -/
def Acyclic : Prop := ∀ a, ¬ Relation.TransGen (ChainsTo db) a a

/-- The exit of an inbound. -/
def exitOf (a : Uuid) : Option Uuid := (db.inbounds.find? a).bind (·.upstreamInboundId)

theorem acyclic_iff {db : Db} : Acyclic db ↔ Loopless (exitOf db) := by
  have hedge : ChainsTo db = fun a b => exitOf db a = some b := by
    funext a b
    rw [ChainsTo, exitOf, Option.bind_eq_some_iff]
  rw [Acyclic, hedge, Loopless, forall_comm]
  refine forall_congr' fun a => ?_
  rw [transGen_iff_walk, not_exists]

section

variable {db : Db} {self : Uuid} {row : Inbound}

/-- Where the loop ends, the chain does not lead to the inbound. -/
theorem followChain_avoids : ∀ {n : ℕ} {a : Uuid}, followChain db self n (some a) = .ok none →
    ∀ k, walk (exitOf db) k a ≠ some self
  | 0, a, h, _ => by cases h
  | n + 1, a, h, k => by
    rw [followChain] at h
    split at h
    · cases h
    rename_i hne
    split at h
    · rename_i ib hfind
      rcases k with _ | k
      · exact fun ha => hne (Option.some.inj ha)
      rw [walk, exitOf, hfind, Option.bind_some]
      cases hup : ib.upstreamInboundId with
      | none =>
        intro hself
        cases hself
      | some b =>
        rw [hup] at h
        exact followChain_avoids h k
    · cases h

/-- The tables with a row written. -/
abbrev Db.putRow (db : Db) (row : Inbound) : Db := { db with inbounds := db.inbounds.put row }

theorem followChain_put (hrow : row.id = self) : ∀ (n : ℕ) (hop : Option Uuid),
    followChain (db.putRow row) self n hop = followChain db self n hop
  | 0, _ => rfl
  | _ + 1, none => rfl
  | n + 1, some next => by
    rw [followChain, followChain]
    split
    · rfl
    rename_i hne
    rw [find?_put_of_ne (by rw [hrow]; exact hne)]
    split
    · exact followChain_put hrow n _
    · rfl

theorem validateUpstream_eq_ok {upstream : Option Uuid} {core : String} :
    validateUpstream db upstream (some self) core = .ok () ↔ ∀ up, upstream = some up →
      core ≠ "xray" ∧ up ≠ self ∧ ∃ exit, db.inbounds.find? up = some exit ∧ exit.core = "singbox" ∧
        exit.kind ∈ chainable ∧ followChain db self 8 exit.upstreamInboundId = .ok none := by
  rcases upstream with _ | up
  · simp [validateUpstream]
  simp only [validateUpstream, then_eq_ok, reject_eq_ok, Option.some.injEq, forall_eq', decide_eq_false_iff_not]
  refine and_congr_right fun _ => and_congr (not_congr eq_comm) ?_
  rcases db.inbounds.find? up with _ | exit
  · simp
  have hdepth : validateDepth db (some self) exit = .ok () ↔
      followChain db self 8 exit.upstreamInboundId = .ok none := by
    rw [validateDepth, bind_eq_ok]
    constructor
    · rintro ⟨hop, hwalk, hend⟩
      have hnone : hop = none := by simpa using reject_eq_ok.mp hend
      rwa [hnone] at hwalk
    · exact fun hwalk => ⟨none, hwalk, rfl⟩
  simp [then_eq_ok, reject_eq_ok, hdepth]

theorem validateUpstream_put (hrow : row.id = self) (upstream : Option Uuid) (core : String) :
    validateUpstream (db.putRow row) upstream (some self) core = .ok () ↔
      validateUpstream db upstream (some self) core = .ok () := by
  simp only [validateUpstream_eq_ok, followChain_put hrow]
  refine forall_congr' fun up => forall_congr' fun _ => and_congr_right fun _ =>
    and_congr_right fun hne => ?_
  rw [find?_put_of_ne (by rw [hrow]; exact hne)]

theorem exitOf_put (db : Db) (row : Inbound) (a : Uuid) :
    exitOf (db.putRow row) a = if a = row.id then row.upstreamInboundId else exitOf db a := by
  rw [exitOf]
  rw [find?_put]
  split
  · rw [Option.bind_some]
  · rfl

theorem redirects_put {up : Uuid} {exit : Inbound} (hup : row.upstreamInboundId = some up) (hne : up ≠ row.id)
    (hfind : db.inbounds.find? up = some exit) {n : ℕ}
    (hwalk : followChain db row.id n exit.upstreamInboundId = .ok none) :
    Redirects (exitOf db) (exitOf (db.putRow row)) row.id up where
  other a ha := by rw [exitOf_put, if_neg ha]
  at_x := by rw [exitOf_put, if_pos rfl, hup]
  back k := by
    rcases k with _ | k
    · exact fun h => hne (Option.some.inj h)
    rw [walk, exitOf, hfind, Option.bind_some]
    cases hnext : exit.upstreamInboundId with
    | none =>
      intro hself
      cases hself
    | some b =>
      rw [hnext] at hwalk
      exact followChain_avoids hwalk k

theorem exitOf_put_none (hup : row.upstreamInboundId = none) (a b : Uuid)
    (h : exitOf (db.putRow row) a = some b) : exitOf db a = some b := by
  rw [exitOf_put] at h
  split at h
  · rw [hup] at h
    cases h
  · exact h

/-- A row whose chain passes closes no cycle. -/
theorem acyclic_put (hrow : row.id = self)
    (hok : validateUpstream db row.upstreamInboundId (some self) row.core = .ok ()) (h : Acyclic db) :
    Acyclic (db.putRow row) := by
  obtain rfl := hrow
  rw [acyclic_iff] at h ⊢
  cases hup : row.upstreamInboundId with
  | none => exact h.mono (exitOf_put_none hup)
  | some up =>
    obtain ⟨-, hne, exit, hfind, -, -, hwalk⟩ := validateUpstream_eq_ok.mp hok up hup
    exact (redirects_put hup hne hfind hwalk).loopless h

end

/-! ### What a revert leaves -/

/-- The private key belongs to the public one; `publicKey` is X25519. -/
def Paired (publicKey : String → String) (ib : Inbound) : Prop :=
  ∃ key, ib.realityPrivateKey = some key ∧ ib.realityPublicKey = some (publicKey key)

/-- What a revert of an inbound should leave: a row that passes the checks on its stored values, no new
    cycle, and the key pair if the version had one. -/
def RevertSound (publicKey : String → String) (db db' : Db) (snap : Inbound) : Prop :=
  ∃ row, db'.inbounds.find? snap.id = some row ∧ validateEffectiveSecurity row (acmeEnabled row.extra) = .ok () ∧
    validateAcmeForCore row.core row.extra = .ok () ∧
    validateUpstream db' row.upstreamInboundId (some snap.id) row.core = .ok () ∧
    (Acyclic db → Acyclic db') ∧ (Paired publicKey snap → Paired publicKey row)

/-- The row as it is now and the other inbounds still fit the version. -/
structure Fitting (publicKey : String → String) (db : Db) (current snap : Inbound) : Prop where
  /-- There is still a private key, where the version uses one. -/
  key : snap.reality = true → current.realityPrivateKey.any validRealityKey = true
  /-- It is the one that belongs to the version. -/
  pair : Paired publicKey snap →
    ∃ key, current.realityPrivateKey = some key ∧ snap.realityPublicKey = some (publicKey key)
  /-- The settings of a version without any are those of the row. -/
  acme : snap.extra.notNull? = none → validateAcmeForCore snap.core current.extra = .ok ()
  /-- The exit of the version can still be one, and its own chain ends without coming back. -/
  chain : ∀ up, snap.upstreamInboundId = some up → snap.core ≠ "xray" ∧ up ≠ snap.id ∧
    ∃ exit, db.inbounds.find? up = some exit ∧ exit.core = "singbox" ∧ exit.kind ∈ chainable ∧
      followChain db snap.id 8 exit.upstreamInboundId = .ok none

theorem acmeEnabled_effective {snap current : Inbound} (h : acmeEnabled snap.extra = true) :
    acmeEnabled (snap.extra.notNull?.getD current.extra) = true := by
  cases he : snap.extra with
  | null =>
    rw [he] at h
    cases h
  | _ =>
    rw [he] at h
    exact h

theorem validateAcmeForCore_effective {snap current : Inbound} (h : validateAcmeForCore snap.core snap.extra = .ok ()) :
    validateAcmeForCore snap.core (snap.extra.notNull?.getD current.extra) = .ok () ↔
      (snap.extra.notNull? = none → validateAcmeForCore snap.core current.extra = .ok ()) := by
  cases he : snap.extra with
  | null => simp [notNull?]
  | _ =>
    rw [he] at h
    simpa [notNull?] using h

/-- An accepted revert leaves everything sound exactly if the version still fits. -/
theorem revert_sound_iff (publicKey : String → String) {db db' : Db} {versions : List EntityVersion}
    {version : ℕ} {fresh : String × String} {snap current : Inbound} (hcaptured : Captured snap)
    (hload : loadVersion versions version "inbound" snap.id = .ok snap.toValue)
    (hcurrent : db.inbounds.find? snap.id = some current)
    (hrevert : revertInbound db versions snap.id version fresh = .ok db') :
    RevertSound publicKey db db' snap ↔ Fitting publicKey db current snap := by
  have hdb := revertInbound_ok hload hcurrent hrevert
  have hid : (reverted fresh current snap).id = snap.id := reverted_id.trans (find?_eq_some.mp hcurrent).2
  have hrow : db'.inbounds.find? snap.id = some (reverted fresh current snap) := by
    rw [hdb, find?_put, if_pos hid.symm]
  obtain ⟨hsecure, hacme⟩ := hcaptured.checked
  obtain ⟨hsec, hcore, hextra, hprivate, hpublic⟩ := reverted_checked fresh current snap _
  have hkept : acmeEnabled snap.extra = true → acmeEnabled (reverted fresh current snap).extra = true := by
    intro h
    rw [hextra]
    exact acmeEnabled_effective h
  have hkey := security_of_key hsecure hkept current.realityPrivateKey
  have hchain : validateUpstream db' snap.upstreamInboundId (some snap.id) snap.core = .ok () ↔
      validateUpstream db snap.upstreamInboundId (some snap.id) snap.core = .ok () := by
    rw [hdb]
    exact validateUpstream_put hid _ _
  constructor
  · rintro ⟨row, hfind, hs, ha, hu, -, hp⟩
    obtain rfl := Option.some.inj (hrow.symm.trans hfind)
    rw [hsec] at hs
    rw [hcore, hextra] at ha
    rw [reverted_upstream, hcore] at hu
    refine ⟨hkey.mp hs, fun hpair => ?_, (validateAcmeForCore_effective hacme).mp ha,
      validateUpstream_eq_ok.mp (hchain.mp hu)⟩
    obtain ⟨key, hk, hpk⟩ := hp hpair
    exact ⟨key, hprivate ▸ hk, hpublic ▸ hpk⟩
  · intro hfit
    have hup := validateUpstream_eq_ok.mpr hfit.chain
    refine ⟨reverted fresh current snap, hrow, ?_, ?_, ?_, fun hacyclic => ?_, fun hpair => ?_⟩
    · rw [hsec]
      exact hkey.mpr hfit.key
    · rw [hcore, hextra]
      exact (validateAcmeForCore_effective hacme).mpr hfit.acme
    · rw [reverted_upstream, hcore]
      exact hchain.mpr hup
    · rw [hdb]
      refine acyclic_put hid ?_ hacyclic
      rw [reverted_upstream, hcore]
      exact hup
    · obtain ⟨key, hk, hpk⟩ := hfit.pair hpair
      exact ⟨key, hprivate.trans hk, hpublic.trans hpk⟩

/-! ### A version that no longer fits -/

/-- The entry of a chain. -/
def entryRow : Inbound := vlessRequest.stored 1 ("", "")

/-- Another inbound of the node. -/
def exitRow : Inbound := { entryRow with id := 2, tag := "out", listenPort := 444 }

/-- A patch of the upstream alone. -/
def upstreamPatch (up : Uuid) : UpdateInbound :=
  { (default : UpdateInbound) with upstreamInboundId := .value up }

def twoInbounds (entry exit : Inbound) : Db :=
  { oneNode with inbounds := (Table.empty.put entry).put exit }

/-- The entry with its exit, as it was captured. -/
def chainedRow : Inbound :=
  (upstreamPatch 2).chain ("c", "p") ((upstreamPatch 2).apply entryRow)

/-- Later the entry was taken off the chain, and the exit put on one to the entry. -/
def turnedAround : Db := twoInbounds entryRow { exitRow with
  upstreamInboundId := some 1, chainUuid := some "d", chainPassword := some "q" }

theorem chainedRow_captured : Captured chainedRow := by
  let db := twoInbounds entryRow exitRow
  refine ⟨db, .update 1 ("c", "p") (upstreamPatch 2),
    { db with inbounds := db.inbounds.put chainedRow }, ?_, find?_put_self⟩
  simp only [InboundOp.run]
  exact writeInbound_passes (by decide) (by decide) (Option.some_ne_none _) fun _ h =>
    Option.some.inj h ▸ Option.some_ne_none _

/-- The version is the only one there is. -/
def chainedVersion : List EntityVersion := [⟨1, "inbound", 1, chainedRow.toValue⟩]

theorem load_chainedVersion : loadVersion chainedVersion 1 "inbound" chainedRow.id = .ok chainedRow.toValue := by
  rfl

/-- The row that the revert leaves closes the chain. -/
def ringRow : Inbound := reverted ("e", "r") entryRow chainedRow

theorem revert_chainedRow (hfind : db.inbounds.find? 1 = some entryRow)
    (hwrite : writeInbound db ringRow = .ok { db with inbounds := db.inbounds.put ringRow }) :
    revertInbound db chainedVersion 1 1 ("e", "r") = .ok { db with inbounds := db.inbounds.put ringRow } := by
  rw [revertInbound]
  simp only [hfind]
  exact hwrite

/-- As long as the exit is not on a chain itself, the version can be restored. -/
theorem chain_restored : ∃ db', revertInbound (twoInbounds entryRow exitRow) chainedVersion 1 1 ("e", "r") = .ok db' ∧
    RevertSound id (twoInbounds entryRow exitRow) db' chainedRow := by
  have hrevert := revert_chainedRow (twoInbounds entryRow exitRow) rfl
    (writeInbound_passes (by decide) (by decide) nofun fun _ h => Option.some.inj h ▸ nofun)
  refine ⟨_, hrevert, ?_⟩
  refine (revert_sound_iff id chainedRow_captured load_chainedVersion rfl hrevert).mpr ⟨nofun, ?_, nofun, ?_⟩
  · rintro ⟨key, hkey, -⟩
    cases hkey
  · rintro up hup
    obtain rfl := Option.some.inj hup
    exact ⟨by decide, by decide, exitRow, rfl, rfl, by decide, rfl⟩

theorem turnedAround_acyclic : Acyclic turnedAround := by
  have hedge : ∀ a b, ChainsTo turnedAround a b → a = 2 ∧ b = 1 := by
    rintro a b ⟨ib, hfind, hup⟩
    obtain ⟨hmem, rfl⟩ := find?_eq_some.mp hfind
    rcases mem_put.mp hmem with rfl | ⟨hmem, -⟩
    · exact ⟨rfl, (Option.some.inj hup).symm⟩
    · rcases mem_put.mp hmem with rfl | ⟨hmem, -⟩
      · cases hup
      · cases hmem
  intro a hcycle
  obtain ⟨b, hab, -⟩ := Relation.TransGen.head'_iff.mp hcycle
  obtain ⟨c, -, hca⟩ := Relation.TransGen.tail'_iff.mp hcycle
  have htwo := (hedge a b hab).1
  rw [(hedge c a hca).2] at htwo
  exact absurd htwo (by decide)

/-- The revert is accepted, and the two inbounds chain to each other. -/
theorem chain_closed : Captured chainedRow ∧
    loadVersion chainedVersion 1 "inbound" 1 = .ok chainedRow.toValue ∧ Acyclic turnedAround ∧
    ∃ db', revertInbound turnedAround chainedVersion 1 1 ("e", "r") = .ok db' ∧ ¬ Acyclic db' ∧
      ∀ publicKey, ¬ RevertSound publicKey turnedAround db' chainedRow := by
  let db' : Db := { turnedAround with inbounds := turnedAround.inbounds.put ringRow }
  have hentry : ChainsTo db' 1 2 := ⟨ringRow, find?_put_self, rfl⟩
  have hexit : ChainsTo db' 2 1 := ⟨{ exitRow with
    upstreamInboundId := some 1, chainUuid := some "d", chainPassword := some "q" }, rfl, rfl⟩
  have hring : ¬ Acyclic db' := fun h => h 1 (.tail (.single hentry) hexit)
  have hwrite : writeInbound turnedAround ringRow = .ok db' :=
    writeInbound_passes (by decide) (by decide) nofun fun _ h => Option.some.inj h ▸ nofun
  refine ⟨chainedRow_captured, load_chainedVersion, turnedAround_acyclic, db',
    revert_chainedRow turnedAround rfl hwrite, hring, ?_⟩
  rintro publicKey ⟨row, -, -, -, -, hkept, -⟩
  exact hring (hkept turnedAround_acyclic)

end Honey.Master
