import Honey.Agent.Json
import Honey.Agent.Users
import Honey.Master.Service
import Honey.Schemes.Duration

/-! The configs that the agent builds for its cores (`singbox/config.go`, `xray/config.go`, `hysteria/manager.go`).

        sing-box   inbounds, direct -+- chain-… for each inbound with an upstream
                                     +- a route rule for each of them, direct otherwise
        Xray       inbounds, direct
        Hysteria   one inbound

    A builder fails on the first inbound it cannot translate. -/

namespace Honey.Agent
open Honey.Master Honey.Schemes List Json Option

/-- What the agent takes from the library of Go: quoting, lower case, the checks of addresses and
    URLs, two computations on floats (`scaled` of durations, `truncate` of the text of a number), and
    writing JSON, which is read back as it was; an object is not blank. -/
structure Go where
  (quote toLower : String → String)
  (isIP isHttps : String → Bool)
  scaled : ℕ → ℕ → ℕ → ℕ
  truncate : String → ℤ
  (marshal marshalIndent : Json → String)
  unmarshal_marshal : ∀ j, wellFormed j → unmarshal (marshal j) = .ok j
  unmarshal_marshalIndent : ∀ j, wellFormed j → unmarshal (marshalIndent j) = .ok j
  marshalIndent_obj : ∀ fields, trim (marshalIndent (.obj fields)) ≠ ""

/-- A map of the keys that have a value. -/
def goMap (fields : List (String × Option Json)) : Json :=
  .object (fields.filterMap fun f => f.2.map (f.1, ·))

def text? (s : String) : Option Json := (nonempty s).map .str

def orAll (listen : String) : String := if listen = "" then "::" else listen

/-- The port of a handshake. -/
def handshakePort (port : ℕ) : ℕ := if port = 0 then 443 else port

/-- The extra settings of an inbound. -/
def readExtra (raw : String) : Except String (List (String × Json)) :=
  if raw = "" then .ok [] else unmarshalMap raw

/-- The fields but for those under some keys. -/
def without (keys : List String) (fields : List (String × Json)) : List (String × Json) :=
  fields.filter (·.1 ∉ keys)

/-- The loop of `BuildConfig` of sing-box and Xray: the checks of the tag, then the body. -/
def buildLoop {β : Type} (go : Go) (body : β → SpecInbound → Except String β) :
    List SpecInbound → List String → β → Except String β
  | [], _, c => .ok c
  | ib :: ibs, seen, c =>
    if ib.tag = "" ∨ ib.type = "" then .error "inbound needs both tag and type"
    else if ib.tag ∈ seen then .error ("duplicate inbound tag " ++ go.quote ib.tag)
    else do
      let c ← body c ib
      buildLoop go body ibs (ib.tag :: seen) c

/-! ### sing-box -/

namespace Singbox

def user (type : String) (u : InboundUser) : Json :=
  let s := singboxUser type u
  goMap [("name", s.name.map .str), ("uuid", s.id.map .str), ("password", s.password.map .str),
    ("flow", s.flow.map .str)]

variable (go : Go)

def buildTransport : Option Transport → Except String (Option Json)
  | none => .ok none
  | some t => match t.network with
    | "" | "tcp" => .ok none
    | "ws" => .ok (some (goMap [("type", some (.str "ws")), ("path", text? t.path),
        ("headers", (nonempty t.host).map fun host => .object [("Host", .str host)])]))
    | "grpc" => .ok (some (.object [("type", .str "grpc"), ("service_name", .str t.serviceName)]))
    | "http" | "h2" => .ok (some (goMap [("type", some (.str "http")), ("path", text? t.path),
        ("host", (nonempty t.host).map fun host => .arr [.str host])]))
    | "httpupgrade" => .ok (some (goMap [("type", some (.str "httpupgrade")), ("path", text? t.path),
        ("host", text? t.host)]))
    | "quic" => .ok (some (.object [("type", .str "quic")]))
    | "xhttp" | "mkcp" =>
      .error ("transport " ++ go.quote t.network ++ " is supported only by xray")
    | network => .error ("unsupported transport " ++ go.quote network)

def realityBlock (r : Reality) : Json :=
  goMap [("enabled", some (.bool true)), ("private_key", some (.str r.privateKey)),
    ("handshake", some (.object [("server", .str r.handshakeServer),
      ("server_port", .int (handshakePort r.handshakePort))])),
    ("short_id", if r.shortIds = [] then none else some (.arr (r.shortIds.map .str)))]

def safePathPart (value : String) : String :=
  let out := value.toList.map fun c =>
    if ('a' ≤ c ∧ c ≤ 'z') ∨ ('0' ≤ c ∧ c ≤ '9') ∨ c = '.' ∨ c = '-' then c else '-'
  let edge := fun c : Char => c = '.' || c = '-'
  let clean := ((out.dropWhile edge).reverse.dropWhile edge).reverse
  if clean = [] then "default" else String.ofList clean

/-- A key that is there keeps its value. -/
def setDefault (block : Json) (key : String) (value : Option Json) : Json :=
  match block.get? key with
  | some _ => block
  | none => block.setOption key value

def acmeBlock (raw : Json) (t : Tls) : Json :=
  let block : Json := match raw with
    | .obj fields => .obj fields
    | _ => .obj []
  let domain := if t.serverName = "" then "default" else safePathPart (go.toLower t.serverName)
  let block := setDefault block "domain" ((nonempty t.serverName).map fun name => .arr [.str name])
  let block := setDefault block "data_directory" (some (.str ("/etc/honey/sing-box/acme/" ++ domain)))
  setDefault block "default_server_name" (text? t.serverName)

/-- `buildTLS`, and what `acme` of the extra settings makes of it. -/
def buildTls (t : Tls) (acme : Option Json) : Json :=
  goMap [("enabled", some (.bool true)), ("server_name", text? t.serverName),
    ("certificate_path", if acme.isSome then none else text? t.certPath),
    ("key_path", if acme.isSome then none else text? t.keyPath),
    ("reality", t.reality.map realityBlock), ("acme", acme.map (acmeBlock go · t))]

variable (ib : SpecInbound)

/-- The TLS block of an inbound; ShadowTLS has none. -/
def tlsBlock (acme : Option Json) : Option Json :=
  if ib.type = "shadowtls" then none
  else (ib.tls.filter (·.enabled)).map (buildTls go · acme)

def handshakeBlock : Option Json :=
  if ib.type = "shadowtls" then
    (ib.tls.filter (·.shadowtlsHandshakeServer ≠ "")).map fun t =>
      .object [("server", .str t.shadowtlsHandshakeServer),
        ("server_port", .int (handshakePort t.shadowtlsHandshakePort))]
  else none

/-- A bandwidth of a hysteria2 inbound. -/
def mbps (n : ℕ) : Option Json :=
  if ib.type = "hysteria2" ∧ 0 < n then some (.int n) else none

/-- `buildInbound`; the extra settings replace what is there. -/
def buildInbound : Except String Json := do
  let transport ← withPrefix ("inbound " ++ go.quote ib.tag ++ ": ") (buildTransport go ib.transport)
  let extra ← withPrefix ("inbound " ++ go.quote ib.tag ++ " extra_json: ") (readExtra ib.extraJson)
  let fields := [("type", some (.str ib.type)), ("tag", some (.str ib.tag)),
    ("listen", some (.str (orAll ib.listen))), ("listen_port", some (.int ib.listenPort)),
    ("users", if ib.users = [] then none else some (.arr (ib.users.map (user ib.type)))),
    ("up_mbps", mbps ib ib.upMbps), ("down_mbps", mbps ib ib.downMbps),
    ("tls", tlsBlock go ib (get? (.obj extra) "acme")), ("transport", transport),
    ("version", if ib.type = "shadowtls" then some (.int 3) else none),
    ("handshake", handshakeBlock ib)]
  return goMap (fields ++ (without ["acme", "happ"] extra).map fun f => (f.1, some f.2))

/-- The outbound of a chain and its tag; none where there is no chain. -/
def buildChain : Except String (Option (Json × String)) :=
  if ib.upstreamOutboundJson = "" then .ok none
  else do
    let fields ← withPrefix ("inbound " ++ go.quote ib.tag ++ " upstream outbound: ")
      (unmarshalMap ib.upstreamOutboundJson)
    let tag := field (.obj fields) "tag"
    if tag = "" then .error ("inbound " ++ go.quote ib.tag ++ " upstream outbound has no tag")
    else .ok (some (.obj fields, tag))

/-- A config as far as it is built from the inbounds: the chain outbounds stand after the direct one,
    a rule sends the traffic of one inbound to the outbound of a tag. -/
structure Config where
  (inbounds chains : List Json)
  rules : List (String × String)

/-- The body of the loop of `BuildConfig`. -/
def addInbound (c : Config) (ib : SpecInbound) : Except String Config := do
  let m ← buildInbound go ib
  let chain ← buildChain go ib
  return ⟨c.inbounds ++ [m], c.chains ++ chain.toList.map (·.1), c.rules ++ chain.toList.map fun x => (ib.tag, x.2)⟩

def directOutbound : Json := .object [("type", .str "direct"), ("tag", .str "direct")]

def Config.outbounds (c : Config) : List Json := directOutbound :: c.chains

def ruleBlock (rule : String × String) : Json :=
  .object [("inbound", .arr [.str rule.1]), ("outbound", .str rule.2)]

/-- The whole config. -/
def Config.json (c : Config) (spec : NodeSpec) : Json :=
  goMap [("log", some (.object [("level", .str (if spec.logLevel = "" then "info" else spec.logLevel)),
      ("timestamp", .bool true)])),
    ("experimental", some (.object [("clash_api", .object [ ("external_controller",
        .str (if spec.clashListen = "" then "127.0.0.1:9090" else spec.clashListen)),
      ("secret", .str spec.clashSecret)])])),
    ("inbounds", some (.arr c.inbounds)),
    ("outbounds", some (.arr c.outbounds)),
    ("route", if c.rules = [] then none else
      some (.object [("rules", .arr (c.rules.map ruleBlock)), ("final", .str "direct")]))]

def buildConfig (spec : NodeSpec) : Except String String := do
  let c ← buildLoop go (addInbound go) spec.inbounds [] ⟨[], [], []⟩
  return go.marshalIndent (c.json spec)

end Singbox

/-! ### Xray -/

namespace XrayCore

def client (type : String) (u : InboundUser) : Json :=
  let s := xrayClient type u
  goMap [("email", s.name.map .str), ("id", s.id.map .str), ("password", s.password.map .str),
    ("flow", s.flow.map .str), ("auth", s.auth.map .str)]

def buildSettings (type : String) (users : List InboundUser) : Json :=
  if type = "hysteria2" then
    .object [("version", .int 2), ("users", .arr (users.map (client type)))]
  else goMap [("clients", some (.arr (users.map (client type)))),
    ("decryption", if type = "vless" then some (.str "none") else none)]

/-- The certificate block of TLS settings. -/
def tlsSettings (t : Tls) : Json :=
  goMap [("serverName", text? t.serverName), ("certificates", if t.certPath = "" ∧ t.keyPath = "" then none else
      some (.arr [.object [("certificateFile", .str t.certPath), ("keyFile", .str t.keyPath)]]))]

def hysteriaStream (tls : Option Tls) : Json :=
  .object [("method", .str "hysteria"), ("hysteriaSettings", .object [("version", .int 2)]),
    ("security", .str "tls"), ("tlsSettings", (tls.map tlsSettings).getD (.obj []))]

/-- Aliases have the names of Xray. -/
def networkName (network : String) : String :=
  match network with
  | "mkcp" => "kcp"
  | "h2" => "http"
  | n => n

/-- `buildNetworkSettings` with its key. -/
def networkSettings (network : String) (t : Transport) : Option (String × Json) :=
  match network with
  | "ws" => some ("wsSettings", goMap [("path", text? t.path),
      ("headers", (nonempty t.host).map fun host => .object [("Host", .str host)])])
  | "grpc" => some ("grpcSettings", .object [("serviceName", .str t.serviceName)])
  | "http" => some ("httpSettings", goMap [("path", text? t.path),
      ("host", (nonempty t.host).map fun host => .arr [.str host])])
  | "httpupgrade" => some ("httpupgradeSettings", goMap [("path", text? t.path), ("host", text? t.host)])
  | "xhttp" => some ("xhttpSettings", goMap [("path", text? t.path), ("host", text? t.host), ("mode", text? t.mode)])
  | "kcp" => some ("kcpSettings", .object [("header", .object [("type", .str "none")])])
  | "quic" => some ("quicSettings", .object [("security", .str "none"), ("header", .object [("type", .str "none")])])
  | _ => none

/-- The transport part of `buildStream`. -/
def networkFields (transport : Option Transport) : List (String × Json) :=
  match transport.filter (·.network ≠ "") with
  | none => []
  | some t =>
    let network := networkName t.network
    if network = "tcp" then []
    else ("network", .str network) :: (networkSettings network t).toList

/-- The security part of `buildStream`. -/
def securityFields (tls : Option Tls) : List (String × Json) :=
  match tls.filter (·.enabled) with
  | none => []
  | some t => match t.reality with
    | some r => [("security", .str "reality"), ("realitySettings", .object [ ("show", .bool false),
        ("target", .str (r.handshakeServer ++ ":" ++ toString (handshakePort r.handshakePort))),
        ("privateKey", .str r.privateKey), ("shortIds", .arr (r.shortIds.map .str)),
        ("serverNames", .arr [.str t.serverName])])]
    | none => [("security", .str "tls"), ("tlsSettings", tlsSettings t)]

/-- `buildStream`; none where there is nothing to say. -/
def buildStream (ib : SpecInbound) : Option Json :=
  if ib.type = "hysteria2" then some (hysteriaStream ib.tls)
  else match networkFields ib.transport ++ securityFields ib.tls with
    | [] => none
    | fields => some (.object fields)

variable (go : Go)

/-- What Xray asks of a hysteria2 inbound. -/
def checkHysteria (ib : SpecInbound) : Except String Unit :=
  if ib.type ≠ "hysteria2" then .ok ()
  else match ib.tls.filter (·.enabled) with
    | none => .error ("xray hysteria2 inbound " ++ go.quote ib.tag ++ " requires TLS")
    | some t =>
      if t.reality.isSome then
        .error ("xray hysteria2 inbound " ++ go.quote ib.tag ++ " does not support REALITY")
      else .ok ()

def buildInbound (ib : SpecInbound) : Except String Json := do
  checkHysteria go ib
  let extra ← withPrefix ("inbound " ++ go.quote ib.tag ++ " extra_json: ") (readExtra ib.extraJson)
  let fields := [("tag", some (.str ib.tag)), ("listen", some (.str (orAll ib.listen))),
    ("port", some (.int ib.listenPort)),
    ("protocol", some (.str (if ib.type = "hysteria2" then "hysteria" else ib.type))),
    ("settings", some (buildSettings ib.type ib.users)), ("streamSettings", buildStream ib)]
  return goMap (fields ++ (without ["acme", "happ"] extra).map fun f => (f.1, some f.2))

/-- The body of the loop of `BuildConfig`. -/
def addInbound (inbounds : List Json) (ib : SpecInbound) : Except String (List Json) := do
  let m ← buildInbound go ib
  return inbounds ++ [m]

/-- `BuildConfig`; `api` is the address of the stats service, if it has a host and a port. -/
def buildConfig (api : Option String) (spec : NodeSpec) : Except String String := do
  let inbounds ← buildLoop go (addInbound go) spec.inbounds [] []
  return go.marshalIndent (goMap [ ("log", some (.object [("loglevel",
      .str (if spec.logLevel = "" then "warning" else spec.logLevel))])),
    ("stats", some (.obj [])),
    ("policy", some (.object [ ("levels", .object [("0", .object [("statsUserUplink", .bool true),
        ("statsUserDownlink", .bool true)])]),
      ("system", .object [("statsInboundUplink", .bool true), ("statsInboundDownlink", .bool true)])])),
    ("inbounds", some (.arr inbounds)),
    ("outbounds", some (.arr [.object [("protocol", .str "freedom"), ("tag", .str "direct")]])),
    ("api", api.map fun addr => .object [("tag", .str "api"), ("listen", .str addr),
      ("services", .arr [.str "StatsService"])])])

end XrayCore

/-! ### Hysteria -/

namespace Hysteria

def statsListen : String := "127.0.0.1:9091"

def statsSecret : String := "honey-hysteria-local"

/-- The address to listen on. -/
def address (ib : SpecInbound) : String :=
  let listen := orAll ib.listen
  if listen = "::" ∨ listen = "*" then ":" ++ toString ib.listenPort
  else listen ++ ":" ++ toString ib.listenPort

/-- `extraString`, of settings that were read. -/
def extraString (extra : List (String × Json)) (key : String) : Option String :=
  ((get? (.obj extra) key).bind asStr?).filter (trim · ≠ "")

/-- The config of an inbound before the extra settings; the message of the master has no timeout of its
    own, so it is the one of the extra settings or a minute. -/
def baseFields (ib : SpecInbound) (t : Tls) (extra : List (String × Json)) : List (String × Option Json) :=
  [("listen", some (.str (address ib))), ("auth", some (.object [("type", .str "userpass"), ("userpass",
      .object ((userpass ib.users).keys.map fun n => (n, .str ((userpass ib.users).get n))))])),
    ("udpIdleTimeout", some (.str ((extraString extra "udpIdleTimeout").getD "60s"))),
    ("trafficStats", some (.object [("listen", .str statsListen), ("secret", .str statsSecret)])),
    ("tls", some (.object [("cert", .str t.certPath), ("key", .str t.keyPath)])),
    ("bandwidth", if 0 < ib.upMbps ∨ 0 < ib.downMbps then
      some (.object [("up", .str (toString ib.upMbps ++ " mbps")),
        ("down", .str (toString ib.downMbps ++ " mbps"))]) else none)]

/-- The certificate of an inbound. -/
def certificate (go : Go) (ib : SpecInbound) : Except String Tls :=
  match ib.tls.filter fun t => t.enabled && t.certPath ≠ "" && t.keyPath ≠ "" with
  | some t => .ok t
  | none => .error ("hysteria2 inbound " ++ go.quote ib.tag ++ " requires TLS certificate and key")

/-- The config of the one inbound. -/
def inboundConfig (go : Go) (ib : SpecInbound) : Except String Json := do
  if ib.type ≠ "hysteria2" then .error "official hysteria core only supports hysteria2"
  else
    let t ← certificate go ib
    let extra ← withPrefix "hysteria extra_json: " (readExtra ib.extraJson)
    return goMap (baseFields ib t extra ++ (without ["acme", "happ", "hop_ports"] extra).map fun f => (f.1, some f.2))

def buildConfig (go : Go) (spec : NodeSpec) : Except String String :=
  match spec.inbounds with
  | [] => .ok ""
  | [ib] => (inboundConfig go ib).map go.marshalIndent
  | _ => .error "official hysteria server supports one hysteria2 inbound per node"

def validate (go : Go) (config : String) : Option String :=
  if trim config = "" then none
  else match unmarshalMap config with
    | .error e => some ("hysteria config is not valid JSON: " ++ e)
    | .ok fields => match get? (.obj fields) "listen" with
      | none => some "hysteria config has no listen"
      | some _ => match (get? (.obj fields) "udpIdleTimeout").bind asStr? with
        | none => none
        | some raw => match Duration.parse go.scaled raw with
          | some _ => none
          | none => some ("invalid Hysteria udpIdleTimeout " ++ go.quote raw)

end Hysteria

/-! ### What can be built -/

section

variable {go : Go} {β : Type} {body : β → SpecInbound → Except String β}

/-- With tags and types that pass, the loop is the fold of its body. -/
theorem buildLoop_eq_foldlM (go : Go) : ∀ {ibs : List SpecInbound} {seen : List String} (c : β),
    (∀ ib ∈ ibs, ib.tag ≠ "" ∧ ib.type ≠ "" ∧ ib.tag ∉ seen) → (ibs.map (·.tag)).Nodup →
    buildLoop go body ibs seen c = ibs.foldlM body c
  | [], _, _, _, _ => rfl
  | ib :: ibs, seen, c, h, hnd => by
    obtain ⟨⟨htag, htype, hseen⟩, h⟩ := forall_mem_cons.mp h
    obtain ⟨hib, hnd⟩ := nodup_cons.mp hnd
    rw [buildLoop, if_neg (not_or.mpr ⟨htag, htype⟩), if_neg hseen]
    congr 1
    funext c'
    refine buildLoop_eq_foldlM go c' (fun i hi => ?_) hnd
    refine ⟨(h i hi).1, (h i hi).2.1, fun hmem => ?_⟩
    rcases mem_cons.mp hmem with heq | hmem
    · exact hib (mem_map.mpr ⟨i, hi, heq⟩)
    · exact (h i hi).2.2 hmem

theorem foldlM_of_buildLoop : ∀ {ibs : List SpecInbound} {seen : List String} {c c' : β},
    buildLoop go body ibs seen c = .ok c' → ibs.foldlM body c = .ok c'
  | [], _, _, _, h => h
  | ib :: ibs, seen, c, c', h => by
    rw [buildLoop] at h
    split at h
    · cases h
    split at h
    · cases h
    · obtain ⟨mid, hmid, h⟩ := bind_eq_ok.mp h
      exact bind_eq_ok.mpr ⟨mid, hmid, foldlM_of_buildLoop h⟩

theorem foldlM_ok : ∀ {ibs : List SpecInbound} (c : β),
    (∀ ib ∈ ibs, ∀ c, ∃ c', body c ib = .ok c') → ∃ c', ibs.foldlM body c = .ok c'
  | [], c, _ => ⟨c, rfl⟩
  | ib :: ibs, c, h => by
    obtain ⟨hib, h⟩ := forall_mem_cons.mp h
    obtain ⟨mid, hmid⟩ := hib c
    obtain ⟨c', hc'⟩ := foldlM_ok mid h
    exact ⟨c', bind_eq_ok.mpr ⟨mid, hmid, hc'⟩⟩

theorem buildLoop_ok (go : Go) {ibs : List SpecInbound} (c : β)
    (htags : ∀ ib ∈ ibs, ib.tag ≠ "" ∧ ib.type ≠ "") (hnd : (ibs.map (·.tag)).Nodup)
    (hbody : ∀ ib ∈ ibs, ∀ c, ∃ c', body c ib = .ok c') : ∃ c', buildLoop go body ibs [] c = .ok c' := by
  obtain ⟨c', hc'⟩ := foldlM_ok c hbody
  refine ⟨c', ?_⟩
  rwa [buildLoop_eq_foldlM go c (fun ib hib => ?_) hnd]
  exact ⟨(htags ib hib).1, (htags ib hib).2, not_mem_nil⟩

variable {spec : NodeSpec}

theorem Singbox.buildConfig_ok (htags : ∀ ib ∈ spec.inbounds, ib.tag ≠ "" ∧ ib.type ≠ "")
    (hnd : (spec.inbounds.map (·.tag)).Nodup)
    (hparts : ∀ ib ∈ spec.inbounds, (∃ t, Singbox.buildTransport go ib.transport = .ok t) ∧
      (∃ fs, readExtra ib.extraJson = .ok fs) ∧ ∃ c, Singbox.buildChain go ib = .ok c) :
    ∃ cfg, Singbox.buildConfig go spec = .ok cfg := by
  have hbody : ∀ ib ∈ spec.inbounds, ∀ c, ∃ c', Singbox.addInbound go c ib = .ok c' := by
    intro ib hib c
    obtain ⟨⟨t, ht⟩, ⟨fs, hfs⟩, chain, hchain⟩ := hparts ib hib
    simp only [Singbox.addInbound, Singbox.buildInbound, ht, hfs, hchain]
    exact ⟨_, rfl⟩
  obtain ⟨c, hc⟩ := buildLoop_ok go ⟨[], [], []⟩ htags hnd hbody
  exact ⟨_, bind_eq_ok.mpr ⟨c, hc, rfl⟩⟩

theorem XrayCore.buildConfig_ok {api : Option String} (htags : ∀ ib ∈ spec.inbounds, ib.tag ≠ "" ∧ ib.type ≠ "")
    (hnd : (spec.inbounds.map (·.tag)).Nodup)
    (hparts : ∀ ib ∈ spec.inbounds, ib.type ≠ "hysteria2" ∧ ∃ fs, readExtra ib.extraJson = .ok fs) :
    ∃ cfg, XrayCore.buildConfig go api spec = .ok cfg := by
  have hbody : ∀ ib ∈ spec.inbounds, ∀ c, ∃ c', XrayCore.addInbound go c ib = .ok c' := by
    intro ib hib c
    obtain ⟨htype, fs, hfs⟩ := hparts ib hib
    simp only [XrayCore.addInbound, XrayCore.buildInbound, XrayCore.checkHysteria, if_pos htype, hfs]
    exact ⟨_, rfl⟩
  obtain ⟨c, hc⟩ := buildLoop_ok go [] htags hnd hbody
  exact ⟨_, bind_eq_ok.mpr ⟨c, hc, rfl⟩⟩

end

/-! ### What stands in a block -/

theorem goMap_cons (f : String × Option Json) (fs : List (String × Option Json)) (k : String) :
    (goMap (f :: fs)).get? k = ((goMap fs).get? k).or (if f.1 = k then f.2 else none) := by
  obtain ⟨key, _ | v⟩ := f
  · simp [goMap]
  · exact get?_object_cons _ _ k

theorem wellFormed_goMap {fs : List (String × Option Json)}
    (h : ∀ f ∈ fs, ∀ v ∈ f.2, wellFormed v) : wellFormed (goMap fs) := by
  refine wellFormed_object fun f hf => ?_
  obtain ⟨g, hg, hf⟩ := mem_filterMap.mp hf
  obtain ⟨v, hv, rfl⟩ := map_eq_some_iff.mp hf
  exact h g hg v hv

theorem get?_without {extra : List (String × Json)} (keys : List String) (k : String) :
    get? (.obj (without keys extra)) k = if k ∈ keys then none else get? (.obj extra) k := by
  rw [without, get?, find?_filter]
  split
  · rename_i hk
    rw [find?_eq_none.mpr]
    · rfl
    · intro f _ hf
      simp only [decide_eq_true_eq] at hf
      exact hf.1 (hf.2 ▸ hk)
  rename_i hk
  congr 2
  funext f
  by_cases hf : f.1 = k
  · simp [hf, hk]
  · simp [hf]

/-- The extra settings replace what was built, but for the keys that are left out. -/
theorem get?_merged {extra : List (String × Json)} (h : wellFormed (.obj extra))
    (fields : List (String × Option Json)) (keys : List String) (k : String) :
    (goMap (fields ++ (without keys extra).map fun f => (f.1, some f.2))).get? k =
      (if k ∈ keys then none else get? (.obj extra) k).or ((goMap fields).get? k) := by
  have hord : ((without keys extra).map (·.1)).Pairwise (· < ·) :=
    (wellFormed_obj.mp h).1.sublist (filter_sublist.map _)
  have hid : ((without keys extra).map fun f => (f.1, some f.2)).filterMap
      (fun f => f.2.map (f.1, ·)) = without keys extra := by
    simp
  rw [goMap, filterMap_append, get?_object_append, hid, object_of_ordered hord, get?_without]
  rfl

/-! ### The Hysteria server -/

namespace Hysteria

variable {go : Go} {ib : SpecInbound} {t : Tls} {extra : List (String × Json)}

theorem certificate_ok (htls : ib.tls = some t) (henabled : t.enabled) (hcert : t.certPath ≠ "")
    (hkey : t.keyPath ≠ "") : certificate go ib = .ok t := by
  simp [certificate, htls, Option.filter, henabled, hcert, hkey]

theorem wellFormed_baseFields : ∀ f ∈ baseFields ib t extra, ∀ v ∈ f.2, wellFormed v := by
  have hpass : wellFormed (.object ((userpass ib.users).keys.map fun n =>
      (n, .str ((userpass ib.users).get n)))) := by
    refine wellFormed_object fun f hf => ?_
    obtain ⟨n, -, rfl⟩ := mem_map.mp hf
    rfl
  have hobj : ∀ fs : List (String × Json), (∀ f ∈ fs, wellFormed f.2) → wellFormed (.object fs) :=
    fun fs => wellFormed_object
  simp only [baseFields, forall_mem_cons, not_mem_nil, mem_def, some.injEq,
    forall_eq', false_implies, implies_true, and_true]
  refine ⟨rfl, hobj _ ?_, rfl, hobj _ ?_, hobj _ ?_, ?_⟩
  · simpa [wellFormed] using hpass
  · simp [wellFormed]
  · simp [wellFormed]
  · intro v hv
    split at hv
    · rw [← some.inj hv]
      exact hobj _ (by simp [wellFormed])
    · cases hv

theorem accepts_iff {spec : NodeSpec} {timeout : String} (hspec : spec.inbounds = [ib])
    (htype : ib.type = "hysteria2") (hcert : certificate go ib = .ok t)
    (hread : readExtra ib.extraJson = .ok extra) (hwf : wellFormed (.obj extra))
    (htimeout : get? (.obj extra) "udpIdleTimeout" = some (.str timeout)) :
    (∃ cfg, buildConfig go spec = .ok cfg ∧ validate go cfg = none) ↔ (Duration.parse go.scaled timeout).isSome := by
  have hget := get?_merged hwf (baseFields ib t extra) ["acme", "happ", "hop_ports"]
  -- the config, and that it is read back
  obtain ⟨fields, hfields⟩ : ∃ fields, goMap (baseFields ib t extra ++
      (without ["acme", "happ", "hop_ports"] extra).map fun f => (f.1, some f.2)) = .obj fields :=
    ⟨_, rfl⟩
  have hconfig : inboundConfig go ib = .ok (.obj fields) := by
    rw [inboundConfig, if_neg (not_not.mpr htype), hcert, hread, ← hfields]
    rfl
  have hbuild : buildConfig go spec = .ok (go.marshalIndent (.obj fields)) := by
    rw [buildConfig, hspec]
    simp only [hconfig]
    rfl
  have hback : unmarshalMap (go.marshalIndent (.obj fields)) = .ok fields := by
    have hfwf : wellFormed (.obj fields) := by
      rw [← hfields]
      refine wellFormed_goMap fun f hf => ?_
      rcases mem_append.mp hf with hf | hf
      · exact wellFormed_baseFields f hf
      obtain ⟨g, hg, rfl⟩ := mem_map.mp hf
      intro v hv
      rw [← some.inj hv]
      exact wellFormedFields_iff.mp (wellFormed_obj.mp hwf).2 g (mem_filter.mp hg).1
    simp [unmarshalMap, go.unmarshal_marshalIndent _ hfwf]
  -- what it says
  have hlisten : (get? (.obj fields) "listen").isSome := by
    rw [← hfields, hget, baseFields, goMap_cons]
    simp
  have htime : get? (.obj fields) "udpIdleTimeout" = some (.str timeout) := by
    rw [← hfields, hget, htimeout]
    rfl
  obtain ⟨listen, hlisten⟩ := isSome_iff_exists.mp hlisten
  have hvalidate : validate go (go.marshalIndent (.obj fields)) = none ↔ (Duration.parse go.scaled timeout).isSome := by
    simp only [validate, if_neg (go.marshalIndent_obj fields), hback, hlisten, htime, bind_some, asStr?]
    cases Duration.parse go.scaled timeout with
    | none => simp
    | some d => simp
  rw [← hvalidate, hbuild]
  simp

end Hysteria

/-! ### A library -/

theorem trim_render_obj (fields : List (String × Json)) : trim (render (.obj fields)) ≠ "" := by
  intro h
  have hall := congrArg String.toList h
  simp only [trim, render, chars, String.toList_ofList, cons_append] at hall
  rw [dropWhile_cons_of_neg (by decide), String.toList_empty, reverse_eq_nil_iff, dropWhile_eq_nil_iff] at hall
  exact absurd (hall '\x7b' (by simp)) (by decide)

/-- The simplest library: it quotes nothing, takes every text for lower case and every URL for https, and
    writes JSON in its compact form. -/
def plainGo : Go where
  quote := id
  toLower := id
  isIP _ := false
  isHttps _ := true
  scaled f unit scale := f * unit / scale
  truncate _ := 0
  marshal := render
  marshalIndent := render
  unmarshal_marshal _ := unmarshal_render
  unmarshal_marshalIndent _ := unmarshal_render
  marshalIndent_obj := trim_render_obj

end Honey.Agent
