import Honey.Master.Db
import Honey.Schemes.Text

/-! The sing-box outbound that a client, or an entry inbound that chains to an exit, connects with
    (`subscription.rs`). -/

namespace Honey.Master
open Honey.Schemes Json

/-- `SubscriptionEndpoint`, as far as an outbound reads it. -/
structure SubscriptionEndpoint where
  (nodeName address tag kind : String)
  listenPort : ℤ
  flow : String
  tlsEnabled : Bool
  serverName : Option String
  reality : Bool
  realityPublicKey : Option String
  realityShortIds : List String
  network : String
  (transportPath transportHost transportServiceName utlsFingerprint : Option String)
  ech : Bool
  extra : Json

variable (e : SubscriptionEndpoint)

/-- `happ_value`: a text of `extra.happ`, if there is one. -/
def happValue (key : String) : Option String :=
  ((((e.extra.get? "happ").bind (·.get? key)).bind asStr?).map trim).filter (· ≠ "")

/-- `to_ascii_uppercase` of a character. -/
def asciiUpper (c : Char) : Char := if 'a' ≤ c ∧ c ≤ 'z' then Char.ofNat (c.toNat - 32) else c

/-- `country_flag`: two letters as regional indicator symbols. -/
def countryFlag (code : String) : Option String :=
  let code := (trim code).toList.map asciiUpper
  if code.length = 2 ∧ code.all (fun c => 'A' ≤ c ∧ c ≤ 'Z') then
    some (String.ofList (code.map fun c => Char.ofNat (0x1F1E6 + (c.toNat - 65))))
  else none

def clientLabelWithFallback (fallback : String) : String :=
  let name := (happValue e "name").getD fallback
  match (happValue e "country_code").bind countryFlag with
  | some flag => flag ++ " " ++ name
  | none => name

def clientLabelFromEndpoint : String :=
  clientLabelWithFallback e (e.nodeName ++ "-" ++ e.tag)

/-- `connect_host`: the front of a CDN where there is one. -/
def connectHost : String :=
  match e.transportHost with
  | some host =>
    if host ≠ "" ∧ e.network ∈ ["ws", "http", "h2", "httpupgrade", "xhttp"] then host else e.address
  | none => e.address

def hopPorts : Option String :=
  ((e.extra.get? "hop_ports").bind asStr?).filter (· ≠ "")

def ssPlugin : Option (String × String) :=
  (((e.extra.get? "plugin").bind asStr?).map trim).filter (· ≠ "") |>.map fun name =>
    (name, trim (((e.extra.get? "plugin_opts").bind asStr?).getD ""))

/-- `ports.replace('-', ":")`. -/
def colonRange (ports : String) : String :=
  String.ofList (ports.toList.map fun c => if c = '-' then ':' else c)

/-- Set a field if there is a value for it. -/
def Json.setOption (j : Json) (k : String) (v : Option Json) : Json :=
  match v with
  | some v => j.set k v
  | none => j

def singboxTransport : Except String (Option Json) :=
  match e.network with
  | "" | "tcp" => .ok none
  | "ws" => .ok (some ((object [("type", .str "ws")]).setOption "path" (e.transportPath.map .str)
      |>.setOption "headers" (e.transportHost.map fun host => .object [("Host", .str host)])))
  | "grpc" => .ok (some (.object [("type", .str "grpc"), ("service_name", .str (e.transportServiceName.getD ""))]))
  | "http" | "h2" =>
    .ok (some ((object [("type", .str "http")]).setOption "path" (e.transportPath.map .str)
      |>.setOption "host" (e.transportHost.map fun host => .arr [.str host])))
  | "httpupgrade" =>
    .ok (some ((object [("type", .str "httpupgrade")]).setOption "path"
      (e.transportPath.map .str) |>.setOption "host" (e.transportHost.map .str)))
  | "quic" => .ok (some (.object [("type", .str "quic")]))
  | "xhttp" | "mkcp" => .error ("sing-box client transport '" ++ e.network ++ "' is not supported")
  | other => .error ("unknown sing-box client transport '" ++ other ++ "'")

/-- The TLS block of an outbound. -/
def singboxTls : Json :=
  let tls := object [("enabled", .bool true), ("server_name", .str (e.serverName.getD e.address))]
  let tls := if e.reality then tls.set "reality" (.object [("enabled", .bool true),
      ("public_key", .ofOption e.realityPublicKey), ("short_id", .ofOption e.realityShortIds.head?)])
    else tls
  let fingerprint := (e.utlsFingerprint.filter (· ≠ "")).or (if e.reality then some "qq" else none)
  let tls := tls.setOption "utls" (fingerprint.map fun fp =>
    .object [("enabled", .bool true), ("fingerprint", .str fp)])
  if e.ech then tls.set "ech" (.object [("enabled", .bool true)]) else tls

/-- The part of an outbound that depends on its protocol. -/
def singboxProtocol (uuid username password : String) (e : SubscriptionEndpoint) : Except String Json :=
  let base : List (String × Json) := [("type", .str e.kind), ("tag", .str (clientLabelFromEndpoint e)),
    ("server", .str (connectHost e)), ("server_port", .int e.listenPort)]
  match e.kind with
  | "vless" => .ok (.object (base ++ [("uuid", .str uuid), ("flow", .str e.flow)]))
  | "vmess" => .ok (.object (base ++ [("uuid", .str uuid), ("security", .str "auto")]))
  | "hysteria2" => .ok (.object (base ++ [("password", .str (username ++ ":" ++ password))]))
  | "trojan" => .ok (.object (base ++ [("password", .str password)]))
  | "tuic" => .ok (.object (base ++ [("uuid", .str uuid), ("password", .str password),
      ("congestion_control", .str "bbr")]))
  | "shadowsocks" => match (e.extra.get? "method").bind asStr? with
    | none => .error "shadowsocks extra.method is required"
    | some method =>
      let ss := object (base ++ [("method", .str method), ("password", .str password)])
      match ssPlugin e with
      | some (name, opts) => .ok ((ss.set "plugin" (.str name)).set "plugin_opts" (.str opts))
      | none => .ok ss
  | kind => .error ("sing-box outbound for '" ++ kind ++ "' is not supported")

def singboxOutbound (uuid username password : String) (e : SubscriptionEndpoint) : Except String Json := do
  let outbound ← singboxProtocol uuid username password e
  let outbound := if e.kind = "hysteria2" then
      outbound.setOption "server_ports" ((hopPorts e).map fun ports => .arr [.str (colonRange ports)])
    else outbound
  let outbound := if e.tlsEnabled then outbound.set "tls" (singboxTls e) else outbound
  return outbound.setOption "transport" (← singboxTransport e)

end Honey.Master
