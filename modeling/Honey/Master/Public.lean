import Honey.Master.Guard

/-! The public subscription routes and what they show of a user who is disabled, expired or over quota.

        token --> load_subscription --> 410 for a suppressed user, else user + endpoints
        token --> load_subscription_page --> user + endpoints, none for a suppressed user
        alias --> 410 or a redirect to the permanent link

    Whatever the route, the format and the headers, the answer for such a user is a function of columns
    that hold no secret (`suppressed_tells_nothing`). -/

namespace Honey.Master
open Honey.Schemes Json Option UserDb

/-! ### What the handlers read -/

/-- A row of `subscription_endpoints`. -/
structure PublicEndpoint extends SubscriptionEndpoint where
  inboundId : Uuid
  core : String
  transportMode : Option String
  extraAddresses : List String

structure EndpointLink where
  inboundId : Uuid
  (node tag protocol core address : String)
  port : ℤ
  (uri error : Option String)

/-- The tables about users, and `app_settings` or the error of reading it. -/
structure Site where
  users : UserDb
  settings : Except Refusal (List (String × String))

/-- Formatting of third parties, and the queries and documents that are made for active users only. -/
structure Documents where
  template : String
  (date rfc3339 bytes humanBytes : ℤ → String)
  base64 : String → String
  qrSvg : String → Option String
  parseJson : String → Option Json
  prettyJson : Json → String
  endpoints : Site → Uuid → Except Refusal (List PublicEndpoint)
  routingProfile : Site → Uuid → Except Refusal (Option Json)
  services : Site → Uuid → Except Refusal (List (NodeService × String))
  wgInterfaces : Site → Uuid → Except Refusal (List WgInterface)
  wgConfig : Site → Subscriber → Uuid → Except Refusal (String × String)
  endpointUri : Subscriber → PublicEndpoint → Option String
  singboxConfig : Subscriber → List PublicEndpoint → Bool → Option Json → Json
  clashConfig : Subscriber → List PublicEndpoint → Option Json → String

/-- The headers that a handler reads; `client` is the address the guard counts. -/
structure PublicHead where
  (userAgent accept host forwardedProto : Option String)
  client : String

/-- `?mb=` of the speed test. -/
inductive SpeedQuery where
  | absent
  | bad
  | nan
  | mb (size : ℚ)

inductive PublicBody where
  | text (s : String)
  | json (j : Json)
  | bytes (b : List UInt8)

structure PublicResponse where
  status : ℕ
  headers : List (String × String)
  body : PublicBody

def Refusal.gone (message : String) : Refusal := ⟨410, message, "M1206"⟩

/-- A value is blank if it is not there or only white space. -/
def isBlank (v : Option String) : Bool := v.all (trim · = "")

/-! ### Loading -/

/-- A default of the settings in the place of a blank value. -/
def orDefault (settings : List (String × String)) (key : String) (value : Option String) : Option String :=
  if isBlank value ∧ ¬ isBlank (settings.lookup key) then settings.lookup key else value

def applySubscriptionDefaults (settings : List (String × String)) (a : Subscriber) : Subscriber :=
  let p := a.profile
  { a with profile := { p with
      subscriptionTitle := orDefault settings "default_subscription_title" p.subscriptionTitle
      subscriptionDescription :=
        orDefault settings "default_subscription_description" p.subscriptionDescription
      subscriptionGroup := orDefault settings "default_subscription_group" p.subscriptionGroup
      subscriptionTrafficPolicy :=
        if p.subscriptionTrafficPolicy = "inherit" then
          ((settings.lookup "subscription_traffic_policy").filter (· ∈ ["auto", "always", "never"])).getD "auto"
        else p.subscriptionTrafficPolicy } }

/-- The name of the `i`-th further address, in the texts for Happ too. -/
def altExtra (i : ℕ) (extra : Json) : Json :=
  match extra.get? "happ" with
  | none => extra
  | some happ => match (happ.get? "name").bind asStr? with
    | none => extra
    | some base => extra.set "happ" (happ.set "name" (.str s!"{base} · alt {i + 1}"))

def expandEndpoints (endpoints : List PublicEndpoint) : List PublicEndpoint :=
  endpoints.flatMap fun e =>
    if e.transportHost.any (· ≠ "") then [e]
    else e :: e.extraAddresses.mapIdx fun i addr =>
      { e with address := addr, tag := s!"{e.tag}-alt{i + 1}", extra := altExtra i e.extra }

section

variable (d : Documents) (g : Gate) (env : Env) (now : ℤ) (site : Site)

def found (a : Option Subscriber) : Except Refusal Subscriber :=
  match a with
  | some a => .ok a
  | none => .error (.notFound "subscription not found")

variable (token : Uuid)

def loadSubscription : Except Refusal (Subscriber × List PublicEndpoint) := do
  let a ← found (← getUserBySubscriptionToken g env site.users token)
  let a := applySubscriptionDefaults (← site.settings) a
  match a.user.suppressedReason now with
  | some reason => throw (.gone s!"subscription is {reason}")
  | none => return (a, expandEndpoints (← d.endpoints site a.user.id))

def loadSubscriptionPage : Except Refusal (Subscriber × List PublicEndpoint) := do
  let a ← found (← getUserBySubscriptionToken g env site.users token)
  let a := applySubscriptionDefaults (← site.settings) a
  if a.user.isActive now then return (a, ← d.endpoints site a.user.id) else return (a, [])

/-! ### Client profiles -/

inductive SubFormat where | v2ray | happ | clash | singbox
  deriving DecidableEq, Repr

def hasAny (text : String) (keys : List String) : Bool := keys.any fun k => k.toList <:+: text.toList

def formatForUa (ua : String) : Option SubFormat :=
  let ua := ua.toLower
  if hasAny ua ["clash", "mihomo", "stash", "flclash", "clashx"] then some .clash
  else if hasAny ua ["sing-box", "singbox", "sfa", "sfi", "sft", "hiddify"] then some .singbox
  else if hasAny ua ["happ"] then some .happ
  else if hasAny ua ["v2ray", "nekobox", "nekoray", "streisand", "shadowrocket", "v2raytun", "loon",
      "surge", "quantumult", "sagernet", "matsuri", "throne", "karing", "v2box"] then some .v2ray
  else none

def clientProfileForUa (ua : String) : Option String :=
  let ua := ua.toLower
  if hasAny ua ["happ"] then some (if hasAny ua ["android"] then "happ-android" else "happ-desktop")
  else if hasAny ua ["karing"] then some "karing"
  else (formatForUa ua).map fun _ => "generic"

def clientProfileNames : List String := ["happ-android", "happ-desktop", "karing", "generic"]

def defaultClientProfiles : Json :=
  .object (clientProfileNames.map fun name =>
    (name, .object [("xhttp_mode", .str "packet-up"), ("fingerprint", .str "chrome")]))

variable (settings : List (String × String))

def clientProfileOverrides (client : String) : Except Refusal (String × String) :=
  if client ∉ clientProfileNames then .error (.badRequest "unknown subscription client profile")
  else
    let profiles := ((settings.lookup "subscription_client_profiles").bind d.parseJson).getD
      defaultClientProfiles
    match profiles.get? client with
    | some (.obj fs) =>
      .ok ((((obj fs).get? "xhttp_mode").bind asStr?).getD "packet-up",
        (((obj fs).get? "fingerprint").bind asStr?).getD "chrome")
    | _ => .error (.badRequest "client profile is not configured")

def applyClientProfile (endpoints : List PublicEndpoint) (profile : String × String) : List PublicEndpoint :=
  endpoints.map fun e =>
    if e.network = "xhttp" then { e with transportMode := some profile.1, utlsFingerprint := some profile.2 }
    else e

/-! ### Documents and headers -/

variable (a : Subscriber)

def endpointLinks (endpoints : List PublicEndpoint) : List EndpointLink :=
  endpoints.map fun e =>
    let uri := d.endpointUri a e
    ⟨e.inboundId, e.nodeName, clientLabelFromEndpoint e.toSubscriptionEndpoint, e.kind, e.core, e.address,
      e.listenPort, uri,
      if uri.isSome then none else some "unsupported or invalid endpoint configuration"⟩

def joinedLinks (endpoints : List PublicEndpoint) : String :=
  "\n".intercalate ((endpointLinks d a endpoints).filterMap (·.uri))

/-- `v2ray_document`, `happ_v2ray_document`. -/
def v2rayDocument (endpoints : List PublicEndpoint) : String :=
  d.base64 (joinedLinks d a endpoints)

def profileTitle : String :=
  if isBlank a.profile.subscriptionTitle then a.user.username
  else a.profile.subscriptionTitle.getD a.user.username

def userinfoHeader : String :=
  let expire := (a.user.expiresAt.map (· / 1000000)).getD 0
  s!"upload=0; download={max a.user.usedTrafficBytes 0}; total={max a.user.trafficLimitBytes 0}; expire={expire}"

/-- Whole days, none if negative. -/
def wholeDays (span : ℤ) : ℤ := max (span.tdiv 86400000000) 0

/-- The placeholders of an announcement. -/
def announceValues : List (String × String) :=
  let elapsed := toString (wholeDays (now - a.profile.createdAt))
  let left := (a.user.expiresAt.map fun at' => toString (wholeDays (at' - now))).getD "∞"
  let spent := d.humanBytes (max a.user.usedTrafficBytes 0)
  [("\x7bUSERNAME\x7d", a.user.username), ("\x7b\x7bUSERNAME\x7d\x7d", a.user.username),
    ("\x7bDAYS_ELAPSED\x7d", elapsed), ("\x7bdays_elapsed\x7d", elapsed),
    ("\x7bDAYS ELAPSED\x7d", elapsed), ("\x7b\x7bDAYS_ELAPSED\x7d\x7d", elapsed),
    ("\x7bTRAFFIC_SPENT\x7d", spent), ("\x7btraffic_spent\x7d", spent),
    ("\x7bTRAFFIC SPENT\x7d", spent), ("\x7b\x7bTRAFFIC_SPENT\x7d\x7d", spent),
    ("\x7bDAYS_LEFT\x7d", left), ("\x7bdays_left\x7d", left),
    ("\x7bDAYS LEFT\x7d", left), ("\x7b\x7bDAYS_LEFT\x7d\x7d", left)]

def announceHeader : Option String :=
  if isBlank a.profile.subscriptionDescription then none
  else
    let text := (announceValues d now a).foldl (fun text v => text.replace v.1 v.2)
      (a.profile.subscriptionDescription.getD "")
    let text := String.ofList (text.toList.take 200)
    if trim text = "" then none else some ("base64:" ++ d.base64 text)

/-- `HeaderValue::from_str`: visible ASCII and tabs. -/
def headerValue (v : String) : Option String :=
  if v.toList.all fun c => (32 ≤ c.toNat && c.toNat < 127) || c = '\t' then some v else none

/-- `HeaderMap::insert`. -/
def setHeader (headers : List (String × String)) (h : String × String) : List (String × String) :=
  headers.filter (·.1 ≠ h.1) ++ [h]

def setValid (name : String) (value : Option String) (headers : List (String × String)) : List (String × String) :=
  match value.bind headerValue with
  | some v => setHeader headers (name, v)
  | none => headers

def subscriptionTrafficVisible (policy : String) (limit : ℤ) : Bool :=
  policy = "always" || (policy ≠ "never" && 0 < limit)

/-- `str::parse::<i64>`. -/
def parseI64 (s : String) : Option ℤ :=
  let value := match s.toList with
    | '-' :: digits => (decimal digits).map fun n => -(n : ℤ)
    | '+' :: digits => (decimal digits).map Int.ofNat
    | digits => (decimal digits).map Int.ofNat
  value.filter fun n => InI64 n

def settingInt (key : String) (default : ℤ) : ℤ :=
  ((settings.lookup key).bind parseI64).getD default

def updateInterval : ℤ :=
  settingInt settings "profile_update_interval_hours" 1

/-- `clamp(1, 168)`. -/
def clampHours (hours : ℤ) : ℤ := max 1 (min hours 168)

/-- `sub_headers`, but for the content type. -/
def subHeaders (settings : List (String × String)) : List (String × String) :=
  let visible := subscriptionTrafficVisible a.profile.subscriptionTrafficPolicy a.user.trafficLimitBytes
  let headers := if visible then [("subscription-userinfo", userinfoHeader a)] else []
  let title := String.ofList ((profileTitle a).toList.take 25)
  let group := if isBlank a.profile.subscriptionGroup then none
    else a.profile.subscriptionGroup.map fun v => "base64:" ++ d.base64 v
  let support := settings.lookup "subscription_support_url"
  setValid "support-url" (if isBlank support then none else support) (setValid "profile-group" group
      (setValid "announce" (announceHeader d now a) (setValid "profile-title" (some ("base64:" ++ d.base64 title))
          (setValid "profile-update-interval" (some (toString (clampHours (updateInterval settings)))) headers))))

def plainText : String × String := ("content-type", "text/plain; charset=utf-8")

def subscriptionHeaders : Except Refusal (List (String × String)) := do
  return plainText :: subHeaders d now a (← site.settings)

def tailoredResponse (fmt : SubFormat) (a : Subscriber) (endpoints : List PublicEndpoint) :
    Except Refusal PublicResponse := do
  let (contentType, body) ← match fmt with
    | .v2ray | .happ => pure ("text/plain; charset=utf-8", v2rayDocument d a endpoints)
    | .singbox => do
        let profile ← d.routingProfile site a.user.id
        pure ("application/json; charset=utf-8", d.prettyJson (d.singboxConfig a endpoints false profile))
    | .clash => do
        let profile ← d.routingProfile site a.user.id
        pure ("text/yaml; charset=utf-8", d.clashConfig a endpoints profile)
  let presentation := (← subscriptionHeaders d now site a).filter (·.1 ≠ "content-type")
  return ⟨200, ("content-type", contentType) :: presentation ++ [("cache-control", "no-store")], .text body⟩

/-! ### The dashboard -/

def escapeHtml (s : String) : String :=
  String.join (s.toList.map fun c => match c with
    | '&' => "&amp;"
    | '<' => "&lt;"
    | '>' => "&gt;"
    | '"' => "&quot;"
    | '\'' => "&#39;"
    | c => String.singleton c)

def metric (label value : String) (code : Bool) : String :=
  let tag := if code then "code" else "b"
  let l := escapeHtml label
  let v := escapeHtml value
  "<div class=\"metric\"><small data-i18n=\"" ++ l ++ "\">" ++ l ++ "</small><" ++ tag ++ " title=\"" ++ v ++
    "\">" ++ v ++ "</" ++ tag ++ "></div>"

/-- `endpoint`. -/
def endpointRow (link : EndpointLink) : String :=
  let title := escapeHtml s!"{link.node} / {link.tag}"
  let protocol := escapeHtml link.protocol
  match link.uri with
  | some uri =>
    "<article class=\"endpoint\"><div class=\"protocol\">" ++ protocol ++
      "</div><div class=\"endpoint-main\"><b>" ++ title ++ "</b><small>" ++ escapeHtml link.address ++ ":" ++
      toString link.port ++ " · " ++ escapeHtml link.core ++
      "</small></div><div class=\"endpoint-actions\"><button data-copy=\"" ++ escapeHtml uri ++
      "\" data-i18n=\"copy\">copy</button><a href=\"/sub/" ++ token.text ++ "/qr/" ++ link.inboundId.text ++
      "\" target=\"_blank\" rel=\"noopener\" data-i18n=\"qr\">qr</a></div></article>"
  | none =>
    "<article class=\"endpoint error\"><div class=\"protocol\">" ++ protocol ++
      "</div><div class=\"endpoint-main\"><b>" ++ title ++ "</b><small>" ++
      escapeHtml (link.error.getD "link unavailable") ++ "</small></div></article>"

/-- `saturating_mul` and the share of the limit. -/
def trafficPercent (total used : ℤ) : ℤ :=
  if total = 0 then 0 else max 0 (min (min (used * 100) (2 ^ 63 - 1) / total) 100)

/-- The values of the template, in the order in which they are filled in. -/
def pageValues (token : Uuid) (links : List EndpointLink) (fallback : Option String)
    (interval : ℤ) : List (String × String) :=
  let status := (a.user.suppressedReason now).getD "active"
  let total := max a.user.trafficLimitBytes 0
  let used := max a.user.usedTrafficBytes 0
  let remaining := if total = 0 then "no traffic limit" else d.bytes (total - used) ++ " remaining"
  let traffic := d.bytes used ++ " / " ++ if total = 0 then "unlimited" else d.bytes total
  let metrics := metric "subscription id" a.user.id.text true ++ metric "started" (d.date a.profile.createdAt) false ++
    metric "expires" ((a.user.expiresAt.map d.date).getD "never") false ++
    metric "access" s!"{links.length} endpoints" false
  let rows := if links.isEmpty then
      "<div class=\"empty\" data-i18n=\"No accessible endpoints are available yet.\">" ++
        "No accessible endpoints are available yet.</div>"
    else String.join (links.map (endpointRow token))
  let base := "/sub/" ++ token.text
  [("SUBSCRIPTION_BASE_URL", escapeHtml (fallback.getD "")),
    ("UPDATE_INTERVAL_HOURS", toString (clampHours interval)), ("TITLE", escapeHtml (profileTitle a)),
    ("USERNAME", escapeHtml (profileTitle a)), ("STATUS_CLASS", if status = "active" then "on" else "off"),
    ("STATUS", escapeHtml status), ("METRICS", metrics), ("TRAFFIC_TEXT", escapeHtml traffic),
    ("TRAFFIC_PERCENT", toString (trafficPercent total used)), ("TRAFFIC_USED", escapeHtml (d.bytes used)),
    ("TRAFFIC_REMAINING", escapeHtml remaining), ("QR_URL", base ++ "/qr"),
    ("V2RAY_URL", base ++ "/v2ray"), ("SINGBOX_URL", base ++ "/sing-box"),
    ("SINGBOX_TUN_URL", base ++ "/sing-box-tun"), ("CLASH_URL", base ++ "/clash"),
    ("LINKS_URL", base ++ "/links"), ("ENDPOINT_COUNT", toString links.length), ("ENDPOINTS", rows)]

/-- `render`. -/
def renderPage (token : Uuid) (links : List EndpointLink) (fallback : Option String) (interval : ℤ) : String :=
  (pageValues d now a token links fallback interval).foldl
    (fun page v => page.replace ("\x7b\x7b" ++ v.1 ++ "\x7d\x7d") v.2) d.template

def htmlResponse (body : String) : PublicResponse :=
  ⟨200, [("content-type", "text/html; charset=utf-8"), ("cache-control", "no-store"),
    ("content-security-policy", "default-src 'self'; script-src 'self'; style-src 'self'; " ++
      "font-src 'self'; img-src 'self' data:; connect-src 'self'; frame-ancestors 'none'; " ++
      "base-uri 'none'; form-action 'none'")], .text body⟩

def svgResponse (extra : List (String × String)) (value : String) : Except Refusal PublicResponse :=
  match d.qrSvg value with
  | some svg => .ok ⟨200, ("content-type", "image/svg+xml; charset=utf-8") :: extra, .text svg⟩
  | none => .error .internal

/-! ### The handlers -/

def jsonResponse (j : Json) : PublicResponse := ⟨200, [("content-type", "application/json")], .json j⟩

/-- The format for a client, with its profile. -/
def clientResponse (fmt : SubFormat) (client : String) (a : Subscriber) (endpoints : List PublicEndpoint) :
    Except Refusal PublicResponse := do
  let profile ← clientProfileOverrides d (← site.settings) client
  tailoredResponse d now site fmt a (applyClientProfile endpoints profile)

/-- `SubscriptionDocument`. -/
def documentJson (links : List EndpointLink) (config : Json) : Json :=
  .obj [("id", .str a.user.id.text), ("username", .str a.user.username),
    ("status", .str ((a.user.suppressedReason now).getD "active")),
    ("created_at", .str (d.rfc3339 a.profile.createdAt)),
    ("expires_at", .ofOption (a.user.expiresAt.map d.rfc3339)),
    ("traffic_limit_bytes", .int a.user.trafficLimitBytes),
    ("used_traffic_bytes", .int a.user.usedTrafficBytes),
    ("links", .arr (links.map fun l => .obj [("inbound_id", .str l.inboundId.text), ("node", .str l.node),
      ("tag", .str l.tag), ("protocol", .str l.protocol), ("core", .str l.core), ("address", .str l.address),
      ("port", .int l.port), ("uri", .ofOption l.uri), ("error", .ofOption l.error)])),
    ("singbox_config", config)]

def subscriptionDocument (head : PublicHead) : Except Refusal PublicResponse :=
  match head.userAgent.bind formatForUa with
  | some fmt => do
      let (a, raw) ← loadSubscription d g env now site token
      clientResponse d now site fmt ((head.userAgent.bind clientProfileForUa).getD "generic") a raw
  | none =>
    if head.accept.any (hasAny · ["application/json"]) then do
      let (a, endpoints) ← loadSubscription d g env now site token
      let profile ← d.routingProfile site a.user.id
      return jsonResponse (documentJson d now a (endpointLinks d a endpoints)
        (d.singboxConfig a endpoints false profile))
    else do
      let (a, endpoints) ← loadSubscriptionPage d g env now site token
      let settings ← site.settings
      let base := settings.lookup "subscription_fallback_base_url"
      return htmlResponse (renderPage d now a token (endpointLinks d a endpoints)
        (if isBlank base then none else base) (updateInterval settings))

/-- The origin of the links in a QR code. -/
def publicOrigin (head : PublicHead) : String :=
  let base := (settings.lookup "subscription_fallback_base_url").map fun v =>
    String.ofList ((trim v).toList.reverse.dropWhile (· = '/')).reverse
  match base.filter (· ≠ "") with
  | some base => base
  | none => head.forwardedProto.getD "https" ++ "://" ++ head.host.getD ""

def subscriptionQrAll (head : PublicHead) : Except Refusal PublicResponse := do
  let a ← found (← getUserBySubscriptionToken g env site.users token)
  let path := match a.profile.subscriptionAlias with
    | some name => "/s/" ++ name
    | none => "/sub/" ++ token.text
  svgResponse d [("cache-control", "no-store")] (publicOrigin (← site.settings) head ++ path)

/-- The link of a service for its clients. -/
def serviceLink (s : NodeService) (addr : String) : Option Json :=
  let secret := s.secret.getD ""
  let link := match s.kind with
    | "mtproto" => some s!"tg://proxy?server={addr}&port={s.listenPort}&secret={secret}"
    | "naive" =>
      let user := ((s.config.get? "username").bind asStr?).getD "user"
      let host := (((s.config.get? "domain").bind asStr?).filter (· ≠ "")).getD addr
      some s!"naive+https://{user}:{secret}@{host}:{s.listenPort}?padding=true#{s.name}"
    | _ => none
  link.map fun l => .object [("kind", .str s.kind), ("name", .str s.name), ("link", .str l)]

/-- The length of the payload of the speed test. -/
def SpeedQuery.length : SpeedQuery → ℕ
  | .absent => 10 * 1024 * 1024
  | .bad | .nan => 0
  | .mb size => ⌊max 1 (min size 50) * (1024 * 1024)⌋.toNat

/-- A request under `/sub/:token`. -/
def servePage (head : PublicHead) (query : SpeedQuery) : Page → Except Refusal PublicResponse
  | .document => subscriptionDocument d g env now site token head
  | .links => do
      let (a, raw) ← loadSubscription d g env now site token
      let profile ← clientProfileOverrides d (← site.settings) "generic"
      let text := joinedLinks d a (applyClientProfile raw profile) ++ "\n"
      return ⟨200, ← subscriptionHeaders d now site a, .text text⟩
  | .v2ray => do
      let (a, raw) ← loadSubscription d g env now site token
      let profile ← clientProfileOverrides d (← site.settings) "generic"
      let body := v2rayDocument d a (applyClientProfile raw profile)
      return ⟨200, ← subscriptionHeaders d now site a, .text body⟩
  | .clientProfile client => do
      let (a, raw) ← loadSubscription d g env now site token
      clientResponse d now site .v2ray client a raw
  | .singbox => do
      let (a, endpoints) ← loadSubscription d g env now site token
      return jsonResponse (d.singboxConfig a endpoints false (← d.routingProfile site a.user.id))
  | .singboxTun => do
      let (a, endpoints) ← loadSubscription d g env now site token
      return jsonResponse (d.singboxConfig a endpoints true (← d.routingProfile site a.user.id))
  | .clash => do
      let (a, endpoints) ← loadSubscription d g env now site token
      let profile ← d.routingProfile site a.user.id
      let headers := (← subscriptionHeaders d now site a).filter (·.1 ≠ "content-type")
      return ⟨200, ("content-type", "text/yaml; charset=utf-8") :: headers, .text (d.clashConfig a endpoints profile)⟩
  | .qrAll => subscriptionQrAll d g env site token head
  | .qr inbound => do
      let (a, endpoints) ← loadSubscription d g env now site token
      match ((endpointLinks d a endpoints).find? (·.inboundId = inbound)).bind (·.uri) with
      | some uri => svgResponse d [("cache-control", "no-store")] uri
      | none => throw (.notFound "subscription endpoint not found")
  | .speedtest => do
      if query matches .bad then throw ⟨400, "Failed to deserialize query string", ""⟩
      let _ ← loadSubscription d g env now site token
      return ⟨200, [("content-type", "application/octet-stream"), ("cache-control", "no-store")],
        .bytes ((List.range query.length).map fun i => UInt8.ofNat (i % 251))⟩
  | .services => do
      let (a, _) ← loadSubscription d g env now site token
      let services ← d.services site a.user.id
      return jsonResponse (.arr (services.filterMap fun s => serviceLink s.1 s.2))
  | .wgList => do
      let (a, _) ← loadSubscription d g env now site token
      let ifaces ← d.wgInterfaces site a.user.id
      return jsonResponse (.arr (ifaces.map fun i =>
        .object [("id", .str i.id.text), ("name", .str i.name), ("amnezia", .bool i.amnezia)]))
  | .wgConfig iface => do
      let (a, _) ← loadSubscription d g env now site token
      let (conf, name) ← d.wgConfig site a iface
      return ⟨200, [plainText, ("content-disposition", s!"attachment; filename=\"{name}.conf\"")], .text conf⟩
  | .wgQr iface => do
      let (a, _) ← loadSubscription d g env now site token
      let (conf, _) ← d.wgConfig site a iface
      svgResponse d [] conf

def subscriptionByAlias (name : String) (head : PublicHead) : Except Refusal PublicResponse := do
  let a ← found (← getUserByAlias g env site.users name)
  let a := applySubscriptionDefaults (← site.settings) a
  match head.userAgent.bind formatForUa with
  | some fmt => match a.user.suppressedReason now with
    | some reason => throw (.gone s!"subscription is {reason}")
    | none => do
        let raw := expandEndpoints (← d.endpoints site a.user.id)
        clientResponse d now site fmt ((head.userAgent.bind clientProfileForUa).getD "generic") a raw
  | none => return ⟨303, [("location", "/sub/" ++ a.user.id.text)], .text ""⟩

def SubCall.serve (head : PublicHead) (query : SpeedQuery) : SubCall → Except Refusal PublicResponse
  | .token t page => servePage d g env now site t head query page
  | .named name => subscriptionByAlias d g env now site name head

/-- `apply_subscription_security_headers`. -/
def securityHeaders : List (String × String) :=
  [("cache-control", "private, no-store, max-age=0"), ("pragma", "no-cache"),
    ("referrer-policy", "no-referrer"), ("x-content-type-options", "nosniff")]

/-- What the client of a public route gets. -/
inductive PublicAnswer where
  | limited (retryAfter : ℕ)
  | refused (r : Refusal) (headers : List (String × String))
  | ok (r : PublicResponse)

/-- `require_subscription_access` around the handler; `limiter` is the state of the limiter under the
    configuration it reads from the settings. -/
def respond (specHash : String → String)
    (limiter : Except Refusal (List (String × String)) → String → Option ℕ) (path : String)
    (head : PublicHead) (query : SpeedQuery) (call : SubCall) : PublicAnswer :=
  let subject := guardSubject g env specHash false site.users path
  match limiter site.settings (specHash head.client ++ ":" ++ specHash subject) with
  | some retryAfter => .limited retryAfter
  | none => match call.serve d g env now site head query with
    | .error r => .refused r securityHeaders
    | .ok r => .ok { r with headers := securityHeaders.foldl setHeader r.headers }

end

/-! ### A suppressed user -/

/-- The user without credentials. -/
def User.bare (u : User) : User := { u with uuid := "", password := "" }

def Subscriber.bare (a : Subscriber) : Subscriber := { a with user := a.user.bare }

def WgInterface.bare (i : WgInterface) : WgInterface := { i with privateKey := "" }

def WgPeer.bare (p : WgPeer) : WgPeer := { p with privateKey := "", publicKey := "" }

def NodeService.bare (s : NodeService) : NodeService := { s with secret := none }

/-- Two databases that differ in user uuids and passwords, WireGuard keys, service secrets and inbounds only. -/
structure SameButSecrets (s t : Site) : Prop where
  settings : t.settings = s.settings
  profiles : t.users.profiles = s.users.profiles
  subscriptions : t.users.subscriptions = s.users.subscriptions
  users : t.users.db.users.rows.map User.bare = s.users.db.users.rows.map User.bare
  nodes : t.users.db.nodes = s.users.db.nodes
  nodeGroupMembers : t.users.db.nodeGroupMembers = s.users.db.nodeGroupMembers
  userGroupAccess : t.users.db.userGroupAccess = s.users.db.userGroupAccess
  traffic : t.users.db.traffic = s.users.db.traffic
  hourly : t.users.db.hourly = s.users.db.hourly
  wgInterfaces : t.users.db.wgInterfaces.rows.map WgInterface.bare = s.users.db.wgInterfaces.rows.map WgInterface.bare
  wgPeers : t.users.db.wgPeers.rows.map WgPeer.bare = s.users.db.wgPeers.rows.map WgPeer.bare
  services : t.users.db.services.rows.map NodeService.bare = s.users.db.services.rows.map NodeService.bare

section

variable {d : Documents} {g : Gate} {env : Env} {now : ℤ} {s t : Site} {a b : Subscriber}

/-- What the links of a suppressed user answer. -/
def suppressedAnswer (d : Documents) (now : ℤ) (settings : Except Refusal (List (String × String)))
    (head : PublicHead) (query : SpeedQuery) (a : Subscriber) :
    SubCall → Except Refusal PublicResponse
  | .token token .document =>
    if (head.userAgent.bind formatForUa).isSome ∨ head.accept.any (hasAny · ["application/json"]) then
      gone
    else settings.bind fun values =>
      let base := values.lookup "subscription_fallback_base_url"
      .ok (htmlResponse (renderPage d now (applySubscriptionDefaults values a) token []
        (if isBlank base then none else base) (updateInterval values)))
  | .token token .qrAll => settings.bind fun values =>
    svgResponse d [("cache-control", "no-store")] (publicOrigin values head ++
      match a.profile.subscriptionAlias with
      | some name => "/s/" ++ name
      | none => "/sub/" ++ token.text)
  | .token _ .speedtest =>
    if query matches .bad then .error ⟨400, "Failed to deserialize query string", ""⟩ else gone
  | .token _ _ => gone
  | .named _ =>
    if (head.userAgent.bind formatForUa).isSome then gone
    else settings.bind fun _ => .ok ⟨303, [("location", "/sub/" ++ a.user.id.text)], .text ""⟩
where
  gone : Except Refusal PublicResponse := settings.bind fun _ =>
    let reason := (a.user.suppressedReason now).getD ""
    .error (.gone s!"subscription is {reason}")

theorem suppressedAnswer_bare (settings : Except Refusal (List (String × String))) (head : PublicHead)
    (query : SpeedQuery) (call : SubCall) :
    suppressedAnswer d now settings head query a.bare call = suppressedAnswer d now settings head query a call := by
  cases call with
  | named name => rfl
  | token token page => cases page <;> rfl

variable {token : Uuid} {reason : String} {call : SubCall}

@[simp] theorem applySubscriptionDefaults_user (settings : List (String × String)) (a : Subscriber) :
    (applySubscriptionDefaults settings a).user = a.user := rfl

theorem refused_bind {α β γ : Type} (x : Except Refusal α) (r : Refusal) (k : β → Except Refusal γ) :
    ((x.bind fun _ => .error r) >>= k) = x.bind fun _ => .error r := by
  cases x <;> rfl

section

variable (h : getUserBySubscriptionToken g env s.users token = .ok (some a))
  (hreason : a.user.suppressedReason now = some reason)
include h hreason

theorem loadSubscription_suppressed :
    loadSubscription d g env now s token = s.settings.bind fun _ => .error (.gone s!"subscription is {reason}") := by
  simp only [loadSubscription, h, found, applySubscriptionDefaults_user, hreason, bind, Except.bind]
  rfl

theorem loadSubscriptionPage_suppressed : loadSubscriptionPage d g env now s token =
      s.settings.bind fun values => .ok (applySubscriptionDefaults values a, []) := by
  have hactive : a.user.isActive now = false := by rw [User.isActive, hreason]; rfl
  simp only [loadSubscriptionPage, h, found, applySubscriptionDefaults_user, hactive, bind, Except.bind]
  rfl

theorem document_suppressed (head : PublicHead) (query : SpeedQuery) : subscriptionDocument d g env now s token head =
      suppressedAnswer d now s.settings head query a (.token token .document) := by
  have hload := loadSubscription_suppressed (d := d) h hreason
  simp only [subscriptionDocument, suppressedAnswer, suppressedAnswer.gone, hreason, hload, refused_bind]
  cases head.userAgent.bind formatForUa with
  | some fmt => simp
  | none =>
    by_cases hjson : (head.accept.any (hasAny · ["application/json"])) = true
    · simp [hjson]
    · rw [loadSubscriptionPage_suppressed h hreason]
      simp only [hjson]
      cases s.settings <;> rfl

end

/-- The handlers show that and nothing else. -/
theorem serve_suppressed (h : call.lookup g env s.users = .ok (some a)) (hsup : (a.user.suppressedReason now).isSome)
    (head : PublicHead) (query : SpeedQuery) :
    call.serve d g env now s head query = suppressedAnswer d now s.settings head query a call := by
  obtain ⟨reason, hreason⟩ := isSome_iff_exists.mp hsup
  cases call with
  | named name =>
    have hfound : getUserByAlias g env s.users name = .ok (some a) := h
    simp only [SubCall.serve, subscriptionByAlias, hfound, found, applySubscriptionDefaults_user, hreason,
      suppressedAnswer, suppressedAnswer.gone, bind, Except.bind]
    cases head.userAgent.bind formatForUa <;> cases s.settings <;> rfl
  | token token page =>
    have hfound : getUserBySubscriptionToken g env s.users token = .ok (some a) := h
    have hload := loadSubscription_suppressed (d := d) hfound hreason
    cases page
    case document => exact document_suppressed hfound hreason head query
    case qrAll =>
      simp only [SubCall.serve, servePage, subscriptionQrAll, hfound]
      cases s.settings <;> rfl
    case speedtest =>
      simp only [SubCall.serve, servePage, hload, suppressedAnswer, suppressedAnswer.gone, hreason]
      cases query <;> cases s.settings <;> rfl
    all_goals simp [SubCall.serve, servePage, hload, refused_bind, suppressedAnswer, suppressedAnswer.gone, hreason]

/-! ### Two databases -/

theorem same_hit {x y : Option User} (h : y.map User.bare = x.map User.bare) :
    (x = none ∧ y = none) ∨ ∃ u v, x = some u ∧ y = some v ∧ v.bare = u.bare := by
  cases x <;> cases y <;> simp_all

theorem subscriber_bare {u v : User} (h : v.bare = u.bare) (f : Uuid → Profile) :
    Subscriber.bare ⟨v, f v.id⟩ = Subscriber.bare ⟨u, f u.id⟩ := by
  have hid : v.bare.id = u.bare.id := congrArg User.id h
  rw [Subscriber.bare, h]
  exact congrArg _ (congrArg f hid)

theorem open_bare (h : env.open a = .ok b) : b.bare = a.bare := by
  obtain ⟨u, hu, rfl⟩ := map_eq_ok.mp h
  have hplain : env.decryptUser a.user = .ok u := by
    cases hd : env.decryptUser a.user <;> simp_all [opened]
  obtain ⟨password, -, hu⟩ := bind_eq_ok.mp hplain
  obtain ⟨uuid, -, hu⟩ := bind_eq_ok.mp hu
  cases hu
  rfl

theorem openOption_bare {x y : Option Subscriber} (h : y.map Subscriber.bare = x.map Subscriber.bare)
    (hx : env.openOption x = .ok (some a)) (hy : env.openOption y = .ok (some b)) : b.bare = a.bare := by
  have hsome : ∀ {z c}, env.openOption z = .ok (some c) → z.map Subscriber.bare = some c.bare := by
    intro z c hz
    rcases z with _ | z
    · cases hz
    obtain ⟨_, hopen, heq⟩ := map_eq_ok.mp hz
    cases heq
    exact congrArg some (open_bare hopen).symm
  rw [hsome hx, hsome hy] at h
  exact some.inj h

variable (h : SameButSecrets s t)
include h

theorem find_bare {p : User → Bool} (hp : ∀ u : User, p u.bare = p u) :
    (t.users.db.users.rows.find? p).map User.bare = (s.users.db.users.rows.find? p).map User.bare := by
  have hfind : ∀ rows : List User, (rows.find? p).map User.bare = (rows.map User.bare).find? p := by
    intro rows
    rw [List.find?_map]
    exact congrArg _ (congrArg (List.find? · rows) (funext fun u => (hp u).symm))
  rw [hfind, hfind, h.users]

theorem profile_same : t.users.profile = s.users.profile := by
  funext id
  rw [profile, profile, h.profiles]

theorem tokenRow_bare (g : Gate) (token : Uuid) :
    (tokenRow g t.users token).map Subscriber.bare = (tokenRow g s.users token).map Subscriber.bare := by
  have hid : ∀ id, (t.users.db.users.find? id).map User.bare = (s.users.db.users.find? id).map User.bare :=
    fun id => find_bare h fun _ => rfl
  simp only [tokenRow, row, profile_same h, h.subscriptions]
  -- the three namespaces in turn
  rcases same_hit (find_bare h (p := fun u => (s.users.profile u.id).subscriptionTokenHash =
    g.tokenHash token.text) fun _ => rfl) with ⟨hs, ht⟩ | ⟨u, v, hs, ht, huv⟩ <;> simp only [hs, ht]
  · rcases same_hit (hid token) with ⟨hs, ht⟩ | ⟨u, v, hs, ht, huv⟩ <;> simp only [hs, ht]
    · cases s.users.subscriptions.rows.find? _ with
      | none => rfl
      | some sub =>
        rcases same_hit (hid sub.userId) with ⟨hs, ht⟩ | ⟨u, v, hs, ht, huv⟩
        · simp [hs, ht]
        · simp only [hs, ht]
          exact congrArg some (subscriber_bare huv fun id =>
              { s.users.profile id with subscriptionTitle := some sub.name })
    · exact congrArg some (subscriber_bare huv s.users.profile)
  · exact congrArg some (subscriber_bare huv s.users.profile)

theorem aliasRow_bare (g : Gate) (name : String) :
    (aliasRow g t.users name).map Subscriber.bare = (aliasRow g s.users name).map Subscriber.bare := by
  simp only [aliasRow, profile_same h]
  rcases same_hit (find_bare h (p := fun u => (s.users.profile u.id).subscriptionAlias.any fun a =>
    g.lower a = g.lower (trim name)) fun _ => rfl) with ⟨hs, ht⟩ | ⟨u, v, hs, ht, huv⟩ <;>
      simp only [hs, ht]
  · rfl
  · have hrow : t.users.row v = ⟨v, s.users.profile v.id⟩ := by rw [row, profile_same h]
    rw [map_some, hrow]
    exact congrArg some (subscriber_bare huv s.users.profile)

/-- Both databases lead to the same user. -/
theorem lookup_bare (hs : call.lookup g env s.users = .ok (some a)) (ht : call.lookup g env t.users = .ok (some b)) :
    b.bare = a.bare := by
  cases call with
  | token token page => exact openOption_bare (tokenRow_bare h g token) hs ht
  | named name => exact openOption_bare (aliasRow_bare h g name) hs ht

theorem subject_same {path : String} (specHash : String → String)
    (hlower : ∀ t, '%' ∈ (g.lower t).toList ↔ '%' ∈ t.toList) (hcall : dispatch path = some call)
    (hs : call.lookup g env s.users = .ok (some a)) (ht : call.lookup g env t.users = .ok (some b)) :
    guardSubject g env specHash false t.users path = guardSubject g env specHash false s.users path := by
  obtain ⟨kind, v, -, hid, hspelled⟩ := identity_of_dispatch hcall
  by_cases hv : '%' ∈ v.toList
  · simp [guardSubject, hid, guardLookup_encoded hlower hv]
  · have hsame : b.user.id = a.user.id := congrArg (fun c => c.user.id) (lookup_bare h hs ht)
    simp [guardSubject, hid, guardLookup_plain hv hspelled hs, guardLookup_plain hv hspelled ht, hsame]

end

/-- A public request that leads to a disabled, expired or over-quota user is answered alike in any two
    databases that differ in credentials, keys, service secrets and inbounds only. -/
theorem suppressed_tells_nothing (d : Documents) (g : Gate) (env : Env) (specHash : String → String)
    (limiter : Except Refusal (List (String × String)) → String → Option ℕ) (now : ℤ) (s t : Site)
    (path : String) (head : PublicHead) (query : SpeedQuery) (call : SubCall) (a b : Subscriber)
    (hlower : ∀ t, '%' ∈ (g.lower t).toList ↔ '%' ∈ t.toList) (h : SameButSecrets s t)
    (hcall : dispatch path = some call) (hs : call.lookup g env s.users = .ok (some a))
    (ht : call.lookup g env t.users = .ok (some b)) (hsup : (a.user.suppressedReason now).isSome) :
    respond d g env now t specHash limiter path head query call =
      respond d g env now s specHash limiter path head query call := by
  have hbare := lookup_bare h hs ht
  have hsup' : (b.user.suppressedReason now).isSome := by
    have hreason : b.user.suppressedReason now = a.user.suppressedReason now :=
      congrArg (fun c => User.suppressedReason c.user now) hbare
    rwa [hreason]
  have hserve : call.serve d g env now t head query = call.serve d g env now s head query := by
    rw [serve_suppressed hs hsup, serve_suppressed ht hsup', h.settings, ← suppressedAnswer_bare, hbare,
      suppressedAnswer_bare]
  simp [respond, h.settings, subject_same h specHash hlower hcall hs ht, hserve]

/-- `ann`, disabled, with the credentials given. -/
def lapsed (uuid password : String) : Site where
  users := { annDb with
    db := { annDb.db with users := Table.empty.put ⟨1, "ann", uuid, password, false, 0, 0, none⟩ }
    usernames := List.nodup_singleton _ }
  settings := .ok []

def plainDocuments : Documents where
  template := ""
  date _ := ""
  rfc3339 _ := ""
  bytes _ := ""
  humanBytes _ := ""
  base64 := id
  qrSvg := some
  parseJson _ := none
  prettyJson := render
  endpoints _ _ := .ok []
  routingProfile _ _ := .ok none
  services _ _ := .ok []
  wgInterfaces _ _ := .ok []
  wgConfig _ a _ := .ok (a.user.password, "wireguard")
  endpointUri a _ := some a.user.uuid
  singboxConfig a _ _ _ := .str a.user.uuid
  clashConfig a _ _ := a.user.password

def browser : PublicHead := ⟨none, none, none, none, "192.0.2.1"⟩

theorem disabled_page_same : respond plainDocuments plainGate clearEnv 0 (lapsed "v" "q") id (fun _ _ => none)
        "/sub/00000000-0000-0000-0000-000000000001" browser .absent (.token 1 .document) =
      respond plainDocuments plainGate clearEnv 0 (lapsed "u" "p") id (fun _ _ => none)
        "/sub/00000000-0000-0000-0000-000000000001" browser .absent (.token 1 .document) :=
  suppressed_tells_nothing plainDocuments plainGate clearEnv id _ 0 _
    _ _ browser .absent _ _ _ (fun _ => Iff.rfl)
    ⟨rfl, rfl, rfl, rfl, rfl, rfl, rfl, rfl, rfl, rfl, rfl, rfl⟩ (by decide +kernel) rfl rfl rfl

end Honey.Master
