import Honey.Agent.Apply
import Honey.Agent.Config

/-! Certificates that the agent obtains itself (`xrayacme/manager.go`).

        extra_json.acme -- off
                        +- sing-box's own ACME: only the domain is noted
                        +- a request (domain, email, directory) for Xray and Hysteria

    `Prepare` refuses a spec with a bad setting, two requests for a domain that differ, or a domain that
    sing-box certifies too; then it moves sing-box's challenge port and puts the certificate paths into
    the inbounds that the manager serves. Issuing is not modelled beyond its answer. -/

namespace Honey.Agent.XrayAcme
open Honey.Master Honey.Schemes List Json Except

/-! ### Settings -/

structure AcmeConfig where
  (email ca directoryUrl : String)
  alternativeHttpPort : ℤ
  (disableHttpChallenge disableTlsAlpnChallenge : Bool)
  deriving DecidableEq, Repr

/-- A value that `json.Unmarshal` can put into a field; `null` leaves it as it was. -/
def fits {α : Type} (read : Json → Option α) : Json → Bool
  | .null => true
  | v => (read v).isSome

/-- The fields of the struct that an object names have the right type. -/
def fieldFits (f : String × Json) : Bool :=
  (["email", "ca", "directory_url"].all fun name => !namesField name f.1 || fits asStr? f.2) &&
  (!namesField "alternative_http_port" f.1 || fits asI64? f.2) &&
  (["disable_http_challenge", "disable_tls_alpn_challenge"].all fun name =>
    !namesField name f.1 || fits asBool? f.2)

/-- The fields of the struct as an object fills them. -/
def settingsOf (acme : Json) : AcmeConfig where
  email := unmarshalField "email" asStr? "" acme
  ca := unmarshalField "ca" asStr? "" acme
  directoryUrl := unmarshalField "directory_url" asStr? "" acme
  alternativeHttpPort := unmarshalField "alternative_http_port" asI64? 0 acme
  disableHttpChallenge := unmarshalField "disable_http_challenge" asBool? false acme
  disableTlsAlpnChallenge := unmarshalField "disable_tls_alpn_challenge" asBool? false acme

/-- The settings are of the types of the struct. -/
def wellTyped : Json → Bool
  | .bool b => b
  | .obj fields => fields.all fieldFits
  | _ => false

/-- `json.Unmarshal` of the settings, after `true`. -/
def decode (acme : Json) : Except String AcmeConfig :=
  if wellTyped acme then .ok (settingsOf acme)
  else .error "json: cannot unmarshal value into Go value of type xrayacme.acmeConfig"

/-- `parseConfig`; none if ACME is off. -/
def parseConfig (raw : String) : Except String (Option AcmeConfig) :=
  if raw = "" then .ok none
  else do
    let extra ← unmarshalMap raw
    match get? (.obj extra) "acme" with
    | none | some .null | some (.bool false) => return none
    | some acme => (decode acme).map some

/-! ### Requests -/

/-- The manager: its library, the ports of the gateway and of sing-box's listener, and the directory of the library. -/
structure Manager where
  go : Go
  (gateway upstream : ℤ)
  defaultDirectory : String

structure Request where
  (domain email directory : String)
  deriving DecidableEq, Repr

/-- How an inbound gets its certificate. -/
inductive Use where
  | off
  | singbox (domain : String)
  | managed (r : Request)
  deriving DecidableEq, Repr

def stagingDirectory : String := "https://acme-staging-v02.api.letsencrypt.org/directory"

/-- The names of the library's directory. -/
def productionCas : List String := ["", "letsencrypt", "production"]

def stagingCas : List String := ["staging", "letsencrypt-staging"]

variable (m : Manager)

def directoryUrl (cfg : AcmeConfig) : Except String String :=
  if cfg.directoryUrl ≠ "" then
    if m.go.isHttps cfg.directoryUrl then .ok cfg.directoryUrl
    else .error "ACME directory_url must be an https URL"
  else
    let ca := m.go.toLower (trim cfg.ca)
    if ca ∈ productionCas then .ok m.defaultDirectory
    else if ca ∈ stagingCas then .ok stagingDirectory
    else .error ("unsupported ACME CA " ++ m.go.quote cfg.ca)

variable (go : Go)

/-- The domain of a server name. -/
def domainOf (name : String) : String := go.toLower (trim name)

/-- A domain that can be certified. -/
def isHostname (domain : String) : Bool :=
  domain ≠ "" && !go.isIP domain && domain.toList.all (· ∉ ['/', '\\', ':', ' ', '\t', '\r', '\n'])

def validDomain (name : String) : Except String String :=
  if isHostname go (domainOf go name) then .ok (domainOf go name)
  else .error "server_name must be a DNS hostname"

/-- The manager serves Xray and Hysteria. -/
def managed (type core : String) : Bool := core = "xray" || core = "hysteria" || type = "hysteria2"

variable (ib : SpecInbound)

/-- TLS that is not REALITY. -/
def ordinaryTls : Except String Tls :=
  match ib.tls.filter fun t => t.enabled && t.reality.isNone with
  | some t => .ok t
  | none => .error ("inbound " ++ go.quote ib.tag ++ " ACME requires ordinary TLS")

/-- The request of an inbound that the manager serves. -/
def managedRequest (cfg : AcmeConfig) (domain : String) : Except String Request := do
  reject cfg.disableHttpChallenge "Xray ACME supports HTTP-01 only"
  reject (cfg.email = "" || '@' ∉ cfg.email.toList) "Xray ACME requires a contact email"
  reject (cfg.alternativeHttpPort ≠ 0 && cfg.alternativeHttpPort ≠ m.gateway)
    ("Xray ACME alternative_http_port must be " ++ toString m.gateway ++ " (the Honey challenge gateway)")
  let directory ← directoryUrl m cfg
  return ⟨domain, trim cfg.email, directory⟩

/-- The body of the loop of `requests`, up to the comparison with earlier inbounds. -/
def inboundUse : Except String Use := do
  match ← withPrefix ("inbound " ++ m.go.quote ib.tag ++ " ACME: ") (parseConfig ib.extraJson) with
  | none => return .off
  | some cfg =>
    let t ← ordinaryTls m.go ib
    let domain ← withPrefix ("inbound " ++ m.go.quote ib.tag ++ " ACME: ") (validDomain m.go t.serverName)
    if managed ib.type ib.core then (managedRequest m cfg domain).map .managed
    else return .singbox domain

/-- The requests and sing-box's domains so far. -/
structure Requests where
  managed : List Request
  singbox : List String

/-- The rest of the body: one domain, one request. -/
def Requests.add (rs : Requests) : Use → Except String Requests
  | .off => .ok rs
  | .singbox domain => .ok { rs with singbox := rs.singbox ++ [domain] }
  | .managed r =>
    match rs.managed.find? (·.domain = r.domain) with
    | none => .ok { rs with managed := rs.managed ++ [r] }
    | some current =>
      if current = r then .ok rs
      else .error ("domain " ++ go.quote r.domain ++ " has conflicting ACME settings")

def requests (m : Manager) : List SpecInbound → Requests → Except String Requests
  | [], rs => .ok rs
  | ib :: ibs, rs => do
      let use ← inboundUse m ib
      let rs ← rs.add m.go use
      requests m ibs rs

/-! ### Rewriting the spec -/

/-- `int(port)` of a float; another value counts as zero. -/
def portOf : Option Json → ℤ
  | some (.int n) => n
  | some (.float text) => go.truncate text
  | _ => 0

/-- `rewriteSingboxPorts`, of one inbound. -/
def rewriteSingboxPort : SpecInbound :=
  if managed ib.type ib.core ∨ ib.extraJson = "" then ib
  else match unmarshalMap ib.extraJson with
    | .error _ => ib
    | .ok extra => match get? (.obj extra) "acme" with
      | some (.obj acme) =>
        if portOf m.go (get? (.obj acme) "alternative_http_port") = m.gateway then
          { ib with extraJson := m.go.marshal (set (.obj extra) "acme"
              (set (.obj acme) "alternative_http_port" (.int m.upstream))) }
        else ib
      | _ => ib

/-- `injectPaths`, of one inbound; `paths` are the files of the manager or a temporary pair. -/
def injectPaths (paths : String → String × String) (rs : Requests) (ib : SpecInbound) : SpecInbound :=
  match ib.tls with
  | none => ib
  | some t =>
    if managed ib.type ib.core ∧ domainOf m.go t.serverName ∈ rs.managed.map (·.domain) then
      { ib with tls := some { t with
          certPath := (paths (domainOf m.go t.serverName)).1
          keyPath := (paths (domainOf m.go t.serverName)).2 } }
    else ib

/-- Both steps, on one inbound and on the spec. -/
def rewriteInbound (paths : String → String × String) (rs : Requests) (ib : SpecInbound) : SpecInbound :=
  injectPaths m paths rs (rewriteSingboxPort m ib)

def rewriteSpec (paths : String → String × String) (rs : Requests) (spec : NodeSpec) : NodeSpec :=
  { spec with inbounds := spec.inbounds.map (rewriteInbound m paths rs) }

/-- `Prepare`; `certify` is how issuing, or making the temporary pairs, goes. The range over the requests
    has no order, here the first conflict is named. -/
def prepare (certify : List Request → Except String Unit)
    (paths : String → String × String) (spec : NodeSpec) : Except String NodeSpec := do
  let rs ← requests m spec.inbounds ⟨[], []⟩
  match rs.managed.find? (·.domain ∈ rs.singbox) with
  | some r => .error ("domain " ++ m.go.quote r.domain ++ " cannot use sing-box and Xray ACME " ++
      "simultaneously; use one managed certificate source")
  | none => do
      certify rs.managed
      return rewriteSpec m paths rs spec

/-! ### What `Prepare` keeps -/

section

variable (m : Manager) (paths : String → String × String) (rs : Requests) (ib : SpecInbound)

theorem rewriteSingboxPort_eq : ∃ extra, rewriteSingboxPort m ib = { ib with extraJson := extra } := by
  rw [rewriteSingboxPort]
  split
  · exact ⟨ib.extraJson, rfl⟩
  split
  · exact ⟨ib.extraJson, rfl⟩
  split
  · split
    · exact ⟨_, rfl⟩
    · exact ⟨ib.extraJson, rfl⟩
  · exact ⟨ib.extraJson, rfl⟩

theorem injectPaths_eq : ∃ tls, injectPaths m paths rs ib = { ib with tls := tls } := by
  rw [injectPaths]
  split
  · exact ⟨ib.tls, rfl⟩
  · split
    · exact ⟨_, rfl⟩
    · exact ⟨ib.tls, rfl⟩

theorem rewriteSingboxPort_managed (h : managed ib.type ib.core) : rewriteSingboxPort m ib = ib := by
  rw [rewriteSingboxPort, if_pos (.inl h)]

theorem marshal_ne (go : Go) {j : Json} (h : wellFormed j) : go.marshal j ≠ "" := by
  intro hempty
  have hread := go.unmarshal_marshal j h
  rw [hempty] at hread
  cases hread

theorem readExtra_rewritten {extra : List (String × Json)} (hread : readExtra ib.extraJson = .ok extra)
    (hwf : wellFormed (.obj extra)) : ∃ extra', readExtra (rewriteSingboxPort m ib).extraJson = .ok extra' ∧
      wellFormed (.obj extra') ∧ ∀ k, k ≠ "acme" → get? (.obj extra') k = get? (.obj extra) k := by
  have hsame : ∃ extra', readExtra ib.extraJson = .ok extra' ∧ wellFormed (.obj extra') ∧
      ∀ k, k ≠ "acme" → get? (.obj extra') k = get? (.obj extra) k :=
    ⟨extra, hread, hwf, fun _ _ => rfl⟩
  rw [rewriteSingboxPort]
  split
  · exact hsame
  rename_i hserved
  rw [readExtra, if_neg (not_or.mp hserved).2] at hread
  simp only [hread]
  split
  · rename_i acme hacme
    split
    · have hinner : wellFormed (.obj acme) :=
        wellFormedFields_iff.mp (wellFormed_obj.mp hwf).2 _ (mem_of_get? hacme)
      have hset := wellFormed_set (k := "acme") hwf
        (wellFormed_set (k := "alternative_http_port") (v := .int m.upstream) hinner rfl)
      refine ⟨_, ?_, hset, fun k hk => ?_⟩
      · rw [readExtra, if_neg (marshal_ne m.go hset), unmarshalMap, m.go.unmarshal_marshal _ hset]
        rfl
      · exact (get?_insertField _ _ _ _).trans (if_neg (Ne.symm hk))
    · exact hsame
  · exact hsame

theorem readExtra_of_rewritten (h : ∃ extra, readExtra (rewriteSingboxPort m ib).extraJson = .ok extra) :
    ∃ extra, readExtra ib.extraJson = .ok extra := by
  by_cases hraw : ib.extraJson = ""
  · exact ⟨[], by rw [readExtra, if_pos hraw]⟩
  cases hread : unmarshalMap ib.extraJson with
  | ok extra => exact ⟨extra, by rw [readExtra, if_neg hraw, hread]⟩
  | error e =>
    have hkept : rewriteSingboxPort m ib = ib := by
      rw [rewriteSingboxPort]
      split
      · rfl
      · simp [hread]
    rwa [hkept] at h

theorem extraJson_rewritten : (rewriteInbound m paths rs ib).extraJson = (rewriteSingboxPort m ib).extraJson := by
  obtain ⟨tls, htls⟩ := injectPaths_eq m paths rs _
  rw [rewriteInbound, htls]

/-- What the manager leaves of an inbound: all but its TLS files and the `acme` settings. -/
structure Kept (ib ib' : SpecInbound) : Prop where
  core : ib'.core = ib.core
  tag : ib'.tag = ib.tag
  type : ib'.type = ib.type
  users : ib'.users = ib.users
  transport : ib'.transport = ib.transport
  upstream : ib'.upstreamOutboundJson = ib.upstreamOutboundJson
  readable : (∃ extra, readExtra ib'.extraJson = .ok extra) → ∃ extra, readExtra ib.extraJson = .ok extra
  extra : ∀ extra, readExtra ib.extraJson = .ok extra → wellFormed (.obj extra) →
    ∃ extra', readExtra ib'.extraJson = .ok extra' ∧ wellFormed (.obj extra') ∧
      ∀ k, k ≠ "acme" → get? (.obj extra') k = get? (.obj extra) k

theorem kept_rewritten : Kept ib (rewriteInbound m paths rs ib) := by
  obtain ⟨extra, hextra⟩ := rewriteSingboxPort_eq m ib
  obtain ⟨tls, htls⟩ := injectPaths_eq m paths rs _
  have heq : rewriteInbound m paths rs ib = { ib with extraJson := extra, tls := tls } := by
    rw [rewriteInbound, htls, hextra]
  refine ⟨by rw [heq], by rw [heq], by rw [heq], by rw [heq], by rw [heq], by rw [heq], ?_, ?_⟩
  · rw [extraJson_rewritten]
    exact readExtra_of_rewritten m ib
  · intro extra hread hwf
    rw [extraJson_rewritten]
    exact readExtra_rewritten m ib hread hwf

end

theorem Kept.refl : Kept ib ib := ⟨rfl, rfl, rfl, rfl, rfl, rfl, id, fun extra h hwf => ⟨extra, h, hwf, fun _ _ => rfl⟩⟩

theorem Kept.trans {a b c : SpecInbound} (h : Kept a b) (h' : Kept b c) : Kept a c := by
  refine ⟨h'.core.trans h.core, h'.tag.trans h.tag, h'.type.trans h.type, h'.users.trans h.users,
    h'.transport.trans h.transport, h'.upstream.trans h.upstream, fun hc => h.readable (h'.readable hc), ?_⟩
  intro extra hread hwf
  obtain ⟨extra₁, hread₁, hwf₁, hsame₁⟩ := h.extra extra hread hwf
  obtain ⟨extra₂, hread₂, hwf₂, hsame₂⟩ := h'.extra extra₁ hread₁ hwf₁
  exact ⟨extra₂, hread₂, hwf₂, fun k hk => (hsame₂ k hk).trans (hsame₁ k hk)⟩

theorem Kept.serverOf {ib ib' : SpecInbound} (h : Kept ib ib') : serverOf ib' = serverOf ib := by
  rw [Agent.serverOf, h.type, h.core, Agent.serverOf]

theorem prepare_eq_ok {m : Manager} {certify : List Request → Except String Unit}
    {paths : String → String × String} {spec spec' : NodeSpec} :
    prepare m certify paths spec = .ok spec' ↔ ∃ rs, requests m spec.inbounds ⟨[], []⟩ = .ok rs ∧
      (∀ r ∈ rs.managed, r.domain ∉ rs.singbox) ∧ certify rs.managed = .ok () ∧
      spec' = rewriteSpec m paths rs spec := by
  rw [prepare, bind_eq_ok]
  refine exists_congr fun rs => and_congr_right fun _ => ?_
  cases hfind : rs.managed.find? (·.domain ∈ rs.singbox) with
  | some r =>
    have hmem := mem_of_find?_eq_some hfind
    have hconflict : r.domain ∈ rs.singbox := by simpa using find?_some hfind
    constructor
    · exact nofun
    · rintro ⟨hno, -⟩
      exact absurd hconflict (hno r hmem)
  | none =>
    have hno : ∀ r ∈ rs.managed, r.domain ∉ rs.singbox := by
      simpa using find?_eq_none.mp hfind
    rw [bind_eq_ok]
    constructor
    · rintro ⟨⟨⟩, hcertify, h⟩
      exact ⟨hno, hcertify, (ok.inj h).symm⟩
    · rintro ⟨-, hcertify, rfl⟩
      exact ⟨(), hcertify, rfl⟩

/-! ### When the requests are accepted -/

/-- One request for each domain. -/
def Agree (P : Request → Prop) : Prop := ∀ r r', P r → P r' → r.domain = r'.domain → r = r'

theorem Agree.mono {P Q : Request → Prop} (h : Agree P) (hPQ : ∀ r, Q r → P r) : Agree Q :=
  fun r r' hr hr' => h r r' (hPQ r hr) (hPQ r' hr')

theorem Requests.add_ok_iff {rs : Requests} {u : Use} (hrs : Agree (· ∈ rs.managed)) :
    (∃ rs', rs.add go u = .ok rs') ↔ Agree fun r => r ∈ rs.managed ∨ u = .managed r := by
  cases u with
  | off | singbox domain => simpa [Requests.add] using hrs
  | managed new =>
    rw [Requests.add]
    cases hfind : rs.managed.find? (·.domain = new.domain) with
    | none =>
      have hnew : ∀ r ∈ rs.managed, r.domain ≠ new.domain := by
        simpa using find?_eq_none.mp hfind
      refine ⟨fun _ => ?_, fun _ => ⟨_, rfl⟩⟩
      rintro r r' (hr | ⟨⟨⟩⟩) (hr' | ⟨⟨⟩⟩) hdomain
      · exact hrs r r' hr hr' hdomain
      · exact absurd hdomain (hnew r hr)
      · exact absurd hdomain.symm (hnew r' hr')
      · rfl
    | some current =>
      have hmem := mem_of_find?_eq_some hfind
      have hdomain : current.domain = new.domain := by simpa using find?_some hfind
      dsimp only
      split
      · rename_i heq
        refine ⟨fun _ => hrs.mono ?_, fun _ => ⟨_, rfl⟩⟩
        rintro r (hr | ⟨⟨⟩⟩)
        · exact hr
        · exact heq ▸ hmem
      · rename_i hne
        refine ⟨fun ⟨_, h⟩ => (by cases h), fun hagree => absurd ?_ hne⟩
        exact hagree current new (.inl hmem) (.inr rfl) hdomain

theorem Requests.mem_add {go : Go} {rs rs' : Requests} {u : Use} (h : rs.add go u = .ok rs') :
    (∀ r, r ∈ rs'.managed ↔ r ∈ rs.managed ∨ u = .managed r) ∧
      ∀ d, d ∈ rs'.singbox ↔ d ∈ rs.singbox ∨ u = .singbox d := by
  cases u with
  | off =>
    obtain rfl := ok.inj h
    simp
  | singbox domain =>
    obtain rfl := ok.inj h
    simp [eq_comm]
  | managed new =>
    rw [Requests.add] at h
    split at h
    · obtain rfl := ok.inj h
      simp [eq_comm]
    rename_i hfind
    split at h
    · rename_i heq
      obtain rfl := ok.inj h
      have hmem := mem_of_find?_eq_some hfind
      refine ⟨fun r => ⟨.inl, ?_⟩, by simp⟩
      rintro (hr | ⟨⟨⟩⟩)
      · exact hr
      · exact heq ▸ hmem
    · cases h

section

variable {m : Manager}

theorem inboundUse_off {ib : SpecInbound} (h : parseConfig ib.extraJson = .ok none) : inboundUse m ib = .ok .off := by
  rw [inboundUse, h]
  rfl

theorem inboundUse_on {ib : SpecInbound} {cfg : AcmeConfig} {t : Tls} {u : Use}
    (hparse : parseConfig ib.extraJson = .ok (some cfg)) (htls : ordinaryTls m.go ib = .ok t) :
    inboundUse m ib = .ok u ↔ isHostname m.go (domainOf m.go t.serverName) ∧ if managed ib.type ib.core then
        ∃ r, managedRequest m cfg (domainOf m.go t.serverName) = .ok r ∧ u = .managed r
      else u = .singbox (domainOf m.go t.serverName) := by
  have hstep : inboundUse m ib = withPrefix ("inbound " ++ m.go.quote ib.tag ++ " ACME: ")
      (validDomain m.go t.serverName) >>= fun domain =>
        if managed ib.type ib.core then (managedRequest m cfg domain).map .managed
        else .ok (.singbox domain) := by
    rw [inboundUse, hparse]
    rw [htls]
    rfl
  rw [hstep, bind_eq_ok]
  simp only [withPrefix_eq_ok, validDomain]
  split
  · rename_i hhost
    simp only [ok.injEq, exists_eq_left', hhost, true_and]
    split
    · exact map_eq_ok.trans (exists_congr fun r => and_congr_right fun _ => eq_comm)
    · rw [ok.injEq, eq_comm]
  · rename_i hhost
    simp [hhost]

theorem mem_requests : ∀ {ibs : List SpecInbound} {rs rs' : Requests}, requests m ibs rs = .ok rs' →
    (∀ r, r ∈ rs'.managed ↔ r ∈ rs.managed ∨ ∃ ib ∈ ibs, inboundUse m ib = .ok (.managed r)) ∧
      ∀ d, d ∈ rs'.singbox ↔ d ∈ rs.singbox ∨ ∃ ib ∈ ibs, inboundUse m ib = .ok (.singbox d)
  | [], rs, rs', h => by
    obtain rfl := ok.inj h
    simp
  | ib :: ibs, rs, rs', h => by
    obtain ⟨u, hu, h⟩ := bind_eq_ok.mp h
    obtain ⟨mid, hadd, h⟩ := bind_eq_ok.mp h
    obtain ⟨hmanaged, hsingbox⟩ := mem_requests h
    obtain ⟨hmanaged', hsingbox'⟩ := Requests.mem_add hadd
    simp only [mem_cons, exists_eq_or_imp, hu, ok.injEq]
    constructor
    · intro r
      rw [hmanaged, hmanaged', or_assoc]
    · intro d
      rw [hsingbox, hsingbox', or_assoc]

theorem requests_ok_iff : ∀ {ibs : List SpecInbound} {rs : Requests}, Agree (· ∈ rs.managed) →
    ((∃ rs', requests m ibs rs = .ok rs') ↔ (∀ ib ∈ ibs, ∃ u, inboundUse m ib = .ok u) ∧
      Agree fun r => r ∈ rs.managed ∨ ∃ ib ∈ ibs, inboundUse m ib = .ok (.managed r))
  | [], rs, hrs => by simpa [requests] using hrs
  | ib :: ibs, rs, hrs => by
    have hstep : ∀ u mid, inboundUse m ib = .ok u → rs.add m.go u = .ok mid →
        ∀ r, (r ∈ mid.managed ∨ ∃ ib ∈ ibs, inboundUse m ib = .ok (.managed r)) ↔
          (r ∈ rs.managed ∨ ∃ i ∈ ib :: ibs, inboundUse m i = .ok (.managed r)) := by
      intro u mid hu hadd r
      rw [(Requests.mem_add hadd).1 r, or_assoc]
      simp [hu]
    constructor
    · rintro ⟨rs', h⟩
      obtain ⟨u, hu, h⟩ := bind_eq_ok.mp h
      obtain ⟨mid, hadd, h⟩ := bind_eq_ok.mp h
      have hmid : Agree (· ∈ mid.managed) :=
        ((Requests.add_ok_iff m.go hrs).mp ⟨mid, hadd⟩).mono fun r => ((Requests.mem_add hadd).1 r).mp
      obtain ⟨hall, hagree⟩ := (requests_ok_iff hmid).mp ⟨rs', h⟩
      exact ⟨forall_mem_cons.mpr ⟨⟨u, hu⟩, hall⟩, hagree.mono fun r => (hstep u mid hu hadd r).mpr⟩
    · rintro ⟨hall, hagree⟩
      obtain ⟨⟨u, hu⟩, hall⟩ := forall_mem_cons.mp hall
      have hu' : ∀ r, u = .managed r → ∃ i ∈ ib :: ibs, inboundUse m i = .ok (.managed r) :=
        fun r hr => ⟨ib, mem_cons_self, hr ▸ hu⟩
      obtain ⟨mid, hadd⟩ := (Requests.add_ok_iff m.go hrs).mpr (hagree.mono fun r => Or.imp_right (hu' r))
      have hmid : Agree (· ∈ mid.managed) := hagree.mono fun r hr => (hstep u mid hu hadd r).mp (.inl hr)
      obtain ⟨rs', h⟩ := (requests_ok_iff hmid).mpr ⟨hall, hagree.mono fun r => (hstep u mid hu hadd r).mp⟩
      exact ⟨rs', bind_eq_ok.mpr ⟨u, hu, bind_eq_ok.mpr ⟨mid, hadd, h⟩⟩⟩

/-- `Prepare` passes, if every certificate is there, exactly if every inbound does, the requests agree
    and no domain is certified in both ways. -/
theorem prepare_ok_iff {paths : String → String × String} {spec : NodeSpec} :
    (∃ spec', prepare m (fun _ => .ok ()) paths spec = .ok spec') ↔
      (∀ ib ∈ spec.inbounds, ∃ u, inboundUse m ib = .ok u) ∧
      (Agree fun r => ∃ ib ∈ spec.inbounds, inboundUse m ib = .ok (.managed r)) ∧
      ∀ r, (∃ ib ∈ spec.inbounds, inboundUse m ib = .ok (.managed r)) →
        ∀ ib ∈ spec.inbounds, inboundUse m ib ≠ .ok (.singbox r.domain) := by
  have hempty : Agree (· ∈ (⟨[], []⟩ : Requests).managed) := fun r _ hr => by cases hr
  have hok : (∃ rs, requests m spec.inbounds ⟨[], []⟩ = .ok rs) ↔ _ := requests_ok_iff hempty
  simp only [not_mem_nil, false_or] at hok
  rw [← and_assoc, ← hok]
  simp only [prepare_eq_ok]
  constructor
  · rintro ⟨spec', rs, hrs, hconflict, -⟩
    obtain ⟨hmanaged, hsingbox⟩ := mem_requests hrs
    simp only [not_mem_nil, false_or] at hmanaged hsingbox
    refine ⟨⟨rs, hrs⟩, fun r hr ib hib huse => ?_⟩
    exact hconflict r ((hmanaged r).mpr hr) ((hsingbox _).mpr ⟨ib, hib, huse⟩)
  · rintro ⟨⟨rs, hrs⟩, hconflict⟩
    obtain ⟨hmanaged, hsingbox⟩ := mem_requests hrs
    simp only [not_mem_nil, false_or] at hmanaged hsingbox
    refine ⟨_, rs, hrs, fun r hr hd => ?_, trivial, rfl⟩
    obtain ⟨ib, hib, huse⟩ := (hsingbox _).mp hd
    exact hconflict r ((hmanaged r).mp hr) ib hib huse

end

end Honey.Agent.XrayAcme
