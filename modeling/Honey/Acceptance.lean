import Honey.Agent.Acme
import Honey.Master.Push
import Honey.Wire

/-! Two validators: what the master admits on one node, and what the agent accepts of the spec that is built from it.

        rows -- validate_inbound -- build_node_spec --> spec
                                                         | Validate (dry run)
                              ACME requests, BuildConfig of every core, Validate of Hysteria

    sing-box and Xray configs can always be built. The master knows less than the agent about ACME
    settings, takes `d` for a unit of time and does not count Hysteria inbounds: the agent accepts
    exactly the sets that are `Compatible` (`accepted_iff_compatible`). -/

namespace Honey
open Honey.Agent Honey.Agent.XrayAcme Honey.Master Honey.Schemes List Except Hysteria Duration

/-! ### The dry run -/

/-- `BuildConfig` of the cores; `api` is the address of Xray's stats. -/
def buildConfigOf (go : Go) (api : Option String) : ServerCore → NodeSpec → Except String String
  | .singbox => Singbox.buildConfig go
  | .xray => XrayCore.buildConfig go api
  | .hysteria => Hysteria.buildConfig go

theorem buildConfigOf_ne {go : Go} {api : Option String} (k : ServerCore) (spec : NodeSpec)
    (cfg : String) (hne : spec.inbounds ≠ []) (h : buildConfigOf go api k spec = .ok cfg) : cfg ≠ "" := by
  have hobj : ∀ fields, go.marshalIndent (.obj fields) ≠ "" := by
    intro fields hempty
    exact go.marshalIndent_obj fields (by rw [hempty]; decide)
  cases k with
  | singbox =>
    obtain ⟨c, -, h⟩ := bind_eq_ok.mp h
    rw [← ok.inj h]
    exact hobj _
  | xray =>
    obtain ⟨inbounds, -, h⟩ := bind_eq_ok.mp h
    rw [← ok.inj h]
    exact hobj _
  | hysteria =>
    rw [buildConfigOf, Hysteria.buildConfig] at h
    split at h
    · rename_i hnil
      exact absurd hnil hne
    · obtain ⟨j, hj, rfl⟩ := map_eq_ok.mp h
      rw [Hysteria.inboundConfig] at hj
      split at hj
      · cases hj
      obtain ⟨t, -, hj⟩ := bind_eq_ok.mp hj
      obtain ⟨extra, -, hj⟩ := bind_eq_ok.mp hj
      rw [← ok.inj hj]
      exact hobj _
    · cases h

/-- The agent with the three cores. -/
def serverWith (go : Go) (api : Option String) (tools : Tools) (sha : String → String) : Server :=
  ⟨tools, sha, buildConfigOf go api, buildConfigOf_ne⟩

/-- The checks of the agent itself; sing-box and Xray have their binary check the config. -/
def ownCheck (go : Go) : ServerCore → String → Option String
  | .hysteria, cfg => Hysteria.validate go cfg
  | _, _ => none

/-- `Validate` of the agent. -/
def dryRun (srv : Server) (acme : NodeSpec → Except String NodeSpec)
    (check : ServerCore → String → Option String) (spec : NodeSpec) : CoreStatus :=
  match acme spec >>= validateCandidate srv check with
  | .error _ => ⟨.errored, 0, "candidate configuration rejected; inspect agent logs"⟩
  | .ok _ => ⟨.stopped, 0, "candidate configuration is valid; no changes applied"⟩

/-- The files of the certificates by domain; a file has a name. -/
structure CertFiles where
  paths : String → String × String
  cert_ne : ∀ d, (paths d).1 ≠ ""
  key_ne : ∀ d, (paths d).2 ≠ ""

/-- The stages of the agent accept a spec: the dry run, if the temporary certificates can be written and
    no binary objects. -/
def Accepted (m : Manager) (api : Option String) (tools : Tools) (sha : String → String)
    (files : CertFiles) (spec : NodeSpec) : Prop :=
  (dryRun (serverWith m.go api tools sha) (prepare m (fun _ => .ok ()) files.paths) (ownCheck m.go)
    spec).state ≠ .errored

/-! ### Compatible sets -/

section

variable (m : Manager) (row : Inbound) (acme : Json)

/-- The ACME settings of an inbound, if it has ACME. -/
def acmeOf : Option Json := if acmeEnabled row.extra then row.extra.get? "acme" else none

/-- The domain of an inbound. -/
def rowDomain : String := domainOf m.go (row.serverName.getD "")

/-- The agent's own ACME client serves the inbound. -/
def servedByAgent : Bool := managed row.kind row.core

/-- A directory that the agent knows how to take. -/
def KnownDirectory (cfg : AcmeConfig) : Prop :=
  (cfg.directoryUrl ≠ "" → m.go.isHttps cfg.directoryUrl) ∧
    (cfg.directoryUrl = "" → m.go.toLower (trim cfg.ca) ∈ productionCas ++ stagingCas)

/-- The directory that the settings choose. -/
def directoryOf (cfg : AcmeConfig) : String :=
  if cfg.directoryUrl ≠ "" then cfg.directoryUrl
  else if m.go.toLower (trim cfg.ca) ∈ productionCas then m.defaultDirectory
  else stagingDirectory

/-- Settings that the agent's own ACME client can work with. -/
structure ManagedFits (cfg : AcmeConfig) : Prop where
  challenge : cfg.disableHttpChallenge = false
  email : '@' ∈ cfg.email.toList
  port : cfg.alternativeHttpPort = 0 ∨ cfg.alternativeHttpPort = m.gateway
  directory : KnownDirectory m cfg

/-- ACME settings that the agent takes: `true` or an object with fields of the right types, a server name
    that is a hostname, and more if the agent is the ACME client. -/
structure AcmeFits : Prop where
  typed : wellTyped acme
  hostname : isHostname m.go (rowDomain m row)
  managed : servedByAgent row → ManagedFits m (settingsOf acme)

/-- The request of an inbound that the agent serves. -/
def rowRequest : Request :=
  ⟨rowDomain m row, trim (settingsOf acme).email, directoryOf m (settingsOf acme)⟩

/-- The sets of inbounds of a node that the agent accepts. -/
structure Compatible (m : Manager) (rows : List Inbound) : Prop where
  acme : ∀ row ∈ rows, ∀ a ∈ acmeOf row, AcmeFits m row a
  agree : ∀ row ∈ rows, ∀ row' ∈ rows, ∀ a ∈ acmeOf row, ∀ a' ∈ acmeOf row', servedByAgent row →
    servedByAgent row' → rowDomain m row = rowDomain m row' → rowRequest m row a = rowRequest m row' a'
  apart : ∀ row ∈ rows, ∀ row' ∈ rows, (acmeOf row).isSome → (acmeOf row').isSome → servedByAgent row →
    ¬ servedByAgent row' → rowDomain m row ≠ rowDomain m row'
  single : (rows.filter (·.kind = "hysteria2")).length ≤ 1
  timeout : ∀ row ∈ rows, row.kind = "hysteria2" → Duration.IsDuration m.go.scaled row.udpIdleTimeout.toList

end

/-! ### One inbound at the ACME parser -/

variable {m : Manager} {row : Inbound}

theorem directoryUrl_eq_ok {cfg : AcmeConfig} {d : String} :
    directoryUrl m cfg = .ok d ↔ KnownDirectory m cfg ∧ directoryOf m cfg = d := by
  by_cases hurl : cfg.directoryUrl = ""
  · by_cases hproduction : m.go.toLower (trim cfg.ca) ∈ productionCas
    · simp [directoryUrl, KnownDirectory, directoryOf, hurl, hproduction]
    · by_cases hstaging : m.go.toLower (trim cfg.ca) ∈ stagingCas
      · simp [directoryUrl, KnownDirectory, directoryOf, hurl, hproduction, hstaging]
      · simp [directoryUrl, KnownDirectory, hurl, hproduction, hstaging]
  · by_cases hhttps : m.go.isHttps cfg.directoryUrl
    · simp [directoryUrl, KnownDirectory, directoryOf, hurl, hhttps]
    · simp [directoryUrl, KnownDirectory, hurl, hhttps]

theorem managedRequest_eq_ok {cfg : AcmeConfig} {domain : String} {r : Request} :
    managedRequest m cfg domain = .ok r ↔ ManagedFits m cfg ∧ r = ⟨domain, trim cfg.email, directoryOf m cfg⟩ := by
  simp only [managedRequest, then_eq_ok, reject_eq_ok]
  constructor
  · rintro ⟨hchallenge, hemail, hport, h⟩
    obtain ⟨d, hd, h⟩ := bind_eq_ok.mp h
    obtain ⟨hknown, rfl⟩ := directoryUrl_eq_ok.mp hd
    refine ⟨⟨hchallenge, ?_, ?_, hknown⟩, (ok.inj h).symm⟩
    · simpa using (Bool.or_eq_false_iff.mp hemail).2
    · by_contra hno
      push Not at hno
      simp [hno.1, hno.2] at hport
  · rintro ⟨hfits, rfl⟩
    refine ⟨hfits.challenge, ?_, ?_, bind_eq_ok.mpr ⟨_, directoryUrl_eq_ok.mpr ⟨hfits.directory, rfl⟩, rfl⟩⟩
    · have hne : cfg.email ≠ "" := by
        intro h
        have := hfits.email
        rw [h] at this
        cases this
      simp [hne, hfits.email]
    · rcases hfits.port with h | h
      · simp [h]
      · simp [h]

theorem parseConfig_of_readExtra {raw : String} {fields : List (String × Json)}
    (h : readExtra raw = .ok fields) : parseConfig raw =
      match Json.get? (.obj fields) "acme" with
      | none | some .null | some (.bool false) => .ok none
      | some acme => (decode acme).map some := by
  rw [readExtra] at h
  rw [parseConfig]
  split
  · rename_i hraw
    rw [if_pos hraw] at h
    rw [← ok.inj h]
    rfl
  · rename_i hraw
    rw [if_neg hraw] at h
    rw [h]
    rfl

/-! ### What the master admits -/

/-- What `validate_inbound` leaves of an inbound for the agent to rely on. -/
structure Admitted (row : Inbound) : Prop where
  tag : row.tag ≠ ""
  kind : row.kind ≠ ""
  extra : row.extra.isObject
  protocol : protocolSupported row.core row.kind
  network : networkSupported row.core row.network
  hysteria : row.kind = "hysteria2" → row.tlsEnabled ∧ row.reality = false
  files : row.tlsEnabled → row.reality = false → acmeEnabled row.extra = false →
    blank row.certPath = false ∧ blank row.keyPath = false
  acme : acmeEnabled row.extra → row.reality = false ∧ row.tlsEnabled
  timeout : trim row.udpIdleTimeout ≠ "" ∧ row.udpIdleTimeout.toList.all timeoutChar

theorem admitted_of_valid (h : validateInbound row = .ok ()) : Admitted row := by
  obtain ⟨hf, -, ⟨-, hsec, -⟩, ho⟩ := validateInbound_eq_ok.mp h
  simp only [validateEffectiveSecurity, then_eq_ok, reject_eq_ok] at hsec
  obtain ⟨hprotocol, hnetwork, htls, hreality, hfiles, -⟩ := hsec
  obtain ⟨htag, hkind⟩ := Bool.or_eq_false_iff.mp hf.names
  refine ⟨?_, ?_, ?_, ?_, ?_, ?_, ?_, ?_, ?_⟩
  · rintro h
    rw [h] at htag
    exact absurd htag (by decide)
  · rintro h
    rw [h] at hkind
    exact absurd hkind (by decide)
  · simpa using hf.extra
  · simpa using hprotocol
  · simpa using hnetwork
  · intro hk
    exact ⟨by simpa [hk] using htls, by simpa [hk] using hreality⟩
  · intro htls hreality hacme
    simpa [htls, hreality, hacme] using hfiles
  · exact fun hacme => ⟨ho.exclusive hacme, ho.tls hacme⟩
  · exact ⟨by simpa using hf.timeout, ho.timeout.2⟩

/-! ### One inbound -/

/-- The use of an inbound, if the agent accepts it. -/
def RowUse (m : Manager) (row : Inbound) (u : Use) : Prop :=
  match acmeOf row with
  | none => u = .off
  | some a => AcmeFits m row a ∧
      u = if servedByAgent row then .managed (rowRequest m row a) else .singbox (rowDomain m row)

section

variable {m : Manager} {db : Db} {row : Inbound} {ib : SpecInbound}

theorem buildTls_plain {tls : Option Tls} (htls : row.tlsEnabled) (hreality : row.reality = false)
    (h : buildTls row = .ok tls) : ∃ t, tls = some t ∧ t.enabled ∧ t.reality = none ∧
      t.serverName = row.serverName.getD "" ∧ t.certPath = row.certPath.getD "" ∧ t.keyPath = row.keyPath.getD "" := by
  rw [buildTls, if_pos (.inl htls), buildReality, hreality] at h
  obtain ⟨reality, hr, h⟩ := bind_eq_ok.mp h
  obtain rfl := ok.inj hr
  exact ⟨_, (ok.inj h).symm, htls, rfl, rfl, rfl, rfl⟩

variable (hrow : Admitted row) (hwf : wellFormed row.extra) (hb : Built db row ib)
include hrow hwf hb

theorem extraJson_built : ∃ fields, row.extra = .obj fields ∧ wellFormed (.obj (withTimeout row fields)) ∧
    readExtra ib.extraJson = .ok (withTimeout row fields) := by
  have hobj := hrow.extra
  cases hextra : row.extra with
  | obj fields =>
    rw [hextra] at hwf
    refine ⟨fields, rfl, wellFormed_withTimeout hwf, ?_⟩
    rw [hb.extraJson]
    exact readExtra_buildExtra (by rw [hextra]; rfl) hwf
  | null | bool b | int n | float t | str s | arr l => simp [hextra, Json.isObject] at hobj

theorem parseConfig_built : parseConfig ib.extraJson =
    match acmeOf row with
    | none => .ok none
    | some acme => (decode acme).map some := by
  obtain ⟨fields, hextra, -, hread⟩ := extraJson_built hrow hwf hb
  rw [parseConfig_of_readExtra hread, get?_withTimeout (by decide), acmeOf, acmeEnabled, hextra]
  cases Json.get? (.obj fields) "acme" with
  | none => rfl
  | some a => cases a with
    | bool b => cases b <;> rfl
    | null | int n | float t | str s | arr l | obj l => rfl

theorem inboundUse_built (u : Use) : inboundUse m ib = .ok u ↔ RowUse m row u := by
  have hparse := parseConfig_built hrow hwf hb
  rw [RowUse]
  cases ha : acmeOf row with
  | none =>
    rw [ha] at hparse
    rw [inboundUse_off hparse]
    exact ⟨fun h => (ok.inj h).symm, fun h => by rw [h]⟩
  | some a =>
    rw [ha] at hparse
    dsimp only at hparse
    have hon : acmeEnabled row.extra := by
      rw [acmeOf] at ha
      split at ha
      · assumption
      · cases ha
    obtain ⟨hreality, henabled⟩ := hrow.acme hon
    obtain ⟨t, htls, hten, htre, hname, -, -⟩ := buildTls_plain henabled hreality hb.tls
    have hordinary : ordinaryTls m.go ib = .ok t := by
      simp [ordinaryTls, htls, Option.filter, hten, htre]
    have hdomain : domainOf m.go t.serverName = rowDomain m row := by rw [hname, rowDomain]
    by_cases htyped : wellTyped a
    · have hcfg : parseConfig ib.extraJson = .ok (some (settingsOf a)) := by
        rw [hparse, decode, if_pos htyped]
        rfl
      rw [inboundUse_on hcfg hordinary, hb.type, hb.core, hdomain]
      simp only [managedRequest_eq_ok]
      cases hserved : servedByAgent row with
      | true =>
        rw [servedByAgent] at hserved
        simp only [hserved]
        constructor
        · rintro ⟨hhost, r, ⟨hfits, rfl⟩, rfl⟩
          exact ⟨⟨htyped, hhost, fun _ => hfits⟩, rfl⟩
        · rintro ⟨hfits, rfl⟩
          exact ⟨hfits.hostname, _, ⟨hfits.managed hserved, rfl⟩, rfl⟩
      | false =>
        rw [servedByAgent] at hserved
        simp only [hserved]
        constructor
        · rintro ⟨hhost, rfl⟩
          exact ⟨⟨htyped, hhost, fun h => by simp [servedByAgent, hserved] at h⟩, rfl⟩
        · rintro ⟨hfits, rfl⟩
          exact ⟨hfits.hostname, rfl⟩
    · have hcfg : ∃ e, parseConfig ib.extraJson = .error e := by
        rw [hparse, decode, if_neg htyped]
        exact ⟨_, rfl⟩
      obtain ⟨e, hcfg⟩ := hcfg
      rw [inboundUse, hcfg]
      constructor
      · intro hok
        cases hok
      · rintro ⟨hfits, -⟩
        exact absurd hfits.typed htyped

end

/-! ### A set of inbounds -/

theorem rowUse_managed {r : Request} : RowUse m row (.managed r) ↔
    ∃ a ∈ acmeOf row, AcmeFits m row a ∧ servedByAgent row ∧ r = rowRequest m row a := by
  rw [RowUse]
  rcases acmeOf row with _ | a
  · simp
  cases servedByAgent row with
  | true => simp
  | false => simp

theorem rowUse_singbox {d : String} : RowUse m row (.singbox d) ↔
    ∃ a ∈ acmeOf row, AcmeFits m row a ∧ ¬ servedByAgent row ∧ d = rowDomain m row := by
  rw [RowUse]
  rcases acmeOf row with _ | a
  · simp
  cases servedByAgent row with
  | true => simp
  | false => simp

section

variable {m : Manager} {db : Db} {rows : List Inbound} {ibs : List SpecInbound}
  (hspec : SpecOf db rows ibs) (hrows : ∀ row ∈ rows, Admitted row)
  (hwf : ∀ row ∈ rows, wellFormed row.extra)
include hspec hrows hwf

theorem exists_use_iff (u : Use) : (∃ ib ∈ ibs, inboundUse m ib = .ok u) ↔ ∃ row ∈ rows, RowUse m row u := by
  constructor
  · rintro ⟨ib, hib, hu⟩
    obtain ⟨row, hrow, hb⟩ := hspec.built ib hib
    exact ⟨row, hrow, (inboundUse_built (hrows row hrow) (hwf row hrow) hb u).mp hu⟩
  · rintro ⟨row, hrow, hu⟩
    obtain ⟨ib, hib, hb⟩ := hspec.covers row hrow
    exact ⟨ib, hib, (inboundUse_built (hrows row hrow) (hwf row hrow) hb u).mpr hu⟩

theorem all_use_iff : (∀ ib ∈ ibs, ∃ u, inboundUse m ib = .ok u) ↔
    ∀ row ∈ rows, ∀ a ∈ acmeOf row, AcmeFits m row a := by
  constructor
  · intro h row hrow a ha
    obtain ⟨ib, hib, hb⟩ := hspec.covers row hrow
    obtain ⟨u, hu⟩ := h ib hib
    have huse := (inboundUse_built (hrows row hrow) (hwf row hrow) hb u).mp hu
    rw [RowUse, Option.mem_def.mp ha] at huse
    exact huse.1
  · intro h ib hib
    obtain ⟨row, hrow, hb⟩ := hspec.built ib hib
    have huse : ∃ u, RowUse m row u := by
      cases ha : acmeOf row with
      | none => exact ⟨.off, by rw [RowUse, ha]⟩
      | some a => exact ⟨_, by rw [RowUse, ha]; exact ⟨h row hrow a ha, rfl⟩⟩
    obtain ⟨u, hu⟩ := huse
    exact ⟨u, (inboundUse_built (hrows row hrow) (hwf row hrow) hb u).mpr hu⟩

/-- The ACME part: the settings fit, the requests agree, and sing-box has none of their domains. -/
theorem prepare_built_iff {paths : String → String × String} {spec : NodeSpec} (hibs : spec.inbounds = ibs) :
    (∃ spec', prepare m (fun _ => .ok ()) paths spec = .ok spec') ↔ (∀ row ∈ rows, ∀ a ∈ acmeOf row, AcmeFits m row a) ∧
      (∀ row ∈ rows, ∀ row' ∈ rows, ∀ a ∈ acmeOf row, ∀ a' ∈ acmeOf row', servedByAgent row →
        servedByAgent row' → rowDomain m row = rowDomain m row' → rowRequest m row a = rowRequest m row' a') ∧
      ∀ row ∈ rows, ∀ row' ∈ rows, (acmeOf row).isSome → (acmeOf row').isSome → servedByAgent row →
        ¬ servedByAgent row' → rowDomain m row ≠ rowDomain m row' := by
  have huse := exists_use_iff (m := m) hspec hrows hwf
  rw [prepare_ok_iff, hibs, all_use_iff hspec hrows hwf]
  refine and_congr_right fun hfits => and_congr ?_ ?_
  · simp only [huse, rowUse_managed]
    constructor
    · intro hagree row hrow row' hrow' a ha a' ha' hs hs' hdomain
      exact hagree _ _ ⟨row, hrow, a, ha, hfits row hrow a ha, hs, rfl⟩
        ⟨row', hrow', a', ha', hfits row' hrow' a' ha', hs', rfl⟩ hdomain
    · rintro h r r' ⟨row, hrow, a, ha, -, hs, rfl⟩ ⟨row', hrow', a', ha', -, hs', rfl⟩ hdomain
      exact h row hrow row' hrow' a ha a' ha' hs hs' hdomain
  · constructor
    · intro h row hrow row' hrow' ha ha' hs hs' hdomain
      obtain ⟨a, ha⟩ := Option.isSome_iff_exists.mp ha
      obtain ⟨a', ha'⟩ := Option.isSome_iff_exists.mp ha'
      have hmanaged := (huse _).mpr ⟨row, hrow, rowUse_managed.mpr ⟨a, ha, hfits row hrow a ha, hs, rfl⟩⟩
      obtain ⟨ib, hib, hsingbox⟩ := (huse _).mpr
        ⟨row', hrow', rowUse_singbox.mpr ⟨a', ha', hfits row' hrow' a' ha', hs', hdomain⟩⟩
      exact h _ hmanaged ib hib hsingbox
    · intro h r hr ib hib hsingbox
      obtain ⟨row, hrow, hu⟩ := (huse _).mp hr
      obtain ⟨a, ha, -, hs, rfl⟩ := rowUse_managed.mp hu
      obtain ⟨row', hrow', hu'⟩ := (huse _).mp ⟨ib, hib, hsingbox⟩
      obtain ⟨a', ha', -, hs', hdomain⟩ := rowUse_singbox.mp hu'
      refine h row hrow row' hrow' (Option.isSome_iff_exists.mpr ⟨a, ha⟩)
        (Option.isSome_iff_exists.mpr ⟨a', ha'⟩) hs hs' hdomain

end

/-! ### The configs -/

theorem core_of_supported {core kind : String} (h : protocolSupported core kind) :
    core = "singbox" ∨ core = "xray" ∧ kind ≠ "hysteria2" := by
  unfold protocolSupported at h
  split at h
  · exact .inl rfl
  · refine .inr ⟨rfl, ?_⟩
    rintro rfl
    exact absurd h (by decide)
  · cases h

theorem serverOf_supported {core kind : String} (h : protocolSupported core kind) :
    (coreOfInbound kind core = .hysteria ↔ kind = "hysteria2") ∧ (coreOfInbound kind core = .xray ↔ core = "xray") := by
  rcases core_of_supported h with rfl | ⟨rfl, hkind⟩
  · by_cases hkind : kind = "hysteria2"
    · simp [coreOfInbound, hkind]
    · simp [coreOfInbound, hkind]
  · simp [coreOfInbound, hkind]

theorem buildTransport_supported {go : Go} (h : networkSupported "singbox" row.network) :
    ∃ t, Singbox.buildTransport go (buildTransport row) = .ok t := by
  rw [buildTransport]
  split
  · have hmem : row.network ∈ ["tcp", "ws", "grpc", "http", "h2", "httpupgrade", "quic"] :=
      of_decide_eq_true h
    simp only [mem_cons, not_mem_nil, or_false] at hmem
    rcases hmem with h | h | h | h | h | h | h
    all_goals simp [Singbox.buildTransport, h]
  · exact ⟨none, rfl⟩

section

variable {m : Manager} {db : Db} {rows : List Inbound} {spec : NodeSpec} {rs : Requests}
  {paths : String → String × String}

theorem coreSpec_prepared (k : ServerCore) : (coreSpec (rewriteSpec m paths rs spec) k).inbounds =
      (coreSpec spec k).inbounds.map (rewriteInbound m paths rs) := by
  have hserver : (fun ib => decide (serverOf ib = k)) ∘ rewriteInbound m paths rs =
      fun ib => decide (serverOf ib = k) := by
    funext ib
    simp [(kept_rewritten m paths rs ib).serverOf]
  simp [coreSpec, rewriteSpec, filter_map, hserver]

theorem mem_coreSpec (hspec : SpecOf db rows spec.inbounds) {k : ServerCore} {ib : SpecInbound}
    (h : ib ∈ (coreSpec spec k).inbounds) :
    ∃ row ∈ rows, Built db row ib ∧ ib ∈ spec.inbounds ∧ coreOfInbound row.kind row.core = k := by
  obtain ⟨hib, hk⟩ := mem_filter.mp h
  obtain ⟨row, hrow, hb⟩ := hspec.built ib hib
  refine ⟨row, hrow, hb, hib, ?_⟩
  rw [← hb.type, ← hb.core]
  exact of_decide_eq_true hk

variable (hspec : SpecOf db rows spec.inbounds) (hrows : ∀ row ∈ rows, Admitted row)
  (hwf : ∀ row ∈ rows, wellFormed row.extra)
include hspec hrows hwf

theorem prepared_ready {k : ServerCore} {ib' : SpecInbound}
    (h : ib' ∈ (coreSpec (rewriteSpec m paths rs spec) k).inbounds) :
    (ib'.tag ≠ "" ∧ ib'.type ≠ "") ∧ (∃ fs, readExtra ib'.extraJson = .ok fs) ∧ ∃ ib row,
      ib' = rewriteInbound m paths rs ib ∧ row ∈ rows ∧ Built db row ib ∧ coreOfInbound row.kind row.core = k := by
  rw [coreSpec_prepared] at h
  obtain ⟨ib, hib, rfl⟩ := mem_map.mp h
  obtain ⟨row, hrow, hb, -, hcore⟩ := mem_coreSpec hspec hib
  have hk := kept_rewritten m paths rs ib
  obtain ⟨fields, -, hwf', hread⟩ := extraJson_built (hrows row hrow) (hwf row hrow) hb
  obtain ⟨extra', hextra', -⟩ := hk.extra _ hread hwf'
  refine ⟨?_, ⟨extra', hextra'⟩, ib, row, rfl, hrow, hb, hcore⟩
  rw [hk.tag, hk.type, hb.tag, hb.type]
  exact ⟨(hrows row hrow).tag, (hrows row hrow).kind⟩

omit hrows hwf in
theorem prepared_tags_nodup (hnd : (rows.map (·.tag)).Nodup) (k : ServerCore) :
    ((coreSpec (rewriteSpec m paths rs spec) k).inbounds.map (·.tag)).Nodup := by
  rw [← hspec.tags] at hnd
  rw [coreSpec_prepared, map_map]
  have htag : ((·.tag) ∘ rewriteInbound m paths rs) = fun ib : SpecInbound => ib.tag := by
    funext ib
    exact (kept_rewritten m paths rs ib).tag
  rw [htag]
  exact hnd.sublist (filter_sublist.map _)

theorem singbox_built (hnd : (rows.map (·.tag)).Nodup) :
    ∃ cfg, Singbox.buildConfig m.go (coreSpec (rewriteSpec m paths rs spec) .singbox) = .ok cfg := by
  refine Singbox.buildConfig_ok (fun ib hib => (prepared_ready hspec hrows hwf hib).1)
    (prepared_tags_nodup hspec hnd _) fun ib hib => ?_
  obtain ⟨-, hextra, ib, row, rfl, hrow, hb, hcore⟩ := prepared_ready hspec hrows hwf hib
  have hadm := hrows row hrow
  have hk := kept_rewritten m paths rs ib
  have hcore : row.core = "singbox" := by
    rcases core_of_supported hadm.protocol with h | ⟨h, -⟩
    · exact h
    · rw [(serverOf_supported hadm.protocol).2.mpr h] at hcore
      cases hcore
  refine ⟨?_, hextra, ?_⟩
  · rw [hk.transport, hb.transport]
    exact buildTransport_supported (hcore ▸ hadm.network)
  · rcases upstreamOutbound_text hb.upstream with htext | ⟨fields, kind, htext, hout, -, htag⟩
    · exact ⟨none, by rw [Singbox.buildChain, hk.upstream, htext, if_pos rfl]⟩
    · exact ⟨_, buildChain_text (hk.upstream.trans htext) hout htag (chain_ne _)⟩

theorem xray_built {api : Option String} (hnd : (rows.map (·.tag)).Nodup) :
    ∃ cfg, XrayCore.buildConfig m.go api (coreSpec (rewriteSpec m paths rs spec) .xray) = .ok cfg := by
  refine XrayCore.buildConfig_ok (fun ib hib => (prepared_ready hspec hrows hwf hib).1)
    (prepared_tags_nodup hspec hnd _) fun ib hib => ?_
  obtain ⟨-, hextra, ib, row, rfl, hrow, hb, hcore⟩ := prepared_ready hspec hrows hwf hib
  have hprotocol := (hrows row hrow).protocol
  refine ⟨?_, hextra⟩
  rw [(kept_rewritten m paths rs ib).type, hb.type]
  intro hkind
  rw [(serverOf_supported hprotocol).1.mpr hkind] at hcore
  cases hcore

omit hspec hrows hwf in
theorem timeout_unsigned {row : Inbound} (hrow : Admitted row) :
    ∀ c ∈ row.udpIdleTimeout.toList, c ≠ '-' ∧ c ≠ '+' := by
  intro c hc
  have htime := all_eq_true.mp hrow.timeout.2 c hc
  constructor
  · rintro rfl
    exact absurd htime (by decide)
  · rintro rfl
    exact absurd htime (by decide)

omit hspec in
theorem certificate_built (hpaths : ∀ d, (paths d).1 ≠ "" ∧ (paths d).2 ≠ "")
    (hrs : requests m spec.inbounds ⟨[], []⟩ = .ok rs) {row : Inbound} {ib : SpecInbound}
    (hrow : row ∈ rows) (hib : ib ∈ spec.inbounds) (hb : Built db row ib) (hkind : row.kind = "hysteria2") :
    ∃ t, Hysteria.certificate m.go (rewriteInbound m paths rs ib) = .ok t := by
  have hadm := hrows row hrow
  have hserved : managed ib.type ib.core := by simp [managed, hb.type, hkind]
  obtain ⟨henabled, hreality⟩ := hadm.hysteria hkind
  obtain ⟨t, htls, hten, -, hname, hcert, hkey⟩ := buildTls_plain henabled hreality hb.tls
  rw [rewriteInbound, rewriteSingboxPort_managed m ib hserved, injectPaths, htls]
  dsimp only
  split
  · -- the domain has a request
    obtain ⟨hne, hne'⟩ := hpaths (domainOf m.go t.serverName)
    exact ⟨_, certificate_ok rfl hten hne hne'⟩
  rename_i hno
  -- it has none, so the inbound has no ACME and brings its own files
  have hoff : acmeEnabled row.extra = false := by
    by_contra hon
    rw [Bool.not_eq_false] at hon
    have hacme : ∃ a, acmeOf row = some a := by
      rw [acmeOf, if_pos hon]
      unfold acmeEnabled at hon
      cases hget : row.extra.get? "acme" with
      | none => simp [hget] at hon
      | some a => exact ⟨a, rfl⟩
    obtain ⟨a, ha⟩ := hacme
    obtain ⟨u, hu⟩ := ((requests_ok_iff (m := m) fun r _ hr => by cases hr).mp ⟨rs, hrs⟩).1 ib hib
    have huse := (inboundUse_built hadm (hwf row hrow) hb u).mp hu
    have hagent : servedByAgent row := by simp [servedByAgent, managed, hkind]
    rw [RowUse, ha] at huse
    rw [huse.2, if_pos hagent] at hu
    refine hno ⟨hserved, mem_map.mpr ⟨rowRequest m row a, ?_, ?_⟩⟩
    · exact ((mem_requests hrs).1 _).mpr (.inr ⟨ib, hib, hu⟩)
    · rw [hname]
      rfl
  obtain ⟨hcert', hkey'⟩ := hadm.files henabled hreality hoff
  rw [blank, ← hcert] at hcert'
  rw [blank, ← hkey] at hkey'
  exact ⟨t, certificate_ok htls hten (of_decide_eq_false hcert') (of_decide_eq_false hkey')⟩

/-- The config of Hysteria is built and passes exactly if there is one inbound at most, with a
    duration for its timeout. -/
theorem hysteria_built_iff (hpaths : ∀ d, (paths d).1 ≠ "" ∧ (paths d).2 ≠ "")
    (hrs : requests m spec.inbounds ⟨[], []⟩ = .ok rs) :
    ((coreSpec (rewriteSpec m paths rs spec) .hysteria).inbounds = [] ∨
      ∃ cfg, Hysteria.buildConfig m.go (coreSpec (rewriteSpec m paths rs spec) .hysteria) = .ok cfg ∧
        Hysteria.validate m.go cfg = none) ↔
    (rows.filter (·.kind = "hysteria2")).length ≤ 1 ∧ ∀ row ∈ rows, row.kind = "hysteria2" →
        Duration.IsDuration m.go.scaled row.udpIdleTimeout.toList := by
  have hcount : (coreSpec spec .hysteria).inbounds.length = (rows.filter (·.kind = "hysteria2")).length := by
    have hmap : ((spec.inbounds.map serverOf).filter (· = .hysteria)).length =
        (coreSpec spec .hysteria).inbounds.length := by
      rw [filter_map, length_map]
      rfl
    rw [← hmap, hspec.servers, filter_map, length_map]
    refine congrArg length (filter_congr fun row hrow => ?_)
    simp [(serverOf_supported (hrows row hrow).protocol).1]
  have hprepared : (coreSpec (rewriteSpec m paths rs spec) .hysteria).inbounds = _ := coreSpec_prepared .hysteria
  rw [← hcount]
  cases hlist : (coreSpec spec .hysteria).inbounds with
  | nil =>
    rw [hlist] at hprepared hcount
    have hnone : ∀ row ∈ rows, row.kind ≠ "hysteria2" := by
      simpa using length_eq_zero_iff.mp hcount.symm
    exact ⟨fun _ => ⟨Nat.zero_le 1, fun row hrow hkind => absurd hkind (hnone row hrow)⟩, fun _ => .inl hprepared⟩
  | cons ib rest =>
    cases rest with
    | cons ib₂ rest =>
      rw [hlist] at hprepared
      constructor
      · rintro (hnil | ⟨cfg, hbuild, -⟩)
        · rw [hprepared] at hnil
          cases hnil
        · rw [Hysteria.buildConfig, hprepared] at hbuild
          cases hbuild
      · rintro ⟨hone, -⟩
        simp at hone
    | nil =>
      rw [hlist] at hprepared hcount
      obtain ⟨row, hrow, hb, hib, hcore⟩ := mem_coreSpec hspec (hlist ▸ mem_cons_self)
      have hadm := hrows row hrow
      have hkind := (serverOf_supported hadm.protocol).1.mp hcore
      -- it is the only row of its kind
      obtain ⟨x, hx⟩ := length_eq_one_iff.mp hcount.symm
      have honly : ∀ row ∈ rows, row.kind = "hysteria2" → row = x := by
        intro row hrow hkind
        rw [← mem_singleton, ← hx, mem_filter]
        exact ⟨hrow, decide_eq_true hkind⟩
      obtain rfl := honly row hrow hkind
      obtain ⟨fields, -, hwf', hread⟩ := extraJson_built hadm (hwf row hrow) hb
      obtain ⟨t, hcert⟩ := certificate_built hrows hwf hpaths hrs hrow hib hb hkind
      have hserved : managed ib.type ib.core := by simp [managed, hb.type, hkind]
      have htype : (rewriteInbound m paths rs ib).type = "hysteria2" := by
        rw [(kept_rewritten m paths rs ib).type, hb.type, hkind]
      have hextra : readExtra (rewriteInbound m paths rs ib).extraJson = .ok (withTimeout row fields) := by
        rw [extraJson_rewritten, rewriteSingboxPort_managed m ib hserved, hread]
      have htime : Json.get? (.obj (withTimeout row fields)) "udpIdleTimeout" = some (.str row.udpIdleTimeout) := by
        rw [withTimeout, if_pos hkind, Json.get?_insertField, if_pos rfl, if_neg hadm.timeout.1]
      have haccept := accepts_iff hprepared htype hcert hextra hwf' htime
      rw [parse_isSome_iff (timeout_unsigned hadm)] at haccept
      rw [haccept, hprepared]
      constructor
      · rintro (hnil | hdur)
        · cases hnil
        · exact ⟨le_refl 1, fun row' hrow' hkind' => honly row' hrow' hkind' ▸ hdur⟩
      · rintro ⟨-, hdur⟩
        exact .inr (hdur row hrow hkind)

end

/-! ### The two validators -/

theorem candidate_ok_iff {srv : Server} {check : ServerCore → String → Option String} {spec : NodeSpec}
    {k : ServerCore} : (∃ x, candidate srv check spec k = .ok x) ↔ (coreSpec spec k).inbounds = [] ∨
      ∃ cfg, srv.buildConfig k (coreSpec spec k) = .ok cfg ∧ check k cfg = none := by
  rw [candidate]
  split
  · rename_i hnil
    exact ⟨fun _ => .inl hnil, fun _ => ⟨_, rfl⟩⟩
  rename_i hnil
  rcases srv.buildConfig k (coreSpec spec k) with e | cfg
  · simp [hnil]
  cases hcheck : check k cfg with
  | some e => simp [hnil, hcheck]
  | none => simp [hcheck]

section

variable {m : Manager} {api : Option String} {tools : Tools} {sha : String → String} {files : CertFiles}
  {db : Db} {rows : List Inbound} {spec : NodeSpec}

theorem accepted_iff_stages : Accepted m api tools sha files spec ↔
    ∃ spec', prepare m (fun _ => .ok ()) files.paths spec = .ok spec' ∧
      ∀ k ∈ kinds, ∃ x, candidate (serverWith m.go api tools sha) (ownCheck m.go) spec' k = .ok x := by
  have hstages : (∃ x, (prepare m (fun _ => .ok ()) files.paths spec >>=
      validateCandidate (serverWith m.go api tools sha) (ownCheck m.go)) = .ok x) ↔
      Accepted m api tools sha files spec := by
    rw [Accepted, dryRun]
    cases prepare m (fun _ => .ok ()) files.paths spec >>=
      validateCandidate (serverWith m.go api tools sha) (ownCheck m.go) with
    | error e => simp
    | ok x => simp
  rw [← hstages]
  simp only [bind_eq_ok, ← mapM_ok_iff]
  exact exists_comm.trans (exists_congr fun spec' => exists_and_left)

/-- The agent accepts what is built from admitted rows exactly if they are compatible. -/
theorem accepted_built_iff (hspec : SpecOf db rows spec.inbounds) (hrows : ∀ row ∈ rows, Admitted row)
    (hwf : ∀ row ∈ rows, wellFormed row.extra) (hnd : (rows.map (·.tag)).Nodup) :
    Accepted m api tools sha files spec ↔ Compatible m rows := by
  have hpaths : ∀ d, (files.paths d).1 ≠ "" ∧ (files.paths d).2 ≠ "" := fun d => ⟨files.cert_ne d, files.key_ne d⟩
  have hacme : (∃ spec', prepare m (fun _ => .ok ()) files.paths spec = .ok spec') ↔ _ :=
    prepare_built_iff hspec hrows hwf rfl
  -- once the spec is prepared, only Hysteria can object
  have hconfigs : ∀ spec', prepare m (fun _ => .ok ()) files.paths spec = .ok spec' →
      ((∀ k ∈ kinds, ∃ x, candidate (serverWith m.go api tools sha) (ownCheck m.go) spec' k = .ok x) ↔
        (rows.filter (·.kind = "hysteria2")).length ≤ 1 ∧ ∀ row ∈ rows, row.kind = "hysteria2" →
          Duration.IsDuration m.go.scaled row.udpIdleTimeout.toList) := by
    intro spec' hprepare
    obtain ⟨rs, hrs, -, -, rfl⟩ := prepare_eq_ok.mp hprepare
    rw [← hysteria_built_iff hspec hrows hwf hpaths hrs]
    simp only [kinds, forall_mem_cons, not_mem_nil, false_implies, implies_true, and_true, candidate_ok_iff]
    constructor
    · exact fun h => h.1
    · intro h
      obtain ⟨scfg, hscfg⟩ := singbox_built hspec hrows hwf hnd
      obtain ⟨xcfg, hxcfg⟩ := xray_built hspec hrows hwf hnd
      exact ⟨h, .inr ⟨scfg, hscfg, rfl⟩, .inr ⟨xcfg, hxcfg, rfl⟩⟩
  rw [accepted_iff_stages]
  constructor
  · rintro ⟨spec', hprepare, hcandidates⟩
    obtain ⟨hfits, hagree, hapart⟩ := hacme.mp ⟨spec', hprepare⟩
    obtain ⟨hsingle, htimeout⟩ := (hconfigs spec' hprepare).mp hcandidates
    exact ⟨hfits, hagree, hapart, hsingle, htimeout⟩
  · intro h
    obtain ⟨spec', hprepare⟩ := hacme.mpr ⟨h.acme, h.agree, h.apart⟩
    exact ⟨spec', hprepare, (hconfigs spec' hprepare).mpr ⟨h.single, h.timeout⟩⟩

end

/-- For every set of inbounds on a node that the master admits: the agent accepts the spec built from it
    exactly if the set is compatible. Tags of a node are unique, extra settings are JSON values. -/
theorem accepted_iff_compatible (m : Manager) (api : Option String) (tools : Tools)
    (sha : String → String) (files : CertFiles) (env : Env) (keys : Keys) (db : Db) (node : Uuid)
    (now : ℤ) (rows : List Inbound) (spec : NodeSpec) (hrows : enabledNodeInbounds env db node = .ok rows)
    (hvalid : ∀ row ∈ rows, validateInbound row = .ok ())
    (htags : (rows.map (·.tag)).Nodup) (hextra : ∀ row ∈ rows, wellFormed row.extra)
    (hspec : (buildNodeSpec env keys db node now).2 = .ok spec) :
    Accepted m api tools sha files spec ↔ Compatible m rows :=
  accepted_built_iff (specOf_of_build hrows hspec) (fun row hrow => admitted_of_valid (hvalid row hrow)) hextra htags

variable (timeout : String)

/-- A Hysteria inbound with files of its own. -/
def hysteriaRow : Inbound :=
  { plainInbound with
    kind := "hysteria2"
    tlsEnabled := true
    certPath := some "/c.pem"
    keyPath := some "/k.pem"
    extra := .obj []
    udpIdleTimeout := timeout }

/-- Node 1 with this inbound. -/
def hysteriaNode : Db :=
  { limited with inbounds := Table.empty.put (hysteriaRow timeout) }

def plainManager : Manager := ⟨plainGo, 9080, 9082, "production"⟩

def plainFiles : CertFiles := ⟨fun _ => ("/c", "/k"), fun _ => by decide, fun _ => by decide⟩

theorem hysteriaNode_rows :
    enabledNodeInbounds plainEnv (hysteriaNode timeout) 1 = .ok [hysteriaRow timeout] := rfl

theorem hysteriaNode_builds :
    ∃ spec, (buildNodeSpec plainEnv plainCall.keys (hysteriaNode timeout) 1 0).2 = .ok spec := ⟨_, rfl⟩

theorem minute_accepted : ∃ spec, (buildNodeSpec plainEnv plainCall.keys (hysteriaNode "1m") 1 0).2 = .ok spec ∧
      Accepted plainManager none plainServer.tools id plainFiles spec := by
  obtain ⟨spec, hspec⟩ := hysteriaNode_builds "1m"
  have hvalid : validateInbound (hysteriaRow "1m") = .ok () := by decide
  have hoff : acmeOf (hysteriaRow "1m") = none := rfl
  have hminute : Duration.IsDuration plainManager.go.scaled (hysteriaRow "1m").udpIdleTimeout.toList :=
    (parse_isSome_iff (timeout_unsigned (admitted_of_valid hvalid))).mp (by decide +kernel)
  refine ⟨spec, hspec, (accepted_iff_compatible plainManager none plainServer.tools id plainFiles plainEnv
    plainCall.keys _ 1 0 _ spec (hysteriaNode_rows "1m") (by simpa using hvalid) (by decide)
    (by simp [hysteriaRow, wellFormed_obj, wellFormedFields]) hspec).mpr ?_⟩
  exact ⟨by simp [hoff], by simp [hoff], by simp, by decide, by simpa using fun _ => hminute⟩

/-- Five days are a timeout to the master and none to the agent. -/
theorem days_rejected : enabledNodeInbounds plainEnv (hysteriaNode "5d") 1 = .ok [hysteriaRow "5d"] ∧
    validateInbound (hysteriaRow "5d") = .ok () ∧ wellFormed (hysteriaRow "5d").extra ∧
    ∃ spec, (buildNodeSpec plainEnv plainCall.keys (hysteriaNode "5d") 1 0).2 = .ok spec ∧
      ¬ Accepted plainManager none plainServer.tools id plainFiles spec := by
  obtain ⟨spec, hspec⟩ := hysteriaNode_builds "5d"
  have hvalid : validateInbound (hysteriaRow "5d") = .ok () := by decide
  have hwf : wellFormed (hysteriaRow "5d").extra := by decide
  refine ⟨hysteriaNode_rows "5d", hvalid, hwf, spec, hspec, fun haccepted => ?_⟩
  have hcompatible := (accepted_built_iff (specOf_of_build (hysteriaNode_rows "5d") hspec)
    (by simpa using admitted_of_valid hvalid) (by simpa using hwf) (by decide)).mp haccepted
  have hduration := hcompatible.timeout _ mem_cons_self rfl
  have hparse := (parse_isSome_iff (timeout_unsigned (admitted_of_valid hvalid))).mpr hduration
  revert hparse
  decide +kernel

end Honey
