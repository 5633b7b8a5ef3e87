import Honey.Agent.Apply
import Honey.Agent.Config
import Honey.Master.Inbounds
import Honey.Master.Rebuild

/-! What an inbound is on its way from the database of the master to the config builders of the agent.

        row -- build_node_spec --> pb::Inbound -- json.Unmarshal --> extra settings
                                                                +--> outbound of the chain

    The agent reads back what the master has written: the extra settings field by field, and the outbound
    of a chain with its type and its tag. The hop range of a Hysteria inbound goes to its clients as well. -/

namespace Honey
open Honey.Agent Honey.Master Honey.Schemes Json Option Except

/-! ### The extra settings -/

/-- The fields of extra settings; `null` has none. -/
def extraObject : Json → Option (List (String × Json))
  | .null => some []
  | .obj fields => some fields
  | _ => none

/-- The fields that travel: hysteria's idle timeout is one of them. -/
def withTimeout (row : Inbound) (fields : List (String × Json)) : List (String × Json) :=
  if row.kind = "hysteria2" then insertField "udpIdleTimeout"
    (.str (if trim row.udpIdleTimeout = "" then "60s" else row.udpIdleTimeout)) fields
  else fields

theorem render_obj_ne (fields : List (String × Json)) : render (.obj fields) ≠ "" := by
  intro h
  have := congrArg String.toList h
  simp [render, chars] at this

variable {row : Inbound} {fields : List (String × Json)} {db : Db}

theorem wellFormed_withTimeout (h : wellFormed (.obj fields)) : wellFormed (.obj (withTimeout row fields)) := by
  rw [withTimeout]
  split
  · exact wellFormed_insertField h rfl
  · exact h

/-- The agent reads them back. -/
theorem readExtra_buildExtra (h : extraObject row.extra = some fields) (hwf : wellFormed (.obj fields)) :
    readExtra (buildExtra row) = .ok (withTimeout row fields) := by
  have hobj : row.extra = .null ∧ fields = [] ∨ row.extra = .obj fields := by
    cases hextra : row.extra with
    | null => exact .inl ⟨rfl, by simpa [hextra, extraObject] using h.symm⟩
    | obj fs => exact .inr (by simpa [hextra, extraObject] using h)
    | bool b | int n | float t | str s | arr l => simp [hextra, extraObject] at h
  have hbuild : buildExtra row = match withTimeout row fields with
      | [] => ""
      | f :: fs => render (.obj (f :: fs)) := by
    rw [buildExtra, withTimeout]
    by_cases hkind : row.kind = "hysteria2"
    · rcases hobj with ⟨hextra, rfl⟩ | hextra
      · simp only [hextra, if_pos hkind]
        rfl
      · simp only [hextra, if_pos hkind, Json.set]
        cases Json.insertField "udpIdleTimeout" _ fields <;> rfl
    · rcases hobj with ⟨hextra, rfl⟩ | hextra
      · simp [hextra, if_neg hkind]
      · simp only [hextra, if_neg hkind]
        cases fields <;> rfl
  have hwf' : wellFormed (.obj (withTimeout row fields)) := wellFormed_withTimeout hwf
  rw [hbuild]
  rcases hx : withTimeout row fields with _ | ⟨f, fs⟩
  · rfl
  rw [hx] at hwf'
  rw [readExtra, if_neg (render_obj_ne _), unmarshalMap_render hwf']

theorem get?_withTimeout {key : String} (hkey : key ≠ "udpIdleTimeout") :
    get? (.obj (withTimeout row fields)) key = get? (.obj fields) key := by
  rw [withTimeout]
  split
  · rw [get?_insertField, if_neg (Ne.symm hkey)]
  · rfl

/-! ### The inbounds of a spec -/

/-- What the agent sees of a row. -/
structure Built (db : Db) (row : Inbound) (ib : SpecInbound) : Prop where
  core : ib.core = row.core
  tag : ib.tag = row.tag
  type : ib.type = row.kind
  tls : buildTls row = .ok ib.tls
  extraJson : ib.extraJson = buildExtra row
  transport : ib.transport = buildTransport row
  upstream : upstreamOutbound db row = .ok ib.upstreamOutboundJson

theorem built_of_buildInbound {env : Env} {active : List User} {ib : SpecInbound}
    (h : buildInbound env db active row = .ok ib) : Built db row ib := by
  obtain ⟨port, chain, upstream, tls, -, -, hupstream, htls, rfl⟩ := buildInbound_eq_ok.mp h
  exact ⟨rfl, rfl, rfl, htls, rfl, rfl, hupstream⟩

/-- The inbounds of the spec are those of the rows, in order. -/
structure SpecOf (db : Db) (rows : List Inbound) (ibs : List SpecInbound) : Prop where
  built : ∀ ib ∈ ibs, ∃ row ∈ rows, Built db row ib
  covers : ∀ row ∈ rows, ∃ ib ∈ ibs, Built db row ib
  tags : ibs.map (·.tag) = rows.map (·.tag)
  servers : ibs.map serverOf = rows.map fun row => coreOfInbound row.kind row.core

theorem specOf_of_mapM {env : Env} {active : List User} {rows : List Inbound} {ibs : List SpecInbound}
    (h : rows.mapM (buildInbound env db active) = .ok ibs) : SpecOf db rows ibs := by
  refine ⟨fun ib hib => ?_, fun row hrow => ?_, ?_, ?_⟩
  · obtain ⟨row, hrow, hb⟩ := mapM_mem h ib hib
    exact ⟨row, hrow, built_of_buildInbound hb⟩
  · obtain ⟨ib, hib, hb⟩ := mem_mapM h row hrow
    exact ⟨ib, hib, built_of_buildInbound hb⟩
  · exact mapM_keeps (fun row ib hb => (built_of_buildInbound hb).tag) h
  · refine mapM_keeps (fun row ib hb => ?_) h
    have hb := built_of_buildInbound hb
    rw [serverOf, hb.type, hb.core]

theorem specOf_of_build {env : Env} {keys : Keys} {node : Uuid} {now : ℤ} {rows : List Inbound} {spec : NodeSpec}
    (hrows : enabledNodeInbounds env db node = .ok rows) (hspec : (buildNodeSpec env keys db node now).2 = .ok spec) :
    SpecOf db rows spec.inbounds := by
  obtain ⟨active, -, -, hinbounds, -⟩ := buildNodeSpec_ok (Prod.ext rfl hspec)
  simp only [buildInbounds, bind_eq_ok, hrows] at hinbounds
  obtain ⟨_, ⟨rfl⟩, users, -, ibs, hibs, h⟩ := hinbounds
  obtain ⟨rfl, rfl⟩ := Prod.mk.inj (ok.inj h)
  exact specOf_of_mapM hibs

/-! ### The outbound of a chain -/

/-- An outbound as sing-box takes it. -/
structure IsOutbound (kind : String) (j : Json) : Prop where
  wellFormed : wellFormed j
  object : j.isObject
  type : j.get? "type" = some (.str kind)

theorem get?_set {j v : Json} {k key : String} (hobj : j.isObject) :
    (j.set k v).get? key = if k = key then some v else j.get? key := by
  cases j with
  | obj fields => exact get?_insertField k key v fields
  | null | bool b | int n | float t | str s | arr l => cases hobj

theorem isObject_set {j v : Json} {k : String} (hobj : j.isObject) : (j.set k v).isObject := by
  cases j with
  | obj fields => rfl
  | null | bool b | int n | float t | str s | arr l => cases hobj

attribute [local simp] wellFormed

section

variable {kind : String} {j v : Json} {k : String}

theorem IsOutbound.set (h : IsOutbound kind j) (hk : k ≠ "type") (hv : Agent.wellFormed v) :
    IsOutbound kind (j.set k v) :=
  ⟨wellFormed_set h.wellFormed hv, isObject_set h.object, by rw [get?_set h.object, if_neg hk, h.type]⟩

theorem IsOutbound.setOption {v : Option Json} (h : IsOutbound kind j) (hk : k ≠ "type")
    (hv : ∀ w ∈ v, Agent.wellFormed w) : IsOutbound kind (j.setOption k v) := by
  cases v with
  | none => exact h
  | some w => exact h.set hk (hv w rfl)

end

section

variable {uuid username password : String} {e : SubscriptionEndpoint} {j : Json}

/-- The kinds with an outbound. -/
def outboundKinds : List String := ["vless", "vmess", "hysteria2", "trojan", "tuic", "shadowsocks"]

theorem isOutbound_object {fields : List (String × Json)} {kind : String}
    (hwf : ∀ f ∈ fields, wellFormed f.2) (htype : ∀ f ∈ fields, f.1 ≠ "type") :
    IsOutbound kind (.object (("type", .str kind) :: fields)) := by
  refine ⟨wellFormed_object (List.forall_mem_cons.mpr ⟨rfl, hwf⟩), rfl, ?_⟩
  rw [get?_object_cons]
  have hnone : (object fields).get? "type" = none := by
    induction fields with
    | nil => rfl
    | cons f fields ih =>
      obtain ⟨hf, htype⟩ := List.forall_mem_cons.mp htype
      rw [get?_object_cons, ih (fun g hg => hwf g (List.mem_cons_of_mem _ hg)) htype, if_neg hf]
      rfl
  rw [hnone]
  rfl

theorem singboxProtocol_ok (h : singboxProtocol uuid username password e = .ok j) :
    IsOutbound e.kind j ∧ e.kind ∈ outboundKinds := by
  unfold singboxProtocol at h
  split at h
  case h_6 hkind =>
    refine ⟨?_, by simp [outboundKinds, hkind]⟩
    split at h
    · cases h
    split at h
    · obtain rfl := ok.inj h
      exact ((isOutbound_object (by simp) (by simp)).set (by decide) rfl).set (by decide) rfl
    · obtain rfl := ok.inj h
      exact isOutbound_object (by simp) (by simp)
  case h_7 => cases h
  -- the other protocols are one object
  all_goals
    rename_i hkind
    obtain rfl := ok.inj h
    exact ⟨isOutbound_object (by simp) (by simp), by simp [outboundKinds, hkind]⟩

theorem wellFormed_ofOption (s : Option String) : wellFormed (.ofOption s) := by
  cases s with
  | none => rfl
  | some s => rfl

theorem wellFormed_singboxTls (e : SubscriptionEndpoint) : wellFormed (singboxTls e) := by
  have hbase : wellFormed (.object [("enabled", .bool true), ("server_name", .str (e.serverName.getD e.address))]) :=
    wellFormed_object (by simp)
  have hutls : ∀ fp : Option String, ∀ w ∈ fp.map (fun fp => object [("enabled", .bool true),
      ("fingerprint", .str fp)]), wellFormed w := by
    intro fp w hw
    obtain ⟨s, -, rfl⟩ := map_eq_some_iff.mp hw
    exact wellFormed_object (by simp)
  have hreality : wellFormed (.object [("enabled", .bool true),
      ("public_key", .ofOption e.realityPublicKey), ("short_id", .ofOption e.realityShortIds.head?)]) :=
    wellFormed_object (by simp [wellFormed_ofOption])
  have hech : wellFormed (.object [("enabled", .bool true)]) := wellFormed_object (by simp)
  unfold singboxTls
  dsimp only
  split
  · split
    · exact wellFormed_set (wellFormed_setOption (wellFormed_set hbase hreality) (hutls _)) hech
    · exact wellFormed_set (wellFormed_setOption hbase (hutls _)) hech
  · split
    · exact wellFormed_setOption (wellFormed_set hbase hreality) (hutls _)
    · exact wellFormed_setOption hbase (hutls _)

theorem wellFormed_singboxTransport {t : Option Json} (h : singboxTransport e = .ok t) : ∀ w ∈ t, wellFormed w := by
  have hone : ∀ type, wellFormed (.object [("type", .str type)]) := fun type => wellFormed_object (by simp)
  have hset : ∀ {j : Json} {key : String} {s : Option String} {f : String → Json}, wellFormed j →
      (∀ s, wellFormed (f s)) → wellFormed (j.setOption key (s.map f)) := by
    intro j key s f hj hf
    refine wellFormed_setOption hj fun w hw => ?_
    obtain ⟨s, -, rfl⟩ := map_eq_some_iff.mp hw
    exact hf s
  intro w hw
  unfold singboxTransport at h
  split at h
  all_goals cases h
  all_goals cases hw
  case h_4 => exact wellFormed_object (by simp)
  case h_8 => exact hone _
  -- http, h2 and httpupgrade
  all_goals exact hset (hset (hone _) fun _ => rfl) fun _ => rfl

theorem singboxOutbound_ok (h : singboxOutbound uuid username password e = .ok j) :
    IsOutbound e.kind j ∧ e.kind ∈ outboundKinds := by
  obtain ⟨outbound, hprotocol, h⟩ := bind_eq_ok.mp h
  obtain ⟨t, ht, h⟩ := bind_eq_ok.mp h
  obtain ⟨hbase, hkind⟩ := singboxProtocol_ok hprotocol
  rw [← ok.inj h]
  refine ⟨IsOutbound.setOption ?_ (by decide) (wellFormed_singboxTransport ht), hkind⟩
  have hports : ∀ w ∈ (hopPorts e).map (fun ports => arr [.str (colonRange ports)]), wellFormed w := by
    intro w hw
    obtain ⟨ports, -, rfl⟩ := map_eq_some_iff.mp hw
    rfl
  split
  · split
    · exact (hbase.setOption (by decide) hports).set (by decide) (wellFormed_singboxTls e)
    · exact hbase.set (by decide) (wellFormed_singboxTls e)
  · split
    · exact hbase.setOption (by decide) hports
    · exact hbase

end

theorem upstreamOutbound_text {text : String} (h : upstreamOutbound db row = .ok text) : text = "" ∨ ∃ fields kind,
      text = render (.obj fields) ∧ IsOutbound kind (.obj fields) ∧ kind ∈ outboundKinds ∧
      get? (.obj fields) "tag" = some (.str ("chain-" ++ row.tag)) := by
  rw [upstreamOutbound] at h
  split at h
  · rw [buildChainOutbound] at h
    split at h
    · exact .inl (ok.inj h).symm
    split at h
    · obtain ⟨outbound, hout, h⟩ := bind_eq_ok.mp h
      obtain ⟨hout, hkind⟩ := singboxOutbound_ok hout
      have hset := hout.set (k := "tag") (by decide) (v := .str ("chain-" ++ row.tag)) rfl
      obtain ⟨fields, hfields⟩ : ∃ fields, outbound.set "tag" (.str ("chain-" ++ row.tag)) = .obj fields := by
        cases outbound with
        | obj fs => exact ⟨_, rfl⟩
        | null | bool b | int n | float t | str s | arr l => cases hout.object
      refine .inr ⟨fields, _, ?_, hfields ▸ hset, hkind, ?_⟩
      · rw [← ok.inj h, hfields]
      · rw [← hfields, get?_set hout.object, if_pos rfl]
    · exact .inl (ok.inj h).symm
  · exact .inl (ok.inj h).symm

/-- The agent takes the outbound of a chain as it was built. -/
theorem buildChain_text {go : Go} {ib : SpecInbound} {kind tag : String}
    (htext : ib.upstreamOutboundJson = render (.obj fields)) (hout : IsOutbound kind (.obj fields))
    (htag : get? (.obj fields) "tag" = some (.str tag)) (hne : tag ≠ "") :
    Singbox.buildChain go ib = .ok (some (.obj fields, tag)) := by
  have hfield : field (.obj fields) "tag" = tag := by
    rw [field, htag]
    rfl
  rw [Singbox.buildChain, htext, if_neg (render_obj_ne fields), unmarshalMap_render hout.wellFormed]
  simp [withPrefix, hfield, hne, bind, Except.bind]

theorem chain_ne (tag : String) : "chain-" ++ tag ≠ "" := by
  intro h
  have := congrArg String.toList h
  simp at this

/-! ### Hop ranges -/

open List

/-- The rule takes a packet to a UDP port. -/
abbrev Agent.HopRule.Covers (r : HopRule) (port : ℕ) : Prop := r.start ≤ port ∧ port ≤ r.last

/-- No port is taken by both. -/
def Agent.HopRule.Apart (r r' : HopRule) : Prop := ∀ port, ¬ (r.Covers port ∧ r'.Covers port)

instance : Std.Symm HopRule.Apart := ⟨fun _ _ h port hc => h port hc.symm⟩

/-- Where the firewall sends a packet: the first rule that takes it decides. -/
def redirect (table : List HopRule) (port : ℕ) : Option ℕ := (table.find? (·.Covers port)).map (·.port)

/-- The text that clients get for an inbound, which the `mport` of a link has as it is. -/
def HopText (row : Inbound) (text : String) : Prop :=
  row.kind = "hysteria2" ∧ ∃ e : SubscriptionEndpoint, e.extra = row.extra ∧ Master.hopPorts e = some text

def hopRange (sep : String) (first last : ℕ) : String := toString first ++ sep ++ toString last

section Hops

variable (parse : String → Json) (spec : Inbound → SpecInbound) (rows : List Inbound)

/-- The table of the firewall, with nft there and no command that fails. -/
def hopTable : List HopRule := Firewall.apply ⟨true, true, true⟩ ((rows.map spec).filterMap (hopRule parse)) []

/-- Clients get the range that is redirected to the inbound, sing-box with a colon, and no port is in two ranges. -/
structure HopsMeet : Prop where
  met : ∀ row ∈ rows, ∀ text, HopText row text → ∃ first last, first ≤ last ∧
    text = hopRange "-" first last ∧ colonRange text = hopRange ":" first last ∧
    ∀ port, redirect (hopTable parse spec rows) port = some (spec row).listenPort ↔ first ≤ port ∧ port ≤ last
  single : (hopTable parse spec rows).Pairwise HopRule.Apart

/-- The text that the agent reads in the extra settings of an inbound. -/
def agentText (row : Inbound) : Option String :=
  if (spec row).type ≠ "hysteria2" ∨ (spec row).extraJson = "" then none
  else Agent.hopPorts (parse (spec row).extraJson)

/-- Every text is a range of ports, two numbers with a hyphen; the agent reads a text that says the same; and of any two
    texts that the agent reads as ranges, one ends before the other begins. -/
structure HopsPlain : Prop where
  plain : ∀ row ∈ rows, ∀ text, HopText row text → ∃ first last, text = hopRange "-" first last ∧
    1 ≤ first ∧ first ≤ last ∧ last ≤ 65535 ∧ (agentText parse spec row).bind parseHopRange = parseHopRange text
  apart : (rows.filterMap fun row => (agentText parse spec row).bind parseHopRange).Pairwise
    fun r r' => r.2 < r'.1 ∨ r'.2 < r.1

variable {parse spec rows}

theorem isDigit_of_mem {n : ℕ} {c : Char} (h : c ∈ (toString n).toList) : c.isDigit = true := by
  rw [Nat.toString_eq_ofList_toDigits, String.toList_ofList] at h
  exact Nat.isDigit_of_mem_toDigits (by omega) (by omega) h

theorem atoi_toString (n : ℕ) : atoi (trim (toString n)).toList = some (n : ℤ) := by
  rw [trim_eq_self fun c hc => isWhitespace_of_isDigit (isDigit_of_mem hc)]
  unfold atoi
  split
  · rename_i ds hds
    exact absurd (isDigit_of_mem (hds ▸ mem_cons_self : '-' ∈ (toString n).toList)) (by decide)
  · rename_i ds hds
    exact absurd (isDigit_of_mem (hds ▸ mem_cons_self : '+' ∈ (toString n).toList)) (by decide)
  · rw [Nat.toString_eq_ofList_toDigits, String.toList_ofList, decimal_toDigits]
    rfl

theorem parseHopRange_hopRange (first last : ℕ) : parseHopRange (hopRange "-" first last) =
    if 1 ≤ first ∧ first ≤ last ∧ last ≤ 65535 then some (first, last) else none := by
  have hsplit : splitOnce '-' (hopRange "-" first last).toList =
      some ((toString first).toList, (toString last).toList) := by
    have htext : (hopRange "-" first last).toList = (toString first).toList ++ '-' :: (toString last).toList := by
      simp [hopRange]
    rw [htext]
    exact splitOnce_append _ fun h => absurd (isDigit_of_mem h) (by decide)
  simp only [parseHopRange, hsplit, bind_eq_bind, bind_some, String.ofList_toList, atoi_toString]
  split
  · rw [if_neg (by omega)]
  · rw [if_pos (by omega)]
    rfl

theorem parseHopRange_le {text : String} {r : ℕ × ℕ} (h : parseHopRange text = some r) :
    1 ≤ r.1 ∧ r.1 ≤ r.2 ∧ r.2 ≤ 65535 := by
  simp only [parseHopRange, bind_eq_bind, bind_eq_some_iff] at h
  obtain ⟨_, -, a, -, b, -, h⟩ := h
  split at h
  · cases h
  obtain rfl := some.inj h
  dsimp only
  omega

/-- The agent redirects what it reads as a range to the port of the inbound. -/
theorem hopRule_eq (row : Inbound) : hopRule parse (spec row) =
    ((agentText parse spec row).bind parseHopRange).map fun r => ⟨r.1, r.2, (spec row).listenPort⟩ := by
  rw [hopRule, agentText]
  split
  · rfl
  cases Agent.hopPorts (parse (spec row).extraJson) with
  | none => rfl
  | some ports =>
    by_cases hports : ports = ""
    · subst hports
      rfl
    · simp only [bind_eq_bind, bind_some, if_neg hports]
      cases parseHopRange ports <;> rfl

theorem hopRule_ok {row : Inbound} {r : HopRule} (h : hopRule parse (spec row) = some r) :
    r.port = (spec row).listenPort ∧ r.start ≤ r.last := by
  rw [hopRule_eq] at h
  obtain ⟨x, hx, rfl⟩ := map_eq_some_iff.mp h
  obtain ⟨text, -, hparse⟩ := bind_eq_some_iff.mp hx
  exact ⟨rfl, (parseHopRange_le hparse).2.1⟩

theorem hopTable_eq : hopTable parse spec rows = rows.filterMap fun row => hopRule parse (spec row) := by
  simp [hopTable, Firewall.apply, filterMap_map]

theorem mem_hopTable {r : HopRule} :
    r ∈ hopTable parse spec rows ↔ ∃ row ∈ rows, hopRule parse (spec row) = some r := by
  rw [hopTable_eq, mem_filterMap]

theorem colonRange_hopRange (first last : ℕ) : colonRange (hopRange "-" first last) = hopRange ":" first last := by
  have hdigits : ∀ n : ℕ, (toString n).toList.map (fun c => if c = '-' then ':' else c) = (toString n).toList := by
    intro n
    refine (map_congr_left fun c hc => if_neg ?_).trans (map_id _)
    rintro rfl
    exact absurd (isDigit_of_mem hc) (by decide)
  rw [colonRange, hopRange, String.toList_append, String.toList_append, map_append, map_append,
    hdigits, hdigits, String.ofList_append, String.ofList_append, String.ofList_toList, String.ofList_toList]
  rfl

/-- With ports of their own, and rules that leave each other alone, inbounds get what their rules take. -/
theorem redirect_iff (hports : (rows.map fun row => (spec row).listenPort).Nodup)
    (hsingle : (hopTable parse spec rows).Pairwise HopRule.Apart) {row : Inbound} (hrow : row ∈ rows) (port : ℕ) :
    redirect (hopTable parse spec rows) port = some (spec row).listenPort ↔
      ∃ r, hopRule parse (spec row) = some r ∧ r.Covers port := by
  constructor
  · intro h
    obtain ⟨r, hfind, hport⟩ := map_eq_some_iff.mp h
    obtain ⟨row', hrow', hr⟩ := mem_hopTable.mp (mem_of_find?_eq_some hfind)
    obtain rfl := inj_on_of_nodup_map hports hrow' hrow ((hopRule_ok hr).1.symm.trans hport)
    exact ⟨r, hr, by simpa using find?_some hfind⟩
  · rintro ⟨r, hr, hcovers⟩
    have hmem := mem_hopTable.mpr ⟨row, hrow, hr⟩
    have hsome : ((hopTable parse spec rows).find? (·.Covers port)).isSome :=
      find?_isSome.mpr ⟨r, hmem, decide_eq_true hcovers⟩
    obtain ⟨r', hfind⟩ := isSome_iff_exists.mp hsome
    have hcovers' : r'.Covers port := by simpa using find?_some hfind
    have hsame : r' = r := by
      by_contra hne
      exact hsingle.forall (mem_of_find?_eq_some hfind) hmem hne port ⟨hcovers', hcovers⟩
    rw [redirect, hfind, hsame, map_some, (hopRule_ok hr).1]

theorem spec_ports_nodup {env : Env} {db : Db} {active : List User}
    (hspec : ∀ row ∈ rows, buildInbound env db active row = .ok (spec row)) (hports : (rows.map (·.listenPort)).Nodup) :
    (rows.map fun row => (spec row).listenPort).Nodup := by
  refine (nodup_map_iff_inj_on hports.of_map).mpr fun a ha b hb hab => ?_
  obtain ⟨p, _, _, _, hp, -, -, -, hsa⟩ := buildInbound_eq_ok.mp (hspec a ha)
  obtain ⟨q, _, _, _, hq, -, -, -, hsb⟩ := buildInbound_eq_ok.mp (hspec b hb)
  refine inj_on_of_nodup_map hports ha hb ?_
  rw [hsa, hsb] at hab
  simp only [portIn, ite_none_right_eq_some, some.injEq] at hp hq
  have : p = q := hab
  omega

theorem hopTable_apart_iff : (hopTable parse spec rows).Pairwise HopRule.Apart ↔
    (rows.filterMap fun row => (agentText parse spec row).bind parseHopRange).Pairwise
      fun r r' => r.2 < r'.1 ∨ r'.2 < r.1 := by
  simp only [hopTable_eq, pairwise_filterMap, hopRule_eq, map_eq_some_iff, forall_exists_index, and_imp,
    forall_apply_eq_imp_iff₂]
  refine Pairwise.iff fun {row row'} => forall₂_congr fun r hr => forall₂_congr fun r' hr' => ?_
  obtain ⟨text, -, hparse⟩ := bind_eq_some_iff.mp hr
  obtain ⟨text', -, hparse'⟩ := bind_eq_some_iff.mp hr'
  have hle := (parseHopRange_le hparse).2.1
  have hle' := (parseHopRange_le hparse').2.1
  constructor
  · intro h
    have hmax := h (max r.1 r'.1)
    simp only [HopRule.Covers] at hmax
    omega
  · rintro h port ⟨hc, hc'⟩
    simp only [HopRule.Covers] at hc hc'
    omega

theorem hopRule_eq_some_iff {row : Inbound} {first last : ℕ} :
    hopRule parse (spec row) = some ⟨first, last, (spec row).listenPort⟩ ↔ 1 ≤ first ∧ first ≤ last ∧ last ≤ 65535 ∧
      (agentText parse spec row).bind parseHopRange = parseHopRange (hopRange "-" first last) := by
  rw [hopRule_eq, parseHopRange_hopRange]
  constructor
  · intro h
    obtain ⟨x, hx, heq⟩ := map_eq_some_iff.mp h
    obtain ⟨text, -, hparse⟩ := bind_eq_some_iff.mp hx
    obtain ⟨rfl, rfl, -⟩ := HopRule.mk.inj heq
    obtain ⟨hfirst, hle, hlast⟩ := parseHopRange_le hparse
    exact ⟨hfirst, hle, hlast, by rw [hx, if_pos ⟨hfirst, hle, hlast⟩]⟩
  · rintro ⟨hfirst, hle, hlast, heq⟩
    rw [heq, if_pos ⟨hfirst, hle, hlast⟩]
    rfl

/-- What clients get is what the firewall does exactly if the texts are plain ranges, and no two of them overlap. -/
theorem hops_meet_iff {env : Env} {db : Db} {active : List User}
    (hspec : ∀ row ∈ rows, buildInbound env db active row = .ok (spec row)) (hports : (rows.map (·.listenPort)).Nodup) :
    HopsMeet parse spec rows ↔ HopsPlain parse spec rows := by
  have hports' := spec_ports_nodup hspec hports
  constructor
  · rintro ⟨hmet, hone⟩
    refine ⟨fun row hrow text htext => ?_, hopTable_apart_iff.mp hone⟩
    obtain ⟨first, last, hle, rfl, -, hall⟩ := hmet row hrow text htext
    simp only [redirect_iff hports' hone hrow] at hall
    obtain ⟨r, hr, hfirst⟩ := (hall first).mpr ⟨le_rfl, hle⟩
    obtain ⟨r', hr', hlast⟩ := (hall last).mpr ⟨hle, le_rfl⟩
    obtain rfl := some.inj (hr.symm.trans hr')
    have hstart := (hall r.start).mp ⟨r, hr, le_rfl, (hopRule_ok hr).2⟩
    have hend := (hall r.last).mp ⟨r, hr, (hopRule_ok hr).2, le_rfl⟩
    refine ⟨first, last, rfl, hopRule_eq_some_iff.mp (hr.trans (congrArg some ?_))⟩
    rw [HopRule.mk.injEq]
    exact ⟨by omega, by omega, (hopRule_ok hr).1⟩
  · rintro ⟨hplain, hapart⟩
    refine ⟨fun row hrow text htext => ?_, hopTable_apart_iff.mpr hapart⟩
    obtain ⟨first, last, rfl, hsays⟩ := hplain row hrow text htext
    have hr := hopRule_eq_some_iff.mpr hsays
    refine ⟨first, last, (hopRule_ok hr).2, rfl, colonRange_hopRange first last, fun port => ?_⟩
    rw [redirect_iff hports' (hopTable_apart_iff.mpr hapart) hrow, hr]
    simp

end Hops

/-- A Hysteria inbound with this text. -/
def hopRow (port : ℕ) (text : String) : Inbound :=
  { vlessRequest.stored port ("", "") with
    tag := text
    kind := "hysteria2"
    listenPort := port
    tlsEnabled := true
    certPath := some "/c.pem"
    keyPath := some "/k.pem"
    extra := .obj [("hop_ports", .str text)] }

def hopSpec (row : Inbound) : SpecInbound :=
  ⟨row.core, row.tag, row.kind, row.listen, row.listenPort.toNat, [], (buildTls row).toOption.join, buildExtra row,
    buildTransport row, row.upMbps.toNat, row.downMbps.toNat, ""⟩

def hopEnv : Env := ⟨.ok, .ok, fun _ _ => true⟩

def readJson (raw : String) : Json := (unmarshal raw).toOption.getD .null

theorem hopRow_built (port : ℕ) (text : String) (h : portIn port = some port) :
    buildInbound hopEnv oneNode [] (hopRow port text) = .ok (hopSpec (hopRow port text)) :=
  buildInbound_eq_ok.mpr ⟨port, [], "", _, h, rfl, rfl, rfl, rfl⟩

theorem one_range_met : HopsMeet readJson hopSpec [hopRow 443 "20000-30000"] := by
  have hread : agentText readJson hopSpec (hopRow 443 "20000-30000") = some "20000-30000" := by decide +kernel
  refine (hops_meet_iff (forall_mem_singleton.mpr (hopRow_built 443 _ rfl)) (nodup_singleton _)).mpr ⟨?_, ?_⟩
  · rw [forall_mem_singleton]
    rintro text ⟨-, e, he, htext⟩
    have hsame : Master.hopPorts e = some "20000-30000" := by
      rw [Master.hopPorts, he]
      decide +kernel
    obtain rfl := some.inj (htext.symm.trans hsame)
    exact ⟨20000, 30000, by decide +kernel, by decide, by decide, by decide, by rw [hread, bind_some]⟩
  · rw [filterMap_cons, hread]
    exact pairwise_singleton _ _

/-- The API takes both inbounds, and the firewall takes the ports from 25000 to 30000 to the first. -/
theorem shared_ports : (∀ row ∈ [hopRow 443 "20000-30000", hopRow 444 "25000-35000"],
      validateInbound row = .ok () ∧ buildInbound hopEnv oneNode [] row = .ok (hopSpec row)) ∧
    ¬ HopsMeet readJson hopSpec [hopRow 443 "20000-30000", hopRow 444 "25000-35000"] := by
  refine ⟨?_, fun h => ?_⟩
  · rw [forall_mem_cons, forall_mem_singleton]
    exact ⟨⟨by decide, hopRow_built 443 _ rfl⟩, by decide, hopRow_built 444 _ rfl⟩
  have htable : hopTable readJson hopSpec [hopRow 443 "20000-30000", hopRow 444 "25000-35000"] =
      [⟨20000, 30000, 443⟩, ⟨25000, 35000, 444⟩] := by decide +kernel
  have hsingle := h.single
  rw [htable, pairwise_pair] at hsingle
  exact hsingle 25000 (by decide)

end Honey
