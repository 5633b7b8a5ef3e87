import Honey.Agent.Users
import Honey.Billing
import Honey.Master.Accept
import Honey.Master.Push

/-! The way of a user name: from the subscription to the entry of the server config, and from the
    counters of the core back to the user.

        subscription -- credential --> server config: the entry of the user, and no other
        users <-- get_user_by_name <-- parseUserStat <-- counters

    Names and passwords are free text. The way is unambiguous exactly if no other entry has what the
    protocol looks at, a Hysteria name has no colon, and an xray name does not run into the separator
    of the counters (`recognised_iff`). -/

namespace Honey
open Honey.Agent Honey.Master Honey.Schemes List Option Except

/-! ### The client -/

def hysteriaAuth (u : User) : String := u.username ++ ":" ++ u.password

/-- The credential of `hysteria2_uri`. -/
def hysteria2Credential (tlsEnabled : Bool) (u : User) : Except String Credential :=
  if tlsEnabled then .ok (.auth (hysteriaAuth u)) else .error "hysteria2 requires TLS"

/-- The credential of `shadowsocks_uri`. -/
def shadowsocksCredential (extra : Json) (u : User) : Except String Credential :=
  if ((extra.get? "method").bind Json.asStr?).isSome then .ok (.password u.password)
  else .error "shadowsocks inbound extra.method is required for a client link"

/-- The credential in the link of `endpoint_uri`. -/
def endpointCredential (kind : String) (tlsEnabled : Bool) (extra : Json) (u : User) : Except String Credential :=
  match kind with
  | "vless" => .ok (.uuid u.uuid)
  | "hysteria2" => hysteria2Credential tlsEnabled u
  | "trojan" => .ok (.password u.password)
  | "tuic" => .ok (.uuidPassword u.uuid u.password)
  | "vmess" => .ok (.uuid u.uuid)
  | "shadowsocks" => shadowsocksCredential extra u
  | kind => .error ("client link for protocol '" ++ kind ++ "' is not supported yet")

/-! ### The entries of an inbound -/

section

variable (ib : Inbound) (users : List User) (chains : List InboundUser) (u : User)

/-- The users of the spec: those of the inbound, then the chains that end there. -/
def entries : List InboundUser := users.map (inboundUser ib) ++ chains

/-- All of them but the user's own. -/
def otherEntries : List InboundUser :=
  (users.filter (·.username ≠ u.username)).map (inboundUser ib) ++ chains

/-- The credential of the user is accepted as the entry of the user, and as no other. -/
def Recognised : Prop :=
  ∀ c, endpointCredential ib.kind ib.tlsEnabled ib.extra u = .ok c →
    AcceptsAs ib.kind ib.core (entries ib users chains) c (inboundUser ib u) ∧
      ∀ e ∈ otherEntries ib users chains u, ¬ AcceptsAs ib.kind ib.core (entries ib users chains) c e

end

/-- The name under which the agent reports what the user moves: the name of the entry, the name that
    the Hysteria server has cut off, or what `parseUserStat` finds in the counter. -/
def reportedName (ib : Inbound) (u : User) (d : Direction) : Option String :=
  match coreOfInbound ib.kind ib.core with
  | .singbox => some u.username
  | .hysteria => (splitOnce ':' (hysteriaAuth u).toList).map fun p => String.ofList p.1
  | .xray => (parseUserStat (counterName u.username d.text)).bind fun p =>
    if p.2 = d.text then some p.1 else none

/-- The master finds the user again. -/
def Attributed (db : Db) (ib : Inbound) (u : User) : Prop :=
  ∀ d, (reportedName ib u d).bind (getUserByName db) = some u

/-! ### What tells the entries apart -/

/-- The entry has what the protocol looks at in common with the user. -/
def SameKey (kind : String) (u : User) (e : InboundUser) : Prop :=
  match kind with
  | "vless" | "vmess" => e.uuid = u.uuid
  | "trojan" | "shadowsocks" => e.password = u.password
  | "tuic" => e.uuid = u.uuid ∧ e.password = u.password
  | "hysteria2" => e.name = u.username ∧ e.password ≠ ""
  | _ => False

/-- A shadowsocks link needs a method. -/
def Linked (ib : Inbound) : Prop :=
  ib.kind = "shadowsocks" → ((ib.extra.get? "method").bind Json.asStr?).isSome

/-- The name ends where the separator of the counters begins. -/
def CountsApart (name : String) : Prop :=
  ¬ sep3 <:+: name.toList ∧ name.toList.getLast? ≠ some '>'

structure Unambiguous (ib : Inbound) (users : List User) (chains : List InboundUser) (u : User) : Prop where
  apart : Linked ib → ∀ e ∈ otherEntries ib users chains u, ¬ SameKey ib.kind u e
  colon : ib.kind = "hysteria2" → ':' ∉ u.username.toList
  counter : ib.core = "xray" → CountsApart u.username

/-! ### The protocols of the API -/

inductive Protocol where | vless | hysteria2 | vmess | trojan | shadowsocks | tuic | anytls | shadowtls

def Protocol.kind : Protocol → String
  | .vless => "vless"
  | .hysteria2 => "hysteria2"
  | .vmess => "vmess"
  | .trojan => "trojan"
  | .shadowsocks => "shadowsocks"
  | .tuic => "tuic"
  | .anytls => "anytls"
  | .shadowtls => "shadowtls"

/-- The protocols that xray serves, too. -/
def Protocol.onXray : Protocol → Bool
  | .vless | .vmess | .trojan | .shadowsocks => true
  | _ => false

theorem protocol_of_supported {core kind : String} (h : protocolSupported core kind) :
    ∃ p : Protocol, kind = p.kind ∧ (core = "singbox" ∨ core = "xray" ∧ p.onXray) := by
  unfold protocolSupported at h
  split at h
  · have hmem := of_decide_eq_true h
    simp only [mem_cons, not_mem_nil, or_false] at hmem
    rcases hmem with rfl | rfl | rfl | rfl | rfl | rfl | rfl | rfl
    · exact ⟨.vless, rfl, .inl rfl⟩
    · exact ⟨.hysteria2, rfl, .inl rfl⟩
    · exact ⟨.vmess, rfl, .inl rfl⟩
    · exact ⟨.trojan, rfl, .inl rfl⟩
    · exact ⟨.shadowsocks, rfl, .inl rfl⟩
    · exact ⟨.tuic, rfl, .inl rfl⟩
    · exact ⟨.anytls, rfl, .inl rfl⟩
    · exact ⟨.shadowtls, rfl, .inl rfl⟩
  · have hmem := of_decide_eq_true h
    simp only [mem_cons, not_mem_nil, or_false] at hmem
    rcases hmem with rfl | rfl | rfl | rfl
    · exact ⟨.vless, rfl, .inr ⟨rfl, rfl⟩⟩
    · exact ⟨.vmess, rfl, .inr ⟨rfl, rfl⟩⟩
    · exact ⟨.trojan, rfl, .inr ⟨rfl, rfl⟩⟩
    · exact ⟨.shadowsocks, rfl, .inr ⟨rfl, rfl⟩⟩
  · cases h

/-! ### sing-box and xray -/

section

variable {p : Protocol} {tls : Bool} {extra : Json} {u : User} {c : Credential}

theorem shadowsocks_credential (h : shadowsocksCredential extra u = .ok c) : c = .password u.password := by
  rw [shadowsocksCredential] at h
  split at h
  · exact (ok.inj h).symm
  · cases h

/-- Where entries can be confused there is a link. -/
theorem credential_of_sameKey {e : InboundUser} (hp : p ≠ .hysteria2)
    (hlinked : p.kind = "shadowsocks" → ((extra.get? "method").bind Json.asStr?).isSome)
    (h : SameKey p.kind u e) : ∃ c, endpointCredential p.kind tls extra u = .ok c := by
  cases p with
  | vless | vmess | trojan | tuic => exact ⟨_, rfl⟩
  | shadowsocks => exact ⟨_, if_pos (hlinked rfl)⟩
  | hysteria2 => exact absurd rfl hp
  | anytls | shadowtls => cases h

theorem method_of_credential (hc : endpointCredential p.kind tls extra u = .ok c)
    (hkind : p.kind = "shadowsocks") : ((extra.get? "method").bind Json.asStr?).isSome := by
  rw [hkind] at hc
  by_contra hnone
  have herror : shadowsocksCredential extra u = .error _ := if_neg hnone
  cases herror.symm.trans hc

theorem sameKey_own (ib : Inbound) (hp : p ≠ .hysteria2)
    (hc : endpointCredential p.kind tls extra u = .ok c) : SameKey p.kind u (inboundUser ib u) := by
  cases p with
  | vless | vmess | trojan | shadowsocks => rfl
  | tuic => exact ⟨rfl, rfl⟩
  | hysteria2 => exact absurd rfl hp
  | anytls | shadowtls => cases hc

theorem accepts_iff_sameKey (hp : p ≠ .hysteria2)
    (hc : endpointCredential p.kind tls extra u = .ok c) (e : InboundUser) :
    ((singboxUser p.kind e).Accepts c ↔ SameKey p.kind u e) ∧
      (p.onXray → ((xrayClient p.kind e).Accepts c ↔ SameKey p.kind u e)) := by
  cases p with
  | vless | vmess | trojan =>
    obtain rfl := ok.inj hc
    exact ⟨some_inj, fun _ => some_inj⟩
  | shadowsocks =>
    obtain rfl := shadowsocks_credential hc
    exact ⟨some_inj, fun _ => some_inj⟩
  | tuic =>
    obtain rfl := ok.inj hc
    exact ⟨and_congr some_inj some_inj, fun hx => absurd hx (by decide)⟩
  | hysteria2 => exact absurd rfl hp
  | anytls | shadowtls => cases hc

end

theorem recognised_of_accepts {p : Protocol} {ib : Inbound} {users : List User}
    {chains : List InboundUser} {u : User} (hp : p ≠ .hysteria2) (hkind : ib.kind = p.kind)
    (hacc : ∀ c, endpointCredential p.kind ib.tlsEnabled ib.extra u = .ok c →
      ∀ e, AcceptsAs p.kind ib.core (entries ib users chains) c e ↔ SameKey p.kind u e) :
    Recognised ib users chains u ↔ (Linked ib → ∀ e ∈ otherEntries ib users chains u, ¬ SameKey ib.kind u e) := by
  rw [Recognised, Linked, hkind]
  constructor
  · intro h hlinked e he hsame
    obtain ⟨c, hc⟩ := credential_of_sameKey hp hlinked hsame
    exact (h c hc).2 e he ((hacc c hc e).mpr hsame)
  · intro h c hc
    refine ⟨(hacc c hc _).mpr (sameKey_own ib hp hc), fun e he hae => ?_⟩
    exact h (method_of_credential hc) e he ((hacc c hc e).mp hae)

/-! ### Counters -/

/-- A separator that begins in the name leaves a `>` at its end, or lies in it. -/
theorem countsApart_iff {name : String} : CountsApart name ↔ ¬ sep3 <:+: name.toList ++ sep3.dropLast := by
  have hlast : name.toList.getLast? = some '>' ↔ ['>'] <:+ name.toList := by
    constructor
    · intro h
      obtain ⟨l, hl⟩ := getLast?_eq_some_iff.mp h
      exact ⟨l, hl.symm⟩
    · rintro ⟨l, hl⟩
      rw [← hl, getLast?_concat]
  have htwo : sep3 <:+ name.toList ++ ['>'] ++ ['>'] ↔ ['>'] <:+ name.toList := by
    rw [append_assoc]
    constructor
    · rintro ⟨t, ht⟩
      exact ⟨t, append_cancel_right ((append_assoc t ['>'] ['>', '>']).trans ht)⟩
    · rintro ⟨t, ht⟩
      exact ⟨t, by rw [← ht, append_assoc]; rfl⟩
  have hone : sep3 <:+ name.toList ++ ['>'] → ['>'] <:+ name.toList := by
    rintro ⟨t, ht⟩
    have hname := append_cancel_right ((append_assoc t ['>', '>'] ['>']).trans ht)
    exact ⟨t ++ ['>'], by rw [← hname, append_assoc]; rfl⟩
  have hdrop : name.toList ++ sep3.dropLast = name.toList ++ ['>'] ++ ['>'] :=
    (append_assoc name.toList ['>'] ['>']).symm
  rw [CountsApart, hdrop, infix_concat_iff, infix_concat_iff, htwo, ne_eq, hlast, not_or, not_or]
  exact ⟨fun h => ⟨h.2, fun hs => h.2 (hone hs), h.1⟩, fun h => ⟨h.2.2, h.1⟩⟩

theorem counterName_toList (name : String) (d : Direction) :
    (counterName name d.text).toList = "user".toList ++ (sep3 ++ (name.toList ++
      (sep3 ++ ("traffic>>>".toList ++ d.text.toList)))) := by
  have huser : "user>>>".toList = "user".toList ++ sep3 := by decide
  have htraffic : ">>>traffic>>>".toList = sep3 ++ "traffic>>>".toList := by decide
  rw [counterName, String.toList_append, String.toList_append, String.toList_append, huser, htraffic]
  simp

theorem split_traffic (d : Direction) :
    split sep3 ("traffic>>>".toList ++ d.text.toList) = ["traffic".toList, d.text.toList] := by
  cases d <;> decide

theorem split_counterName (name : String) (d : Direction) :
    split sep3 (counterName name d.text).toList = "user".toList ::
      split sep3 (name.toList ++ (sep3 ++ ("traffic>>>".toList ++ d.text.toList))) := by
  rw [counterName_toList]
  exact split_append (by decide) (by decide) _

/-- The agent reads a name back exactly if it ends before the separator. -/
theorem parse_counterName_iff {name : String} (d : Direction) :
    parseUserStat (counterName name d.text) = some (name, d.text) ↔ CountsApart name := by
  rw [countsApart_iff, parseUserStat, split_counterName]
  constructor
  · intro h
    split at h
    · rename_i email what direction hsplit
      split at h
      · obtain ⟨hemail, -⟩ := Prod.mk.inj (some.inj h)
        have hname : email = name.toList := by rw [← hemail, String.toList_ofList]
        exact hname ▸ split_head (by decide) (cons.inj hsplit).2
      · cases h
    · cases h
  · intro h
    rw [split_append (by decide) h, split_traffic]
    simp

/-! ### Hysteria -/

theorem hysteriaAuth_toList (u : User) : (hysteriaAuth u).toList = u.username.toList ++ ':' :: u.password.toList := by
  simp [hysteriaAuth]

theorem split_hysteriaAuth {u : User} (h : ':' ∉ u.username.toList) :
    splitOnce ':' (hysteriaAuth u).toList = some (u.username.toList, u.password.toList) := by
  rw [hysteriaAuth_toList, splitOnce_append _ h]

theorem userpassLookup_eq_some {m : GoMap String String} {text n p : String} : userpassLookup m text = some (n, p) ↔
      splitOnce ':' text.toList = some (n.toList, p.toList) ∧ n ∈ m.keys ∧ m.get n = p := by
  rw [userpassLookup]
  constructor
  · intro h
    split at h
    · cases h
    rename_i p' hsplit
    split at h
    · rename_i hget
      obtain ⟨rfl, rfl⟩ := Prod.mk.inj (some.inj h)
      rw [String.toList_ofList, String.toList_ofList]
      exact ⟨hsplit, hget⟩
    · cases h
  · rintro ⟨hsplit, hget⟩
    simp [hsplit, hget]

theorem mem_keys_of_get {m : GoMap String String} {n p : String} (h : m.get n = p) (hp : p ≠ "") : n ∈ m.keys := by
  by_contra hn
  exact hp (h.symm.trans (m.get_absent n hn))

section

variable {users : List User} {chains : List InboundUser} {ib : Inbound} {u : User}

theorem mem_otherEntries {e : InboundUser} : e ∈ otherEntries ib users chains u ↔
    (∃ v ∈ users, v.username ≠ u.username ∧ inboundUser ib v = e) ∨ e ∈ chains := by
  simp [otherEntries, and_assoc]

theorem get_userpass_user (ib : Inbound) (hname : u.username ≠ "") (hpassword : u.password ≠ "") (hu : u ∈ users)
    (huniq : ∀ v ∈ users, v.username = u.username → v = u)
    (hchains : ∀ c ∈ chains, c.password ≠ "" → c.name ≠ u.username) :
    (userpass (entries ib users chains)).get u.username = u.password := by
  have hnone : ∀ c ∈ chains, passwordFor u.username c = none := fun c hc =>
    passwordFor_eq_none (or_iff_not_imp_left.mpr (hchains c hc))
  have hown : passwordFor u.username (inboundUser ib u) = some u.password :=
    passwordFor_eq_some.mpr ⟨rfl, rfl, hname, hpassword⟩
  rw [get_userpass, entries, lastWrite_append, lastWrite_eq_zero hnone]
  rcases exists_last (passwordFor u.username) (users.map (inboundUser ib)) with
    hall | ⟨before, e, x, after, hsplit, hx, hafter⟩
  · rw [hall _ (mem_map_of_mem hu)] at hown
    cases hown
  have he : e ∈ users.map (inboundUser ib) := by
    rw [hsplit]
    exact mem_append_right _ mem_cons_self
  obtain ⟨v, hv, rfl⟩ := mem_map.mp he
  obtain rfl := huniq v hv (passwordFor_eq_some.mp hx).1
  rw [hsplit, lastWrite_eq_last hx hafter]
  exact (passwordFor_eq_some.mp hx).2.1.symm

/-- A chain with the name of the user has the last word on the name. -/
theorem get_userpass_chain (ib : Inbound) (users : List User) {c : InboundUser} (hc : c ∈ chains) (hname : c.name ≠ "")
    (hpassword : c.password ≠ "") :
    ∃ c' ∈ chains, c'.name = c.name ∧ (userpass (entries ib users chains)).get c.name = c'.password := by
  rcases exists_last (passwordFor c.name) chains with hall | ⟨before, c', x, after, hsplit, hx, hafter⟩
  · have hown := passwordFor_eq_some.mpr ⟨rfl, rfl, hname, hpassword⟩
    rw [hall c hc] at hown
    cases hown
  · obtain ⟨hn, hp, -, -⟩ := passwordFor_eq_some.mp hx
    refine ⟨c', hsplit ▸ mem_append_right _ mem_cons_self, hn, ?_⟩
    rw [get_userpass, entries, lastWrite_append, hsplit, lastWrite_eq_last hx hafter, hp]

theorem hysteria_accepts_iff {e : InboundUser} (hkind : ib.kind = "hysteria2") (hcore : ib.core = "singbox") :
    AcceptsAs ib.kind ib.core (entries ib users chains) (.auth (hysteriaAuth u)) e ↔
      userpassLookup (userpass (entries ib users chains)) (hysteriaAuth u) = some (e.name, e.password) := by
  rw [hkind, hcore]
  exact Iff.rfl

theorem recognised_hysteria (hkind : ib.kind = "hysteria2") (hcore : ib.core = "singbox")
    (htls : ib.tlsEnabled) (hname : u.username ≠ "") (hpassword : u.password ≠ "") (hu : u ∈ users)
    (huniq : ∀ v ∈ users, v.username = u.username → v = u) :
    Recognised ib users chains u ↔ (∀ e ∈ otherEntries ib users chains u, ¬ SameKey ib.kind u e) ∧
      ':' ∉ u.username.toList := by
  have hcred : endpointCredential ib.kind ib.tlsEnabled ib.extra u = .ok (.auth (hysteriaAuth u)) := by
    rw [hkind, htls]
    rfl
  have hkey : ∀ e, SameKey ib.kind u e ↔ e.name = u.username ∧ e.password ≠ "" := by
    rw [hkind]
    exact fun _ => Iff.rfl
  rw [Recognised, hcred]
  simp only [ok.injEq, forall_eq', hysteria_accepts_iff hkind hcore, userpassLookup_eq_some, hkey]
  constructor
  · rintro ⟨⟨hsplit, -, hget⟩, hothers⟩
    refine ⟨fun e he hsame => ?_, (splitOnce_eq_some.mp hsplit).2⟩
    rcases mem_otherEntries.mp he with ⟨v, -, hne, rfl⟩ | hchain
    · exact hne hsame.1
    -- the last chain of that name is accepted as well
    obtain ⟨c, hc, hcn, hcp⟩ := get_userpass_chain ib users hchain (hsame.1 ▸ hname) hsame.2
    have hcname : c.name = u.username := hcn.trans hsame.1
    have hcpass : c.password = u.password := by
      rw [← hcp, hsame.1]
      exact hget
    refine hothers c (mem_otherEntries.mpr (.inr hc)) ?_
    rw [hcname, hcpass]
    exact ⟨hsplit, mem_keys_of_get hget hpassword, hget⟩
  · rintro ⟨hothers, hcolon⟩
    have hget := get_userpass_user ib hname hpassword hu huniq fun c hc hp hn =>
      hothers c (mem_otherEntries.mpr (.inr hc)) ⟨hn, hp⟩
    refine ⟨⟨split_hysteriaAuth hcolon, mem_keys_of_get hget hpassword, hget⟩, fun e he hacc => ?_⟩
    obtain ⟨hn, hp⟩ := Prod.mk.inj (some.inj (hacc.1.symm.trans (split_hysteriaAuth hcolon)))
    exact hothers e he ⟨String.toList_inj.mp hn, String.toList_inj.mp hp ▸ hpassword⟩

/-! ### The way back -/

variable {db : Db} (hdb : Accounts db.users) (hu : u ∈ db.users.rows)
include hdb hu

theorem getUserByName_of_mem : getUserByName db u.username = some u := by
  rcases hf : getUserByName db u.username with _ | v
  · have hnone := find?_eq_none.mp hf u hu
    simp at hnone
  · obtain ⟨hv, hname⟩ := getUserByName_some hf
    rw [hdb.distinct v (Table.find?_eq_some.mp hv).1 u hu hname]

theorem attributed_xray (hcore : coreOfInbound ib.kind ib.core = .xray) :
    Attributed db ib u ↔ CountsApart u.username := by
  have hreported : ∀ d, reportedName ib u d = (parseUserStat (counterName u.username d.text)).bind
      fun p => if p.2 = d.text then some p.1 else none := by
    intro d
    rw [reportedName, hcore]
  constructor
  · intro h
    have hup := h .uplink
    rw [hreported] at hup
    obtain ⟨n, hn, hget⟩ := bind_eq_some_iff.mp hup
    obtain ⟨⟨email, dir⟩, hparse, hdir⟩ := bind_eq_some_iff.mp hn
    split at hdir
    · rename_i hd
      have hemail : u.username = email := (getUserByName_some hget).2.trans (some.inj hdir).symm
      rw [← hemail, show dir = Direction.uplink.text from hd] at hparse
      exact (parse_counterName_iff .uplink).mp hparse
    · cases hdir
  · intro h d
    rw [hreported, (parse_counterName_iff d).mpr h, bind_some, if_pos rfl, bind_some, getUserByName_of_mem hdb hu]

theorem attributed_name (hname : ∀ d, reportedName ib u d = some u.username) : Attributed db ib u := by
  intro d
  rw [hname, bind_some, getUserByName_of_mem hdb hu]

end

theorem coreOfInbound_singbox {p : Protocol} (hp : p ≠ .hysteria2) :
    coreOfInbound p.kind "singbox" = .singbox ∧ p.kind ≠ "hysteria2" := by
  cases p with
  | hysteria2 => exact absurd rfl hp
  | vless | vmess | trojan | shadowsocks | tuic | anytls | shadowtls => decide

theorem coreOfInbound_xray (p : Protocol) : coreOfInbound p.kind "xray" = .xray := by
  cases p <;> decide

section

variable {db : Db} {ib : Inbound} {users : List User} {chains : List InboundUser} {u : User} {p : Protocol}
  (hdb : Accounts db.users)
include hdb

theorem recognised_iff_hysteria (husers : ∀ v ∈ users, v ∈ db.users.rows)
    (hu : u ∈ users) (hkind : ib.kind = "hysteria2") (hcore : ib.core = "singbox") (htls : ib.tlsEnabled) :
    Recognised ib users chains u ∧ Attributed db ib u ↔ Unambiguous ib users chains u := by
  have hmem := husers u hu
  have hname : u.username ≠ "" := fun h => hdb.named u hmem (by rw [h]; rfl)
  rw [recognised_hysteria hkind hcore htls hname (hdb.password u hmem) hu fun v hv =>
    hdb.distinct v (husers v hv) u hmem]
  constructor
  · rintro ⟨⟨hothers, hcolon⟩, -⟩
    refine ⟨fun _ => hothers, fun _ => hcolon, fun hx => ?_⟩
    rw [hcore] at hx
    exact absurd hx (by decide)
  · intro h
    have hlinked : Linked ib := fun hss => by
      rw [hkind] at hss
      exact absurd hss (by decide)
    refine ⟨⟨h.apart hlinked, h.colon hkind⟩, attributed_name hdb hmem fun d => ?_⟩
    rw [reportedName, hkind, hcore]
    exact (congrArg (Option.map _) (split_hysteriaAuth (h.colon hkind))).trans (congrArg some String.ofList_toList)

theorem recognised_iff_singbox (hmem : u ∈ db.users.rows) (hp : p ≠ .hysteria2) (hkind : ib.kind = p.kind)
    (hcore : ib.core = "singbox") :
    Recognised ib users chains u ∧ Attributed db ib u ↔ Unambiguous ib users chains u := by
  obtain ⟨hserver, hother⟩ := coreOfInbound_singbox hp
  have hattributed : Attributed db ib u := attributed_name hdb hmem fun d => by
    rw [reportedName, hkind, hcore, hserver]
  rw [recognised_of_accepts hp hkind fun c hc e => by
    rw [AcceptsAs, hcore, hserver]
    exact (accepts_iff_sameKey hp hc e).1]
  constructor
  · rintro ⟨hothers, -⟩
    refine ⟨hothers, fun hh => absurd (hkind ▸ hh) hother, fun hx => ?_⟩
    rw [hcore] at hx
    exact absurd hx (by decide)
  · exact fun h => ⟨h.apart, hattributed⟩

theorem recognised_iff_xray (hmem : u ∈ db.users.rows) (hp : p.onXray) (hkind : ib.kind = p.kind)
    (hcore : ib.core = "xray") : Recognised ib users chains u ∧ Attributed db ib u ↔ Unambiguous ib users chains u := by
  have hne : p ≠ .hysteria2 := by
    rintro rfl
    cases hp
  have hserver : coreOfInbound ib.kind ib.core = .xray := by
    rw [hkind, hcore]
    exact coreOfInbound_xray p
  rw [attributed_xray hdb hmem hserver, recognised_of_accepts hne hkind fun c hc e => by
    rw [AcceptsAs, ← hkind, hserver, hkind]
    exact (accepts_iff_sameKey hne hc e).2 hp]
  constructor
  · rintro ⟨hothers, hcounts⟩
    exact ⟨hothers, fun hh => absurd (hkind ▸ hh) (coreOfInbound_singbox hne).2, fun _ => hcounts⟩
  · exact fun h => ⟨h.apart, h.counter hcore⟩

end

/-- Every user on every inbound that the API accepts, with any chains on it: the credential is accepted
    as the user's entry only and the bytes are booked on the user exactly if nothing is ambiguous. -/
theorem recognised_iff (db : Db) (hdb : Accounts db.users) (ib : Inbound) (acme : Bool)
    (hib : validateEffectiveSecurity ib acme = .ok ()) (users : List User)
    (husers : ∀ v ∈ users, v ∈ db.users.rows) (chains : List InboundUser) (u : User) (hu : u ∈ users) :
    Recognised ib users chains u ∧ Attributed db ib u ↔ Unambiguous ib users chains u := by
  obtain ⟨hsupported, htls⟩ := validateEffectiveSecurity_ok hib
  obtain ⟨p, hkind, hcore⟩ := protocol_of_supported hsupported
  rcases hcore with hcore | ⟨hcore, hp⟩
  · by_cases hp : p = .hysteria2
    · have hhysteria : ib.kind = "hysteria2" := by rw [hkind, hp]; rfl
      exact recognised_iff_hysteria hdb husers hu hhysteria hcore (htls hhysteria)
    · exact recognised_iff_singbox hdb (husers u hu) hp hkind hcore
  · exact recognised_iff_xray hdb (husers u hu) hp hkind hcore

/-- Two users with the same password. -/
def alice : User := ⟨7, "alice", "uuid-a", "secret", true, 0, 0, none⟩

def bob : User := ⟨8, "bob", "uuid-b", "secret", true, 0, 0, none⟩

/-- Names that the API accepts: one with a colon, one that ends in the separator of the counters. -/
def colon : User := ⟨9, "a:b", "uuid-c", "p", true, 0, 0, none⟩

def angle : User := ⟨10, "a>", "uuid-d", "q", true, 0, 0, none⟩

def fourUsers : Db :=
  { twoNodes with users := Table.empty.put alice |>.put bob |>.put colon |>.put angle }

theorem fourUsers_rows : fourUsers.users.rows = [alice, bob, colon, angle] := rfl

theorem fourUsers_accounts : Accounts fourUsers.users := by
  refine accounts_put (accounts_put (accounts_put (accounts_put accounts_empty ?_ ?_ ?_) ?_ ?_ ?_)
    ?_ ?_ ?_) ?_ ?_ ?_ <;> decide

theorem alice_recognised : Recognised plainInbound [alice, bob] [] alice ∧ Attributed fourUsers plainInbound alice := by
  have husers : ∀ v ∈ [alice, bob], v ∈ fourUsers.users.rows := by
    exact fun v hv => mem_append_left [colon, angle] hv
  refine (recognised_iff fourUsers fourUsers_accounts plainInbound false (by decide) [alice, bob] husers
    [] alice mem_cons_self).mpr ⟨fun _ e he hsame => ?_, fun h => ?_, fun h => ?_⟩
  · rcases mem_otherEntries.mp he with ⟨v, hv, hne, rfl⟩ | hchain
    · rcases mem_pair.mp hv with rfl | rfl
      · exact hne rfl
      · exact absurd (show "uuid-b" = "uuid-a" from hsame) (by decide)
    · cases hchain
  · exact absurd h (by decide)
  · exact absurd h (by decide)

def trojanInbound : Inbound := { plainInbound with kind := "trojan" }

def xrayInbound : Inbound := { plainInbound with core := "xray" }

def hysteriaInbound : Inbound :=
  { plainInbound with kind := "hysteria2", tlsEnabled := true, certPath := some "c", keyPath := some "k" }

/-- A shared password, a colon in the name, a name that ends in `>`: all accepted by the API. -/
theorem ambiguous_users : Accounts fourUsers.users ∧ (validateEffectiveSecurity trojanInbound false = .ok () ∧
      ¬ (Recognised trojanInbound [alice, bob] [] alice ∧ Attributed fourUsers trojanInbound alice)) ∧
    (validateEffectiveSecurity hysteriaInbound false = .ok () ∧
      ¬ (Recognised hysteriaInbound [colon] [] colon ∧ Attributed fourUsers hysteriaInbound colon)) ∧
    (validateEffectiveSecurity xrayInbound false = .ok () ∧
      ¬ (Recognised xrayInbound [angle] [] angle ∧ Attributed fourUsers xrayInbound angle)) := by
  refine ⟨fourUsers_accounts, ⟨by decide, fun h => ?_⟩, ⟨by decide, fun h => ?_⟩, ⟨by decide, fun h => ?_⟩⟩
  · have hmem : alice ∈ fourUsers.users.rows := by simp [fourUsers_rows]
    have hun := (recognised_iff_singbox (p := .trojan) fourUsers_accounts hmem (by simp) rfl rfl).mp h
    have hbob : inboundUser trojanInbound bob ∈ otherEntries trojanInbound [alice, bob] [] alice :=
      mem_otherEntries.mpr (.inl ⟨bob, by simp, by decide, rfl⟩)
    exact hun.apart (fun hss => absurd hss (by decide)) _ hbob rfl
  · have husers : ∀ v ∈ [colon], v ∈ fourUsers.users.rows := by simp [fourUsers_rows]
    have hun := (recognised_iff_hysteria fourUsers_accounts husers mem_cons_self rfl rfl rfl).mp h
    exact absurd (hun.colon rfl) (by decide)
  · have hmem : angle ∈ fourUsers.users.rows := by simp [fourUsers_rows]
    have hun := (recognised_iff_xray (p := .vless) fourUsers_accounts hmem rfl rfl rfl).mp h
    exact (hun.counter rfl).2 rfl

end Honey
