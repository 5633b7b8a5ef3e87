import Honey.Acceptance

/-! Multihop chains: an inbound with an upstream shall send the traffic of its clients to an inbound of
    another node, never out of its own.

        entry -- build_chain_outbound -- spec --> sing-box   rule: tag ↦ chain-tag, else direct
                  (may be empty)              +-> Xray       direct
                                              +-> Hysteria   direct

    Only sing-box knows chains, and the outbound is left out of the spec where it cannot be built; then
    no rule is written and the traffic goes out directly. It is kept on the chain exactly if the chain is
    `Carried`, or nobody is served (`kept_on_chain_iff`). -/

namespace Honey
open Honey.Agent Honey.Agent.XrayAcme Honey.Master Honey.Schemes List Json Except

/-! ### Where the traffic goes -/

/-- A text field of an object. -/
def textOf (j : Json) (key : String) : Option String := (j.get? key).bind asStr?

def isEmptyArray : Json → Bool
  | .arr [] => true
  | _ => false

/-- The outbound tag for an inbound: that of the first rule for its tag, `direct` if there is none. -/
def outboundTag (c : Singbox.Config) (tag : Option String) : String :=
  match c.rules.find? fun r => some r.1 = tag with
  | some r => r.2
  | none => "direct"

/-- The config sends the traffic of an inbound to an outbound of type `direct`. -/
def sendsDirect (c : Singbox.Config) (block : Json) : Prop :=
  ∃ o, c.outbounds.find? (fun o => textOf o "tag" = some (outboundTag c (textOf block "tag"))) = some o ∧
    textOf o "type" = some "direct"

/-- An inbound of sing-box serves nobody: it has no users, and no password of its own. -/
def singboxIdle (block : Json) : Bool :=
  (block.get? "users").all isEmptyArray && (block.get? "password").isNone

/-- The settings of an inbound of Xray have no clients, and no password of their own. -/
def settingsIdle (settings : Json) : Bool :=
  ((settings.get? "clients").or (settings.get? "users")).any isEmptyArray && (settings.get? "password").isNone

/-- The Hysteria server knows nobody. -/
def authIdle (auth : Json) : Bool :=
  textOf auth "type" = some "userpass" && (match auth.get? "userpass" with
    | some (.obj []) => true
    | _ => false)

/-- Clients of an inbound are served and their traffic leaves the node directly. -/
def SentDirect (go : Go) (spec : NodeSpec) (ib : SpecInbound) : Prop :=
  match serverOf ib with
  | .singbox => ∃ c block,
      buildLoop go (Singbox.addInbound go) (coreSpec spec .singbox).inbounds [] ⟨[], [], []⟩ = .ok c ∧
      Singbox.buildInbound go ib = .ok block ∧ singboxIdle block = false ∧ sendsDirect c block
  | .xray => ∃ block, XrayCore.buildInbound go ib = .ok block ∧ (block.get? "settings").any settingsIdle = false
  | .hysteria => ∃ config, Hysteria.inboundConfig go ib = .ok config ∧ (config.get? "auth").any authIdle = false

/-- The spec after some passes of the ACME manager: none without one, one in a dry run, two in `Apply`. -/
inductive Prepared (m : Manager) (spec : NodeSpec) : NodeSpec → Prop
  | plain : Prepared m spec spec
  | pass {mid spec' : NodeSpec} (certify : List Request → Except String Unit)
      (paths : String → String × String) (hmid : Prepared m spec mid)
      (h : prepare m certify paths mid = .ok spec') : Prepared m spec spec'

/-! ### What the database says -/

variable (db : Db) (i : Inbound)

/-- The outbound to the exit can be built: the entry has its credentials, and the exit and its node are
    there, enabled and not in maintenance. -/
def ChainAvailable : Prop :=
  i.core ≠ "xray" ∧ i.chainUuid.isSome ∧ i.chainPassword.isSome ∧
    ∃ exit ∈ i.upstreamInboundId, ∃ e n, db.inbounds.find? exit = some e ∧ e.enabled ∧
      db.nodes.find? e.nodeId = some n ∧ n.enabled ∧ ¬ n.maintenance

/-- The tag of an inbound in the config; the extra settings may replace it. -/
def configTag : Option String :=
  match i.extra.get? "tag" with
  | some v => v.asStr?
  | none => some i.tag

/-- A rule of sing-box takes the traffic of the inbound: under its tag there is an inbound of the node
    whose chain is available. -/
def Carried : Prop :=
  coreOfInbound i.kind i.core = .singbox ∧ ∃ j ∈ db.inbounds.rows, j.nodeId = i.nodeId ∧ j.enabled ∧
    coreOfInbound j.kind j.core = .singbox ∧ ChainAvailable db j ∧ configTag i = some j.tag

/-- The chains that end at an inbound: their entries are its users as well. -/
def chainsTo : List Inbound :=
  db.inbounds.rows.filter fun j => j.upstreamInboundId = some i.id ∧ j.enabled ∧ j.chainUuid.isSome

/-- Nobody is to be served: no user is active and has access to the node, and no chain ends here. -/
def Unused (now : ℤ) (i : Inbound) : Prop :=
  db.activeUsers i.nodeId now = [] ∧ chainsTo db i = []

/-- Hysteria can serve nobody: it lists only users with a name and a password. -/
def Passwordless (env : Env) (db : Db) (now : ℤ) (i : Inbound) : Prop :=
  (∀ u ∈ db.activeUsers i.nodeId now, u.username = "" ∨ env.decrypt u.password = .ok "") ∧
    ∀ j ∈ chainsTo db i, ∀ password ∈ j.chainPassword, env.decrypt password = .ok ""

/-- The inbound serves nobody: it has no users, and the extra settings bring none. -/
def Idle (env : Env) (db : Db) (now : ℤ) (i : Inbound) : Prop :=
  match coreOfInbound i.kind i.core with
  | .singbox => i.extra.get? "password" = none ∧ match i.extra.get? "users" with
    | some users => isEmptyArray users
    | none => Unused db now i
  | .xray => match i.extra.get? "settings" with
    | some settings => settingsIdle settings
    | none => Unused db now i
  | .hysteria => match i.extra.get? "auth" with
    | some auth => authIdle auth
    | none => Passwordless env db now i

/-! ### The rules of sing-box -/

section

variable {go : Go}

/-- The chain of an inbound, if it has one. -/
def chainOf (go : Go) (ib : SpecInbound) : Option (Json × String) :=
  match Singbox.buildChain go ib with
  | .ok chain => chain
  | .error _ => none

theorem foldlM_addInbound : ∀ {ibs : List SpecInbound} {c c' : Singbox.Config},
    ibs.foldlM (Singbox.addInbound go) c = .ok c' →
    c'.rules = c.rules ++ ibs.filterMap (fun ib => (chainOf go ib).map fun x => (ib.tag, x.2)) ∧
      c'.chains = c.chains ++ ibs.filterMap (fun ib => (chainOf go ib).map (·.1))
  | [], c, c', h => by
    obtain rfl := ok.inj h
    simp
  | ib :: ibs, c, c', h => by
    obtain ⟨mid, hmid, h⟩ := bind_eq_ok.mp h
    obtain ⟨block, -, hmid⟩ := bind_eq_ok.mp hmid
    obtain ⟨chain, hchain, hmid⟩ := bind_eq_ok.mp hmid
    obtain rfl := ok.inj hmid
    obtain ⟨hrules, hchains⟩ := foldlM_addInbound h
    have hof : chainOf go ib = chain := by rw [chainOf, hchain]
    rw [hrules, hchains]
    cases chain with
    | none => simp [hof]
    | some x => simp [hof]

variable {ibs : List SpecInbound} {c : Singbox.Config}

/-- Where every chain is an outbound with the tag of its inbound, traffic goes out directly exactly if
    no inbound with a chain has its tag. -/
theorem sendsDirect_iff (hc : ibs.foldlM (Singbox.addInbound go) ⟨[], [], []⟩ = .ok c)
    (hchains : ∀ ib ∈ ibs, ∀ x ∈ chainOf go ib, x.2 = "chain-" ++ ib.tag ∧
      textOf x.1 "tag" = some x.2 ∧ ∃ kind ∈ outboundKinds, textOf x.1 "type" = some kind) (block : Json) :
    sendsDirect c block ↔ ¬ ∃ ib ∈ ibs, (chainOf go ib).isSome ∧ textOf block "tag" = some ib.tag := by
  obtain ⟨hrules, houtbounds⟩ := foldlM_addInbound hc
  have hmem : ∀ r ∈ c.rules, ∃ ib ∈ ibs, ∃ x ∈ chainOf go ib, r = (ib.tag, x.2) := by
    intro r hr
    rw [hrules] at hr
    obtain ⟨ib, hib, hmap⟩ := mem_filterMap.mp hr
    obtain ⟨x, hx, rfl⟩ := Option.map_eq_some_iff.mp hmap
    exact ⟨ib, hib, x, hx, rfl⟩
  constructor
  · rintro ⟨o, ho, htype⟩ ⟨ib, hib, hchain, htag⟩
    obtain ⟨x, hx⟩ := Option.isSome_iff_exists.mp hchain
    -- there is a rule for the tag, and the first one leads into a chain
    have hrule : (ib.tag, x.2) ∈ c.rules := by
      rw [hrules]
      exact mem_filterMap.mpr ⟨ib, hib, by rw [hx]; rfl⟩
    obtain ⟨r, hr⟩ : ∃ r, c.rules.find? (fun r => some r.1 = textOf block "tag") = some r := by
      rw [← Option.isSome_iff_exists, find?_isSome]
      exact ⟨_, hrule, by simp [htag]⟩
    obtain ⟨ib₁, hib₁, x₁, hx₁, rfl⟩ := hmem r (mem_of_find?_eq_some hr)
    have hout : textOf o "tag" = some ("chain-" ++ ib₁.tag) := by
      have := find?_some ho
      rw [outboundTag, hr] at this
      rw [← (hchains ib₁ hib₁ x₁ hx₁).1]
      exact of_decide_eq_true this
    rcases mem_cons.mp (mem_of_find?_eq_some ho) with rfl | hin
    · have hdirect : "chain-" ++ ib₁.tag = "direct" :=
        Option.some.inj (hout.symm.trans (by decide))
      have := congrArg String.toList hdirect
      simp at this
    rw [houtbounds] at hin
    obtain ⟨ib₂, hib₂, hmap⟩ := mem_filterMap.mp hin
    obtain ⟨x₂, hx₂, rfl⟩ := Option.map_eq_some_iff.mp hmap
    obtain ⟨-, -, kind, hkind, htype₂⟩ := hchains ib₂ hib₂ x₂ hx₂
    rw [htype₂, Option.some.injEq] at htype
    rw [htype] at hkind
    exact absurd hkind (by decide)
  · intro hno
    have hnone : c.rules.find? (fun r => some r.1 = textOf block "tag") = none := by
      rw [find?_eq_none]
      intro r hr htag
      obtain ⟨ib, hib, x, hx, rfl⟩ := hmem r hr
      exact hno ⟨ib, hib, Option.isSome_iff_exists.mpr ⟨x, hx⟩, (of_decide_eq_true htag).symm⟩
    refine ⟨Singbox.directOutbound, ?_, by decide⟩
    rw [Singbox.Config.outbounds, outboundTag, hnone, find?_cons_of_pos (by decide)]

end

/-! ### One inbound in its config -/

theorem prepared_kept {m : Manager} {spec spec' : NodeSpec} (h : Prepared m spec spec') :
    ∃ f, spec'.inbounds = spec.inbounds.map f ∧ ∀ ib, Kept ib (f ib) := by
  induction h with
  | plain => exact ⟨id, by simp, Kept.refl⟩
  | pass certify paths _ h ih =>
    obtain ⟨f, hf, hkept⟩ := ih
    obtain ⟨rs, -, -, -, rfl⟩ := prepare_eq_ok.mp h
    refine ⟨rewriteInbound m paths rs ∘ f, ?_, fun ib => (hkept ib).trans (kept_rewritten m paths rs _)⟩
    rw [rewriteSpec, hf, map_map]

section

variable {go : Go} {ib : SpecInbound} {block : Json}

theorem singbox_block (h : Singbox.buildInbound go ib = .ok block) : ∃ extra, readExtra ib.extraJson = .ok extra ∧
    (wellFormed (.obj extra) → block.get? "tag" = (get? (.obj extra) "tag").or (some (.str ib.tag)) ∧
      block.get? "users" = (get? (.obj extra) "users").or
        (if ib.users = [] then none else some (.arr (ib.users.map (Singbox.user ib.type)))) ∧
      block.get? "password" = get? (.obj extra) "password") := by
  obtain ⟨transport, -, h⟩ := bind_eq_ok.mp h
  obtain ⟨extra, hextra, h⟩ := bind_eq_ok.mp h
  refine ⟨extra, withPrefix_eq_ok.mp hextra, fun hwf => ?_⟩
  rw [← ok.inj h]
  simp only [get?_merged hwf, goMap_cons]
  refine ⟨?_, ?_, ?_⟩ <;> simp [goMap, get?, object]

theorem xray_block (h : XrayCore.buildInbound go ib = .ok block) : ∃ extra, readExtra ib.extraJson = .ok extra ∧
    (wellFormed (.obj extra) → block.get? "settings" =
      (get? (.obj extra) "settings").or (some (XrayCore.buildSettings ib.type ib.users))) := by
  obtain ⟨⟨⟩, -, h⟩ := bind_eq_ok.mp h
  obtain ⟨extra, hextra, h⟩ := bind_eq_ok.mp h
  refine ⟨extra, withPrefix_eq_ok.mp hextra, fun hwf => ?_⟩
  rw [← ok.inj h]
  simp only [get?_merged hwf, goMap_cons]
  simp [goMap, get?, object]

theorem hysteria_block (h : Hysteria.inboundConfig go ib = .ok block) : ∃ extra, readExtra ib.extraJson = .ok extra ∧
    (wellFormed (.obj extra) → block.get? "auth" = (get? (.obj extra) "auth").or
      (some (.object [("type", .str "userpass"), ("userpass", .object
        ((userpass ib.users).keys.map fun n => (n, .str ((userpass ib.users).get n))))]))) := by
  rw [Hysteria.inboundConfig] at h
  split at h
  · cases h
  obtain ⟨t, -, h⟩ := bind_eq_ok.mp h
  obtain ⟨extra, hextra, h⟩ := bind_eq_ok.mp h
  refine ⟨extra, withPrefix_eq_ok.mp hextra, fun hwf => ?_⟩
  rw [← ok.inj h]
  simp only [get?_merged hwf, Hysteria.baseFields, goMap_cons]
  simp [goMap, get?, object]

end

/-! ### Inbounds that serve nobody -/

theorem mem_userpass_keys {users : List InboundUser} {n : String} :
    n ∈ (userpass users).keys ↔ ∃ u ∈ users, u.name ≠ "" ∧ u.password ≠ "" ∧ u.name = n := by
  have hgen : ∀ (us : List InboundUser) (acc : GoMap String String),
      n ∈ (us.foldl (fun out u => if u.name ≠ "" ∧ u.password ≠ "" then out.set u.name u.password
        else out) acc).keys ↔
        n ∈ acc.keys ∨ ∃ u ∈ us, u.name ≠ "" ∧ u.password ≠ "" ∧ u.name = n := by
    intro us
    induction us with
    | nil => simp
    | cons u us ih =>
      intro acc
      rw [foldl_cons, ih]
      simp only [mem_cons, exists_eq_or_imp]
      split
      · rename_i hu
        have hname : (u.name ≠ "" ∧ u.password ≠ "" ∧ u.name = n) ↔ n = u.name :=
          ⟨fun h => h.2.2.symm, fun h => ⟨hu.1, hu.2, h.symm⟩⟩
        rw [GoMap.mem_keys_set, hname, or_assoc, or_left_comm]
      · rename_i hu
        have hno : ¬ (u.name ≠ "" ∧ u.password ≠ "" ∧ u.name = n) := fun h => hu ⟨h.1, h.2.1⟩
        simp [hno]
  rw [userpass, hgen]
  simp

theorem object_eq_nil {fs : List (String × Json)} : object fs = .obj [] ↔ fs = [] := by
  have hinsert : ∀ k v fs, insertField k v fs ≠ [] := by
    intro k v fs
    rcases fs with _ | ⟨f, fs⟩
    · simp [insertField]
    rw [insertField]
    split
    · simp
    · split <;> simp
  induction fs using reverseRecOn with
  | nil => simp [object]
  | append_singleton fs f _ => simp [object, hinsert]

theorem authIdle_userpass (users : List InboundUser) :
    authIdle (.object [("type", .str "userpass"), ("userpass", .object
      ((userpass users).keys.map fun n => (n, .str ((userpass users).get n))))]) ↔
      ∀ u ∈ users, u.name = "" ∨ u.password = "" := by
  have hkeys : (userpass users).keys = [] ↔ ∀ u ∈ users, u.name = "" ∨ u.password = "" := by
    rw [eq_nil_iff_forall_not_mem]
    simp only [mem_userpass_keys]
    push Not
    constructor
    · intro h u hu
      by_contra hno
      push Not at hno
      exact h u.name u hu hno.1 hno.2 rfl
    · intro h n u hu hname hpass
      exact absurd (h u hu) (by simp [hname, hpass])
  have hauth : ∀ j : Json, authIdle (.object [("type", .str "userpass"), ("userpass", j)]) ↔ j = .obj [] := by
    intro j
    have htype : textOf (.object [("type", .str "userpass"), ("userpass", j)]) "type" = some "userpass" := by
      rw [textOf, get?_object_cons, get?_object_cons]
      simp [object, get?, asStr?]
    have hpass : (object [("type", .str "userpass"), ("userpass", j)]).get? "userpass" = some j := by
      rw [get?_object_cons, get?_object_cons]
      simp [object, get?]
    rw [authIdle, htype, hpass]
    cases j with
    | obj l => cases l <;> simp
    | null | bool b | int n | float t | str s | arr l => simp
  rw [hauth, object_eq_nil, map_eq_nil_iff, hkeys]

theorem isEmptyArray_map {α : Type} (f : α → Json) (l : List α) : isEmptyArray (.arr (l.map f)) ↔ l = [] := by
  cases l with
  | nil | cons a l => simp [isEmptyArray]

theorem settingsIdle_built (type : String) (users : List InboundUser) :
    settingsIdle (XrayCore.buildSettings type users) ↔ users = [] := by
  rw [← isEmptyArray_map (XrayCore.client type) users, settingsIdle, XrayCore.buildSettings]
  split
  · simp only [get?_object_cons]
    simp [object, get?]
  · simp only [goMap_cons]
    simp [goMap, object, get?]

/-! ### From the row to the config -/

theorem endpoint_isSome {db : Db} {id : Uuid} : (endpointForInbound db id).isSome ↔
    ∃ e n, db.inbounds.find? id = some e ∧ e.enabled ∧ db.nodes.find? e.nodeId = some n ∧ n.enabled ∧
      ¬ n.maintenance := by
  rw [endpointForInbound]
  rcases db.inbounds.find? id with _ | e
  · simp
  cases hn : db.nodes.find? e.nodeId with
  | none => simp [hn]
  | some n => simp [hn]

theorem upstream_ne_iff {db : Db} {row : Inbound} {text : String}
    (h : upstreamOutbound db row = .ok text) : text ≠ "" ↔ ChainAvailable db row := by
  rw [upstreamOutbound] at h
  cases hup : row.upstreamInboundId with
  | none =>
    rw [hup] at h
    simp [ChainAvailable, hup, ← ok.inj h]
  | some exit =>
    rw [hup] at h
    dsimp only at h
    have havailable : ChainAvailable db row ↔ row.core ≠ "xray" ∧ row.chainUuid.isSome ∧
        row.chainPassword.isSome ∧ (endpointForInbound db exit).isSome := by
      rw [endpoint_isSome, ChainAvailable, hup]
      simp
    rw [havailable]
    rw [buildChainOutbound] at h
    split at h
    · rename_i hcore
      simp [hcore, ← ok.inj h]
    rename_i hcore
    split at h
    · rename_i huuid hpassword hendpoint
      obtain ⟨outbound, hout, h⟩ := bind_eq_ok.mp h
      have hobj := isObject_set (singboxOutbound_ok hout).1.object (k := "tag") (v := .str ("chain-" ++ row.tag))
      rw [← ok.inj h]
      simp only [huuid, hpassword, hendpoint, Option.isSome_some, ne_eq, hcore, not_false_eq_true, and_self, iff_true]
      cases hj : outbound.set "tag" (.str ("chain-" ++ row.tag)) with
      | obj fields => exact render_obj_ne fields
      | null | bool b | int n | float t | str s | arr l =>
        rw [hj] at hobj
        cases hobj
    · rename_i hnone
      rw [← ok.inj h]
      simp only [ne_eq, not_true_eq_false, hcore, not_false_eq_true, true_and, false_iff, not_and]
      intro huuid hpassword hendpoint
      obtain ⟨uuid, huuid⟩ := Option.isSome_iff_exists.mp huuid
      obtain ⟨password, hpassword⟩ := Option.isSome_iff_exists.mp hpassword
      obtain ⟨endpoint, hendpoint⟩ := Option.isSome_iff_exists.mp hendpoint
      exact hnone uuid password endpoint huuid hpassword hendpoint

theorem extraObject_of_readable {row : Inbound} {extra : List (String × Json)}
    (hwf : wellFormed row.extra) (h : readExtra (buildExtra row) = .ok extra) :
    ∃ fields, extraObject row.extra = some fields := by
  have hno : ∀ j : Json, row.extra = j → j ≠ .null → j.isObject = false → False := by
    intro j hj hnull hobj
    have hset : ∀ k v, j.set k v = j := by
      cases j with
      | obj fields => cases hobj
      | null | bool b | int n | float t | str s | arr l => exact fun _ _ => rfl
    have hrender : buildExtra row = j.render := by
      rw [buildExtra, hj]
      cases j with
      | obj fields => cases hobj
      | null => exact absurd rfl hnull
      | bool b | int n | float t | str s | arr l => simp [hset]
    have hempty : j.render ≠ "" := by
      intro hj'
      have hread : unmarshal j.render = .ok j := unmarshal_render (hj ▸ hwf)
      rw [hj'] at hread
      cases hread
    rw [hrender, readExtra, if_neg hempty, unmarshalMap, unmarshal_render (hj ▸ hwf)] at h
    cases j with
    | obj fields => cases hobj
    | null => exact hnull rfl
    | bool b | int n | float t | str s | arr l => cases h
  cases hj : row.extra with
  | null => exact ⟨[], rfl⟩
  | obj fields => exact ⟨fields, rfl⟩
  | bool b | int n | float t | str s | arr l => exact (hno _ hj (by simp) rfl).elim

section

variable {env : Env} {db : Db} {now : ℤ} {i : Inbound}

theorem decryptOption_ok {o p : Option String} (h : env.decryptOption o = .ok p) :
    p.isSome = o.isSome ∧ (p.getD "" = "" ↔ ∀ s ∈ o, env.decrypt s = .ok "") := by
  cases o with
  | none =>
    obtain rfl := ok.inj h
    simp
  | some s =>
    obtain ⟨t, ht, rfl⟩ := map_eq_ok.mp h
    simp [ht]

variable {users : List User} {chain : List (String × String × Option String)}
  (hchain : chainUsersForExit env db i.id = .ok chain)
include hchain

theorem chain_of_listed {c : String × String × Option String} (hc : c ∈ chain) : ∃ j ∈ chainsTo db i, ∃ password,
      env.decryptOption j.chainPassword = .ok password ∧ c = (chainLabel j, j.chainUuid.getD "", password) := by
  obtain ⟨j, hj, hto, password, hpassword, rfl⟩ := (mem_chainUsers hchain).mp hc
  exact ⟨j, mem_filter.mpr ⟨hj, by simpa using hto⟩, password, hpassword, rfl⟩

theorem listed_of_chain {j : Inbound} (hj : j ∈ chainsTo db i) :
    ∃ password, env.decryptOption j.chainPassword = .ok password ∧
      (chainLabel j, j.chainUuid.getD "", password) ∈ chain := by
  obtain ⟨c, hc, h⟩ := mem_mapM hchain j hj
  obtain ⟨password, hpassword, h⟩ := bind_eq_ok.mp h
  exact ⟨password, hpassword, (ok.inj h).symm ▸ hc⟩

variable (husers : usersWithNodeAccess env db i.nodeId = .ok users) (row : Inbound)
include husers

theorem users_nil_iff : (users.filter (·.isActive now)).map (inboundUser row) ++ chain.map (chainUser row) = [] ↔
      Unused db now i := by
  rw [append_eq_nil_iff, map_eq_nil_iff, map_eq_nil_iff, Unused]
  simp only [eq_nil_iff_forall_not_mem]
  refine and_congr ⟨fun h u hu => ?_, fun h x hx => ?_⟩ ⟨fun h j hj => ?_, fun h c hc => ?_⟩
  · obtain ⟨x, hx, -⟩ := listed_of_active husers hu
    exact h x hx
  · obtain ⟨u, hu, -⟩ := active_of_listed husers hx
    exact h u hu
  · obtain ⟨password, -, hc⟩ := listed_of_chain hchain hj
    exact h _ hc
  · obtain ⟨j, hj, -⟩ := chain_of_listed hchain hc
    exact h j hj

theorem users_passwordless_iff :
    (∀ x ∈ (users.filter (·.isActive now)).map (inboundUser row) ++ chain.map (chainUser row),
      x.name = "" ∨ x.password = "") ↔ Passwordless env db now i := by
  rw [forall_mem_append, forall_mem_map, forall_mem_map]
  have hlabel : ∀ j : Inbound, chainLabel j ≠ "" := by
    intro j h
    have := congrArg String.toList h
    simp [chainLabel] at this
  refine and_congr ⟨fun h u hu => ?_, fun h x hx => ?_⟩ ⟨fun h j hj => ?_, fun h c hc => ?_⟩
  · obtain ⟨x, hx, hux⟩ := listed_of_active husers hu
    obtain ⟨hname, hpassword, -⟩ := decryptUser_ok now hux
    rcases h x hx with h | h
    · exact .inl (hname ▸ h)
    · exact .inr (hpassword.trans (congrArg _ h))
  · obtain ⟨u, hu, hux⟩ := active_of_listed husers hx
    obtain ⟨hname, hpassword, -⟩ := decryptUser_ok now hux
    rcases h u hu with h | h
    · exact .inl (hname.trans h)
    · exact .inr (ok.inj (hpassword.symm.trans h))
  · obtain ⟨password, hpassword, hc⟩ := listed_of_chain hchain hj
    rcases h _ hc with h | h
    · exact absurd h (hlabel j)
    · exact (decryptOption_ok hpassword).2.mp h
  · obtain ⟨j, hj, password, hpassword, rfl⟩ := chain_of_listed hchain hc
    exact .inr ((decryptOption_ok hpassword).2.mpr (h j hj))

end

/-! ### Entries -/

/-- What the agent holds of an inbound of the database. -/
structure Entry (env : Env) (db : Db) (now : ℤ) (i : Inbound) (ib : SpecInbound) : Prop where
  server : serverOf ib = coreOfInbound i.kind i.core
  tag : ib.tag = i.tag
  available : ib.upstreamOutboundJson ≠ "" ↔ ChainAvailable db i
  outbound : ib.upstreamOutboundJson = "" ∨ ∃ fields kind,
    ib.upstreamOutboundJson = render (.obj fields) ∧ IsOutbound kind (.obj fields) ∧
    kind ∈ outboundKinds ∧ get? (.obj fields) "tag" = some (.str ("chain-" ++ i.tag))
  unused : ib.users = [] ↔ Unused db now i
  passwordless : (∀ x ∈ ib.users, x.name = "" ∨ x.password = "") ↔ Passwordless env db now i
  extra : (∃ extra, readExtra ib.extraJson = .ok extra) → wellFormed i.extra →
    ∃ extra, readExtra ib.extraJson = .ok extra ∧ wellFormed (.obj extra) ∧
      ∀ k, k ≠ "acme" → k ≠ "udpIdleTimeout" → get? (.obj extra) k = i.extra.get? k

section

variable {env : Env} {keys : Keys} {db : Db} {now : ℤ} {node : Uuid} {i : Inbound} {ib : SpecInbound}

theorem entry_of_row {row : Inbound} {users : List User}
    (husers : usersWithNodeAccess env db i.nodeId = .ok users) (hrow : env.decryptInbound i = .ok row)
    (h : buildInbound env db (users.filter (·.isActive now)) row = .ok ib) : Entry env db now i ib := by
  obtain ⟨key, -, hrow⟩ := bind_eq_ok.mp hrow
  obtain ⟨password, hpassword, hrow⟩ := bind_eq_ok.mp hrow
  obtain rfl := ok.inj hrow
  obtain ⟨port, chain, upstream, tls, -, hchain, hupstream, -, rfl⟩ := buildInbound_eq_ok.mp h
  have htext := upstreamOutbound_text hupstream
  refine ⟨rfl, rfl, ?_, htext, users_nil_iff hchain husers _, users_passwordless_iff hchain husers _, ?_⟩
  · rw [upstream_ne_iff hupstream, ChainAvailable, ChainAvailable]
    rw [(decryptOption_ok hpassword).1]
  · rintro ⟨extra, hextra⟩ hwf
    obtain ⟨fields, hfields⟩ := extraObject_of_readable hwf hextra
    have hobj : wellFormed (.obj fields) ∧ ∀ k, get? (.obj fields) k = i.extra.get? k := by
      cases hi : i.extra with
      | null =>
        rw [hi] at hfields
        obtain rfl := Option.some.inj hfields
        exact ⟨rfl, fun _ => rfl⟩
      | obj fs =>
        rw [hi] at hfields hwf
        obtain rfl := Option.some.inj hfields
        exact ⟨hwf, fun _ => rfl⟩
      | bool b | int n | float t | str s | arr l => simp [hi, extraObject] at hfields
    refine ⟨_, readExtra_buildExtra hfields hobj.1, wellFormed_withTimeout hobj.1, fun k _ hk => ?_⟩
    rw [get?_withTimeout hk, hobj.2]

theorem Entry.kept {ib' : SpecInbound} (h : Entry env db now i ib) (hkept : Kept ib ib') : Entry env db now i ib' := by
  refine ⟨hkept.serverOf.trans h.server, hkept.tag.trans h.tag, hkept.upstream ▸ h.available,
    hkept.upstream ▸ h.outbound, hkept.users ▸ h.unused, hkept.users ▸ h.passwordless, ?_⟩
  intro hread hwf
  obtain ⟨extra, hextra, hwf', hget⟩ := h.extra (hkept.readable hread) hwf
  obtain ⟨extra', hextra', hwf'', hget'⟩ := hkept.extra extra hextra hwf'
  exact ⟨extra', hextra', hwf'', fun k hacme hk => (hget' k hacme).trans (hget k hacme hk)⟩

/-- Every enabled inbound of the node has an entry, and there are no others. -/
structure Entries (env : Env) (db : Db) (now : ℤ) (node : Uuid) (ibs : List SpecInbound) : Prop where
  of_spec : ∀ ib ∈ ibs, ∃ i ∈ db.inbounds.rows, i.nodeId = node ∧ i.enabled ∧ Entry env db now i ib
  of_db : ∀ i ∈ db.inbounds.rows, i.nodeId = node → i.enabled → ∃ ib ∈ ibs, Entry env db now i ib

theorem entries_of_build {m : Manager} {spec spec' : NodeSpec}
    (hspec : (buildNodeSpec env keys db node now).2 = .ok spec) (hprep : Prepared m spec spec') :
    Entries env db now node spec'.inbounds := by
  obtain ⟨active, -, -, hinbounds, -⟩ := buildNodeSpec_ok (Prod.ext rfl hspec)
  simp only [buildInbounds, bind_eq_ok] at hinbounds
  obtain ⟨rows, hrows, users, husers, ibs, hibs, h⟩ := hinbounds
  obtain ⟨rfl, rfl⟩ := Prod.mk.inj (ok.inj h)
  obtain ⟨f, hf, hkept⟩ := prepared_kept hprep
  rw [hf]
  refine ⟨fun ib' hib' => ?_, fun i hi hnode henabled => ?_⟩
  · obtain ⟨ib, hib, rfl⟩ := mem_map.mp hib'
    obtain ⟨row, hrow, hbuild⟩ := mapM_mem hibs ib hib
    obtain ⟨i, hi, hdecrypt⟩ := mapM_mem hrows row hrow
    rw [mem_insertionSort, mem_filter, decide_eq_true_eq] at hi
    obtain ⟨hi, rfl, henabled⟩ := hi
    exact ⟨i, hi, rfl, henabled, (entry_of_row husers hdecrypt hbuild).kept (hkept ib)⟩
  · subst hnode
    obtain ⟨row, hrow, hdecrypt⟩ := mem_mapM hrows i ((mem_insertionSort _).mpr
      (mem_filter.mpr ⟨hi, decide_eq_true ⟨rfl, henabled⟩⟩))
    obtain ⟨ib, hib, hbuild⟩ := mem_mapM hibs row hrow
    exact ⟨f ib, mem_map_of_mem hib, (entry_of_row husers hdecrypt hbuild).kept (hkept ib)⟩

end

section

variable {env : Env} {db : Db} {now : ℤ} {node : Uuid} {i : Inbound} {ib : SpecInbound} {go : Go}

/-- sing-box has a chain for the entry exactly if it is available. -/
theorem Entry.chainOf_isSome (h : Entry env db now i ib) : (chainOf go ib).isSome ↔ ChainAvailable db i := by
  rw [← h.available]
  rcases h.outbound with hempty | ⟨fields, kind, htext, hout, -, htag⟩
  · simp [chainOf, Singbox.buildChain, hempty]
  · rw [chainOf, buildChain_text htext hout htag (chain_ne i.tag), htext]
    simp [render_obj_ne]

theorem Entry.chainOf_outbound (h : Entry env db now i ib) : ∀ x ∈ chainOf go ib,
    x.2 = "chain-" ++ ib.tag ∧ textOf x.1 "tag" = some x.2 ∧ ∃ kind ∈ outboundKinds, textOf x.1 "type" = some kind := by
  intro x hx
  rcases h.outbound with hempty | ⟨fields, kind, htext, hout, hkind, htag⟩
  · simp [chainOf, Singbox.buildChain, hempty] at hx
  · rw [chainOf, buildChain_text htext hout htag (chain_ne i.tag)] at hx
    obtain rfl := Option.some.inj hx
    exact ⟨by rw [h.tag], by rw [textOf, htag]; rfl, kind, hkind, by rw [textOf, hout.type]; rfl⟩

variable (he : Entry env db now i ib) (hwf : wellFormed i.extra)
include he hwf

theorem Entry.settings {extra : List (String × Json)} (h : readExtra ib.extraJson = .ok extra) :
    wellFormed (.obj extra) ∧ ∀ k, k ≠ "acme" → k ≠ "udpIdleTimeout" → get? (.obj extra) k = i.extra.get? k := by
  obtain ⟨extra', hread, hsame⟩ := he.extra ⟨extra, h⟩ hwf
  obtain rfl := ok.inj (h.symm.trans hread)
  exact hsame

theorem Entry.singbox {block : Json} (hcore : coreOfInbound i.kind i.core = .singbox)
    (h : Singbox.buildInbound go ib = .ok block) :
    (singboxIdle block ↔ Idle env db now i) ∧ textOf block "tag" = configTag i := by
  obtain ⟨extra, hread, hblock⟩ := singbox_block h
  obtain ⟨hwf', hget⟩ := he.settings hwf hread
  obtain ⟨htag, husers, hpassword⟩ := hblock hwf'
  rw [hget _ (by decide) (by decide)] at htag husers hpassword
  constructor
  · rw [singboxIdle, husers, hpassword, Idle, hcore, Bool.and_eq_true, Option.isNone_iff_eq_none, and_comm]
    cases i.extra.get? "users" with
    | some users => rfl
    | none =>
      rw [← he.unused]
      by_cases hnil : ib.users = []
      · simp [hnil]
      · simp [hnil, isEmptyArray_map]
  · rw [textOf, htag, configTag, he.tag]
    cases i.extra.get? "tag" with
    | some tag => rfl
    | none => rfl

theorem Entry.xray {block : Json} (hcore : coreOfInbound i.kind i.core = .xray)
    (h : XrayCore.buildInbound go ib = .ok block) : (block.get? "settings").any settingsIdle ↔ Idle env db now i := by
  obtain ⟨extra, hread, hblock⟩ := xray_block h
  obtain ⟨hwf', hget⟩ := he.settings hwf hread
  rw [hblock hwf', hget _ (by decide) (by decide), Idle, hcore]
  cases i.extra.get? "settings" with
  | some settings => rfl
  | none => exact (settingsIdle_built ib.type ib.users).trans he.unused

theorem Entry.hysteria {config : Json} (hcore : coreOfInbound i.kind i.core = .hysteria)
    (h : Hysteria.inboundConfig go ib = .ok config) : (config.get? "auth").any authIdle ↔ Idle env db now i := by
  obtain ⟨extra, hread, hblock⟩ := hysteria_block h
  obtain ⟨hwf', hget⟩ := he.settings hwf hread
  rw [hblock hwf', hget _ (by decide) (by decide), Idle, hcore]
  cases i.extra.get? "auth" with
  | some auth => rfl
  | none => exact (authIdle_userpass ib.users).trans he.passwordless

end

/-! ### Kept on the chain -/

theorem foldlM_rounds {β : Type} {body : β → SpecInbound → Except String β} :
    ∀ {ibs : List SpecInbound} {c c' : β}, ibs.foldlM body c = .ok c' →
    ∀ ib ∈ ibs, ∃ a b, body a ib = .ok b
  | [], _, _, _, ib, hib => absurd hib not_mem_nil
  | ib₁ :: ibs, c, c', h, ib, hib => by
    obtain ⟨mid, hmid, h⟩ := bind_eq_ok.mp h
    rcases mem_cons.mp hib with rfl | hib
    · exact ⟨c, mid, hmid⟩
    · exact foldlM_rounds h ib hib

section

variable {env : Env} {db : Db} {now : ℤ} {node : Uuid} {spec : NodeSpec} {i : Inbound} {ib : SpecInbound}
  {go : Go} {api : Option String} {tools : Tools} {sha : String → String}
  {check : ServerCore → String → Option String} {configs : List (ServerCore × Option String)}

theorem buildConfigOf_of_configs {k : ServerCore} (hk : serverOf ib = k)
    (h : validateCandidate (serverWith go api tools sha) check spec = .ok configs) (hib : ib ∈ spec.inbounds) :
    ib ∈ (coreSpec spec k).inbounds ∧ ∃ cfg, buildConfigOf go api k (coreSpec spec k) = .ok cfg := by
  have hmem : ib ∈ (coreSpec spec k).inbounds := mem_filter.mpr ⟨hib, decide_eq_true hk⟩
  have hkind : k ∈ kinds := by cases k <;> decide
  obtain ⟨x, -, hx⟩ := mem_mapM h k hkind
  rcases candidate_ok_iff.mp ⟨x, hx⟩ with hnil | ⟨cfg, hcfg, -⟩
  · rw [hnil] at hmem
    cases hmem
  · exact ⟨hmem, cfg, hcfg⟩

/-- A rule takes the traffic of an entry exactly if the database says so. -/
theorem carried_iff (hentries : Entries env db now i.nodeId spec.inbounds)
    (hcore : coreOfInbound i.kind i.core = .singbox) :
    Carried db i ↔ ∃ ib ∈ (coreSpec spec .singbox).inbounds, (chainOf go ib).isSome ∧ configTag i = some ib.tag := by
  constructor
  · rintro ⟨-, j, hj, hnode, henabled, hsingbox, havailable, htag⟩
    obtain ⟨ib, hib, he⟩ := hentries.of_db j hj hnode henabled
    refine ⟨ib, mem_filter.mpr ⟨hib, decide_eq_true (he.server.trans hsingbox)⟩, he.chainOf_isSome.mpr havailable, ?_⟩
    rw [htag, he.tag]
  · rintro ⟨ib, hib, hchain, htag⟩
    obtain ⟨hib, hserver⟩ := mem_filter.mp hib
    obtain ⟨j, hj, hnode, henabled, he⟩ := hentries.of_spec ib hib
    refine ⟨hcore, j, hj, hnode, henabled, he.server.symm.trans (of_decide_eq_true hserver),
      he.chainOf_isSome.mp hchain, ?_⟩
    rw [htag, he.tag]

section Direct

variable (hentries : Entries env db now i.nodeId spec.inbounds)
  (h : validateCandidate (serverWith go api tools sha) check spec = .ok configs) (hib : ib ∈ spec.inbounds)
  (he : Entry env db now i ib) (hwf : wellFormed i.extra)
include h hib he hwf

include hentries in
theorem singbox_sentDirect (hserver : serverOf ib = .singbox) :
    SentDirect go spec ib ↔ ¬ (Carried db i ∨ Idle env db now i) := by
  obtain ⟨hmem, cfg, hcfg⟩ := buildConfigOf_of_configs hserver h hib
  have hcore := he.server.symm.trans hserver
  obtain ⟨c, hc, -⟩ := bind_eq_ok.mp hcfg
  obtain ⟨a, b, hround⟩ := foldlM_rounds (foldlM_of_buildLoop hc) ib hmem
  obtain ⟨block, hblock, -⟩ := bind_eq_ok.mp hround
  obtain ⟨hidle, htag⟩ := he.singbox hwf hcore hblock
  have hdirect : sendsDirect c block ↔ ¬ Carried db i := by
    rw [sendsDirect_iff (foldlM_of_buildLoop hc), htag, carried_iff hentries hcore]
    intro ib₁ hib₁
    obtain ⟨j, -, -, -, hj⟩ := hentries.of_spec ib₁ (mem_filter.mp hib₁).1
    exact hj.chainOf_outbound
  rw [SentDirect, hserver, not_or, ← hidle, Bool.not_eq_true]
  constructor
  · rintro ⟨c', block', hc', hblock', hserved, hsends⟩
    obtain rfl := ok.inj (hc.symm.trans hc')
    obtain rfl := ok.inj (hblock.symm.trans hblock')
    exact ⟨hdirect.mp hsends, hserved⟩
  · rintro ⟨hcarried, hserved⟩
    exact ⟨c, block, hc, hblock, hserved, hdirect.mpr hcarried⟩

theorem xray_sentDirect (hserver : serverOf ib = .xray) :
    SentDirect go spec ib ↔ ¬ (Carried db i ∨ Idle env db now i) := by
  obtain ⟨hmem, cfg, hcfg⟩ := buildConfigOf_of_configs hserver h hib
  have hcore := he.server.symm.trans hserver
  obtain ⟨c, hc, -⟩ := bind_eq_ok.mp hcfg
  obtain ⟨a, b, hround⟩ := foldlM_rounds (foldlM_of_buildLoop hc) ib hmem
  obtain ⟨block, hblock, -⟩ := bind_eq_ok.mp hround
  have hnot : ¬ Carried db i := fun hcarried => absurd (hcore.symm.trans hcarried.1) (by decide)
  rw [or_iff_right hnot, ← he.xray hwf hcore hblock, Bool.not_eq_true, SentDirect, hserver]
  exact exists_ok_iff hblock

theorem hysteria_sentDirect (hserver : serverOf ib = .hysteria) :
    SentDirect go spec ib ↔ ¬ (Carried db i ∨ Idle env db now i) := by
  obtain ⟨hmem, cfg, hcfg⟩ := buildConfigOf_of_configs hserver h hib
  have hcore := he.server.symm.trans hserver
  obtain ⟨config, hconfig⟩ : ∃ config, Hysteria.inboundConfig go ib = .ok config := by
    rw [buildConfigOf, Hysteria.buildConfig] at hcfg
    split at hcfg
    · rename_i hnil
      rw [hnil] at hmem
      cases hmem
    · rename_i hsingle
      rw [hsingle, mem_singleton] at hmem
      obtain ⟨config, hconfig, -⟩ := map_eq_ok.mp hcfg
      exact ⟨config, hmem ▸ hconfig⟩
    · cases hcfg
  have hnot : ¬ Carried db i := fun hcarried => absurd (hcore.symm.trans hcarried.1) (by decide)
  rw [or_iff_right hnot, ← he.hysteria hwf hcore hconfig, Bool.not_eq_true, SentDirect, hserver]
  exact exists_ok_iff hconfig

include hentries in
theorem sentDirect_iff : SentDirect go spec ib ↔ ¬ (Carried db i ∨ Idle env db now i) := by
  cases hserver : serverOf ib with
  | singbox => exact singbox_sentDirect hentries h hib he hwf hserver
  | xray => exact xray_sentDirect h hib he hwf hserver
  | hysteria => exact hysteria_sentDirect h hib he hwf hserver

end Direct

end

/-- The traffic of an inbound with an upstream stays off the direct outbound exactly if the inbound is
    disabled, its chain is carried, or it serves nobody. -/
theorem kept_on_chain_iff (m : Manager) (api : Option String) (tools : Tools) (sha : String → String)
    (check : ServerCore → String → Option String) (env : Env) (keys : Keys) (db : Db) (node : Uuid)
    (now : ℤ) (spec spec' : NodeSpec) (configs : List (ServerCore × Option String))
    (htags : ((db.inbounds.rows.filter (·.nodeId = node)).map (·.tag)).Nodup)
    (hextra : ∀ i ∈ db.inbounds.rows, wellFormed i.extra)
    (hspec : (buildNodeSpec env keys db node now).2 = .ok spec) (hprep : Prepared m spec spec')
    (hconfigs : validateCandidate (serverWith m.go api tools sha) check spec' = .ok configs)
    (i : Inbound) (hi : i ∈ db.inbounds.rows) (hnode : i.nodeId = node) (_hup : i.upstreamInboundId.isSome) :
    (∀ ib ∈ spec'.inbounds, ib.tag = i.tag → ¬ SentDirect m.go spec' ib) ↔
      i.enabled = false ∨ Carried db i ∨ Idle env db now i := by
  have hentries := entries_of_build hspec hprep
  have hsame : ∀ ib ∈ spec'.inbounds, ib.tag = i.tag → i.enabled ∧ Entry env db now i ib := by
    intro ib hib htag
    obtain ⟨j, hj, hjnode, henabled, he⟩ := hentries.of_spec ib hib
    have hij : j = i := inj_on_of_nodup_map htags
      (mem_filter.mpr ⟨hj, decide_eq_true hjnode⟩) (mem_filter.mpr ⟨hi, decide_eq_true hnode⟩)
      (he.tag.symm.trans htag)
    exact hij ▸ ⟨henabled, he⟩
  have hdirect : ∀ ib ∈ spec'.inbounds, Entry env db now i ib →
      (SentDirect m.go spec' ib ↔ ¬ (Carried db i ∨ Idle env db now i)) :=
    fun ib hib he => sentDirect_iff (hnode ▸ hentries) hconfigs hib he (hextra i hi)
  cases henabled : i.enabled with
  | false =>
    refine iff_of_true (fun ib hib htag => ?_) (.inl rfl)
    rw [(hsame ib hib htag).1] at henabled
    cases henabled
  | true =>
    obtain ⟨ib, hib, he⟩ := hentries.of_db i hi hnode henabled
    rw [or_iff_right (by simp)]
    constructor
    · intro h
      by_contra hno
      exact h ib hib he.tag ((hdirect ib hib he).mpr hno)
    · intro h ib₁ hib₁ htag hsent
      exact (hdirect ib₁ hib₁ (hsame ib₁ hib₁ htag).2).mp hsent h

/-- An inbound of node 1 whose traffic shall leave at node 2. -/
def chainEntry : Inbound :=
  { plainInbound with
    upstreamInboundId := some 22
    chainUuid := some "c"
    chainPassword := some "s"
    extra := .obj []
    udpIdleTimeout := "60s" }

def chainExit : Inbound := { plainInbound with id := 22, nodeId := 2, tag := "out" }

/-- Both, for `alice`, with node 2 in service or in maintenance. -/
def chainNodes (maintenance : Bool) : Db :=
  { limited with
    inbounds := (Table.empty.put chainEntry).put chainExit
    nodes := (Table.empty.put ⟨1, "a", "a", true, false, none, none, none⟩).put
      ⟨2, "b", "b", true, maintenance, none, none, none⟩ }

theorem chainNodes_configs (maintenance : Bool) : ∃ spec spec' configs,
    (buildNodeSpec plainEnv plainCall.keys (chainNodes maintenance) 1 0).2 = .ok spec ∧
      Prepared plainManager spec spec' ∧ validateCandidate (serverWith plainManager.go none plainServer.tools id)
        (ownCheck plainManager.go) spec' = .ok configs := by
  obtain ⟨spec, hspec⟩ : ∃ spec, (buildNodeSpec plainEnv plainCall.keys (chainNodes maintenance) 1 0).2 = .ok spec := by
    cases maintenance <;> exact ⟨_, rfl⟩
  have hrows : enabledNodeInbounds plainEnv (chainNodes maintenance) 1 = .ok [chainEntry] := rfl
  have hvalid : validateInbound chainEntry = .ok () := by decide
  have hoff : acmeOf chainEntry = none := rfl
  have hcompatible : Compatible plainManager [chainEntry] :=
    ⟨by simp [hoff], by simp [hoff], by simp, by decide, by simp [chainEntry, plainInbound]⟩
  have haccepted : Accepted plainManager none plainServer.tools id plainFiles spec :=
    (accepted_built_iff (specOf_of_build hrows hspec) (by simpa using admitted_of_valid hvalid)
      (by decide) (by decide)).mpr hcompatible
  obtain ⟨spec', hprepare, hcandidates⟩ := accepted_iff_stages.mp haccepted
  obtain ⟨configs, hconfigs⟩ := mapM_ok_iff.mpr hcandidates
  exact ⟨spec, spec', configs, hspec, .pass _ _ .plain hprepare, hconfigs⟩

/-- With both nodes in service the traffic is kept on the chain. -/
theorem serving_exit_kept : ∃ spec spec',
    (buildNodeSpec plainEnv plainCall.keys (chainNodes false) 1 0).2 = .ok spec ∧ Prepared plainManager spec spec' ∧
      ∀ ib ∈ spec'.inbounds, ib.tag = "in" → ¬ SentDirect plainManager.go spec' ib := by
  obtain ⟨spec, spec', configs, hspec, hprep, hconfigs⟩ := chainNodes_configs false
  have hin : chainEntry ∈ (chainNodes false).inbounds.rows := mem_cons_self
  refine ⟨spec, spec', hspec, hprep, (kept_on_chain_iff plainManager none plainServer.tools id _ plainEnv
    plainCall.keys _ 1 0 spec spec' configs (by decide) (by decide) hspec hprep hconfigs chainEntry hin
    rfl rfl).mpr (.inr (.inl ?_))⟩
  refine ⟨rfl, chainEntry, hin, rfl, rfl, rfl, ⟨by decide, rfl, rfl, ?_⟩, rfl⟩
  exact ⟨22, rfl, chainExit, ⟨2, "b", "b", true, false, none, none, none⟩, rfl, rfl, rfl, rfl, by decide⟩

/-- While the node of the exit is in maintenance, `alice` goes out at node 1. -/
theorem maintenance_sent_direct : validateInbound chainEntry = .ok () ∧
    chainEntry ∈ (chainNodes true).inbounds.rows ∧ chainEntry.upstreamInboundId = some 22 ∧
    ∃ spec spec' configs, (buildNodeSpec plainEnv plainCall.keys (chainNodes true) 1 0).2 = .ok spec ∧
      Prepared plainManager spec spec' ∧ validateCandidate (serverWith plainManager.go none plainServer.tools id)
        (ownCheck plainManager.go) spec' = .ok configs ∧
      ∃ ib ∈ spec'.inbounds, ib.tag = chainEntry.tag ∧ SentDirect plainManager.go spec' ib := by
  obtain ⟨spec, spec', configs, hspec, hprep, hconfigs⟩ := chainNodes_configs true
  have hin : chainEntry ∈ (chainNodes true).inbounds.rows := mem_cons_self
  have hentries := entries_of_build hspec hprep
  obtain ⟨ib, hib, he⟩ := hentries.of_db chainEntry hin rfl rfl
  refine ⟨by decide, hin, rfl, spec, spec', configs, hspec, hprep, hconfigs, ib, hib, he.tag,
    (sentDirect_iff hentries hconfigs hib he (by decide)).mpr ?_⟩
  rintro (⟨-, j, hj, hnode, -, -, havailable, -⟩ | ⟨-, hunused⟩)
  · -- the entry is the only inbound of node 1, and its exit is not available
    obtain ⟨-, -, -, exit, hexit, e, n, hfind, -, hn, -, hmaintenance⟩ := havailable
    rcases mem_cons.mp hj with rfl | hj
    · obtain rfl := Option.some.inj hexit
      obtain rfl := Option.some.inj hfind
      obtain rfl := Option.some.inj hn
      exact hmaintenance rfl
    · obtain rfl := mem_singleton.mp hj
      exact absurd hnode (by decide)
  · exact absurd hunused.1 (by decide)

end Honey
