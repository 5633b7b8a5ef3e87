import Honey.Master.Groups
import Honey.Master.Peers

/-! What the spec of a node reads, part by part.

        inbounds of the node -- chain credentials of inbounds that exit here   (any node)
                             +- endpoint of the inbound that they exit at      (any node)
        users with access    -- groups of the node, grants of the user
        interfaces           -- peers of the interface, whoever they belong to
        services

    A change of the database shows in a spec exactly if one of these parts shows it
    (`Reads.spec_eq_iff`). Errors are compared without their texts, and specs without their quotas. -/

namespace Honey.Master
open Honey.Schemes List Option Table

/-! ### Specs without quotas -/

def InboundUser.bare (u : InboundUser) : InboundUser := { u with quotaBytes := 0 }

def SpecInbound.bare (x : SpecInbound) : SpecInbound := { x with users := x.users.map InboundUser.bare }

def NodeSpec.bare (spec : NodeSpec) : NodeSpec :=
  { spec with inbounds := spec.inbounds.map SpecInbound.bare }

variable (env : Env)

/-- What `build_node_spec` gives, but for the quotas. A build that fails gives nothing. -/
def specOf (keys : Keys) (db : Db) (node : Uuid) (now : ℤ) : Option NodeSpec :=
  (buildNodeSpec env keys db node now).2.toOption.map NodeSpec.bare

/-! ### The parts of a spec -/

def NodeSpec.ofParts (services : List SpecService) (inbounds : List SpecInbound)
    (wireguard : List WireguardInterface) : NodeSpec :=
  ⟨"info", "127.0.0.1:9090", "", inbounds, wireguard, services⟩

/-- What a spec is put together from, each part without the text of its error. -/
structure Reads where
  rows : Option (List Inbound)
  users : Option (List User)
  inbound : List User → Inbound → Option SpecInbound
  ifaces : Option (List WgInterface)
  face : List Uuid → WgInterface → Option WireguardInterface
  services : Option (List SpecService)

def Db.reads (keys : Keys) (db : Db) (node : Uuid) : Reads where
  rows := (enabledNodeInbounds env db node).toOption
  users := (usersWithNodeAccess env db node).toOption
  inbound active ib := (buildInbound env db active ib).toOption.map SpecInbound.bare
  ifaces := (enabledWgInterfaces env db node).toOption
  face active iface := wgFace env keys active iface (peersAt db.wgPeers iface.id)
  services := (enabledNodeServices env db node).toOption

namespace Reads

variable (r : Reads) (now : ℤ)

/-- The active users. -/
def active (users : List User) : List User := users.filter (·.isActive now)

/-- The inbounds and the interfaces, put together. -/
def both (services : List SpecService) (rows : List Inbound) (users : List User) (ifaces : List WgInterface) :
    Option NodeSpec :=
  (rows.mapM (r.inbound (active now users))).bind fun inbounds =>
    (ifaces.mapM (r.face ((active now users).map (·.id)))).map (NodeSpec.ofParts services inbounds)

/-- The parts, put together. -/
def spec : Option NodeSpec := do
  let rows ← r.rows
  let users ← r.users
  let ifaces ← r.ifaces
  let services ← r.services
  r.both now services rows users ifaces

theorem both_eq_iff {r r' : Reads} {g : Inbound → Inbound} {services : List SpecService} {rows : List Inbound}
    {users : List User} {ifaces : List WgInterface}
    (h : (r.both now services rows users ifaces).isSome ∨ (r'.both now services (rows.map g) users ifaces).isSome) :
    r'.both now services (rows.map g) users ifaces = r.both now services rows users ifaces ↔
      (∀ ib ∈ rows, r'.inbound (active now users) (g ib) = r.inbound (active now users) ib) ∧
      ∀ i ∈ ifaces, r'.face ((active now users).map (·.id)) i = r.face ((active now users).map (·.id)) i := by
  have hparts : ∀ {xs xs' ws ws'}, NodeSpec.ofParts services xs ws = .ofParts services xs' ws' →
      xs = xs' ∧ ws = ws' := fun h => ⟨congrArg NodeSpec.inbounds h, congrArg NodeSpec.wireguard h⟩
  have hmap : (rows.map g).mapM (r'.inbound (active now users)) =
      rows.mapM fun ib => r'.inbound (active now users) (g ib) := mapM_map
  rw [both, both, hmap] at h ⊢
  rw [pair_eq_iff hparts h]
  simp only [pair_isSome] at h
  rw [mapM_eq_iff (h.symm.imp And.left And.left), mapM_eq_iff (h.symm.imp And.right And.right)]

/-- Two specs with the same rows, users and interfaces are the same exactly if every inbound and every
    interface is, unless there is neither spec. -/
theorem spec_eq_iff {r r' : Reads} {g : Inbound → Inbound} (hrows : r'.rows = r.rows.map (List.map g))
    (husers : r'.users = r.users) (hifaces : r'.ifaces = r.ifaces) (hservices : r'.services = r.services) :
    r'.spec now = r.spec now ↔ ((r.spec now).isSome ∨ (r'.spec now).isSome →
      ∀ rows users ifaces, r.rows = some rows → r.users = some users → r.ifaces = some ifaces →
        (∀ ib ∈ rows, r'.inbound (active now users) (g ib) = r.inbound (active now users) ib) ∧
        ∀ i ∈ ifaces, r'.face ((active now users).map (·.id)) i = r.face ((active now users).map (·.id)) i) := by
  simp only [spec, hrows, husers, hifaces, hservices]
  rcases r.rows with _ | rows
  · simp
  rcases r.users with _ | users
  · simp
  rcases r.ifaces with _ | ifaces
  · simp
  rcases r.services with _ | services
  · simp
  simp only [map_some, bind_eq_bind, bind_some, some.injEq]
  constructor
  · rintro heq hsome _ _ _ rfl rfl rfl
    exact (both_eq_iff now hsome).mp heq
  · intro h
    by_cases hsome : (r.both now services rows users ifaces).isSome ∨
        (r'.both now services (rows.map g) users ifaces).isSome
    · exact (both_eq_iff now hsome).mpr (h hsome rows users ifaces rfl rfl rfl)
    · rw [not_or, not_isSome_iff_eq_none, not_isSome_iff_eq_none] at hsome
      rw [hsome.1, hsome.2]

theorem spec_of_parts {r : Reads} {rows : List Inbound} {users : List User} {ifaces : List WgInterface}
    {services : List SpecService} (h : r.rows = some rows ∧ r.users = some users ∧ r.ifaces = some ifaces ∧
      r.services = some services) : r.spec now = r.both now services rows users ifaces := by
  simp [spec, h]

theorem spec_eq_some {r : Reads} {x : NodeSpec} (h : r.spec now = some x) : ∃ rows users ifaces services,
    (r.rows = some rows ∧ r.users = some users ∧ r.ifaces = some ifaces ∧ r.services = some services) ∧
      rows.mapM (r.inbound (active now users)) = some x.inbounds ∧
      ifaces.mapM (r.face ((active now users).map (·.id))) = some x.wireguard := by
  simp only [spec, both, bind_eq_bind, bind_eq_some_iff, map_eq_some_iff] at h
  obtain ⟨rows, hrows, users, husers, ifaces, hifaces, services, hservices, xs, hxs, ws, hws, rfl⟩ := h
  exact ⟨rows, users, ifaces, services, ⟨hrows, husers, hifaces, hservices⟩, hxs, hws⟩

theorem spec_isSome_iff {r : Reads} : (r.spec now).isSome ↔ ∃ rows users ifaces services,
    (r.rows = some rows ∧ r.users = some users ∧ r.ifaces = some ifaces ∧ r.services = some services) ∧
      (∀ ib ∈ rows, (r.inbound (active now users) ib).isSome) ∧
      ∀ i ∈ ifaces, (r.face ((active now users).map (·.id)) i).isSome := by
  constructor
  · intro h
    obtain ⟨x, h⟩ := isSome_iff_exists.mp h
    obtain ⟨rows, users, ifaces, services, hparts, hxs, hws⟩ := spec_eq_some now h
    exact ⟨rows, users, ifaces, services, hparts, mapM_some_iff.mp (by rw [hxs]; rfl),
      mapM_some_iff.mp (by rw [hws]; rfl)⟩
  · rintro ⟨rows, users, ifaces, services, hparts, h⟩
    rwa [spec_of_parts now hparts, both, pair_isSome, mapM_some_iff, mapM_some_iff]

end Reads

section Parts

variable {env : Env} {keys : Keys} {db : Db} {node : Uuid} {now : ℤ}

theorem users_nodup {users : List User} (h : usersWithNodeAccess env db node = .ok users) :
    (users.map (·.id)).Nodup := by
  have hkeep := mapM_keeps (q := User.id) (fun u v huv => by
    obtain ⟨password, -, huv⟩ := bind_eq_ok.mp huv
    obtain ⟨uuid, -, huv⟩ := bind_eq_ok.mp huv
    rw [← Except.ok.inj huv]) h
  refine hkeep ▸ ((perm_insertionSort _ _).map _).nodup_iff.mpr ?_
  exact db.users.nodup.sublist (filter_sublist.map _)

theorem active_nodup (now : ℤ) {users : List User} (h : usersWithNodeAccess env db node = .ok users) :
    ((Reads.active now users).map (·.id)).Nodup :=
  (users_nodup h).sublist (filter_sublist.map _)

theorem specOf_eq : specOf env keys db node now = (db.reads env keys node).spec now := by
  rw [specOf, buildNodeSpec, Reads.spec]
  rcases hrows : enabledNodeInbounds env db node with e | rows
  · simp [Db.reads, buildInbounds, hrows, bind, Except.bind, Except.toOption]
  rcases husers : usersWithNodeAccess env db node with e | users
  · simp [Db.reads, buildInbounds, hrows, husers, bind, Except.bind, Except.toOption]
  set r := db.reads env keys node with hr
  let active := Reads.active now users
  have hbuilt : buildInbounds env db node now =
      (rows.mapM (buildInbound env db active)).map fun xs => (active, xs) := by
    rw [buildInbounds, hrows, husers]
    rfl
  have hinbounds : rows.mapM (r.inbound active) =
      ((rows.mapM (buildInbound env db active)).toOption).map (List.map SpecInbound.bare) := by
    rw [toOption_mapM]
    exact mapM_results rows
  have hok : ∀ {α : Type} a, (Except.ok a : Except String α).toOption = some a := fun _ => rfl
  rw [hbuilt, show r.rows = some rows by rw [hr, Db.reads, hrows, hok],
    show r.users = some users by rw [hr, Db.reads, husers, hok]]
  simp only [bind_eq_bind, bind_some, Reads.both]
  rw [hinbounds]
  cases hifaces : enabledWgInterfaces env db node with
  | error e =>
    rw [show r.ifaces = none by rw [hr, Db.reads, hifaces]; rfl]
    cases rows.mapM (buildInbound env db active) <;> rfl
  | ok ifaces =>
    have hwg := buildWireguard_face env keys (active_nodup now husers) ifaces db.wgPeers (wgInterfaces_nodup hifaces)
    rw [show r.ifaces = some ifaces by rw [hr, Db.reads, hifaces, hok], bind_some, show r.face (active.map (·.id)) =
        fun i => wgFace env keys (active.map (·.id)) i (peersAt db.wgPeers i.id) from rfl,
      ← hwg]
    rcases rows.mapM (buildInbound env db active) with e | inbounds
    · cases r.services <;> rfl
    simp only [Except.map]
    rcases buildWireguard env keys active db.wgPeers ifaces with ⟨peers, e | wireguard⟩
    · cases r.services <;> rfl
    · rw [show r.services = (enabledNodeServices env db node).toOption from rfl]
      cases enabledNodeServices env db node <;> rfl

end Parts

/-! ### What an inbound shows of others -/

/-- What an inbound adds to the users of its exit, as the exit shows it. -/
def Inbound.entryAt (exit : Uuid) (i : Inbound) : Option (List (String × String × String)) :=
  if i.upstreamInboundId = some exit ∧ i.enabled ∧ i.chainUuid.isSome then
    (env.decryptOption i.chainPassword).toOption.map fun password =>
      [(chainLabel i, i.chainUuid.getD "", password.getD "")]
  else some []

/-- The endpoint of an inbound, if clients can reach it. -/
def Inbound.endpoint (nodes : Table Node.id) (i : Inbound) : Option SubscriptionEndpoint :=
  (nodes.find? i.nodeId).bind fun n =>
    if i.enabled ∧ n.enabled ∧ ¬ n.maintenance then
      some ⟨n.name, n.address, i.tag, i.kind, i.listenPort, i.flow, i.tlsEnabled, i.serverName,
        i.reality, i.realityPublicKey, i.realityShortIds, i.network, i.transportPath,
        i.transportHost, i.transportServiceName, i.utlsFingerprint, i.ech, i.extra⟩
    else none

/-- The outbound of an entry to an endpoint. -/
def chainOutbound (entry : Inbound) (exit : Option SubscriptionEndpoint) : Except String String :=
  if entry.core = "xray" then .ok ""
  else match entry.chainUuid, entry.chainPassword, exit with
    | some uuid, some password, some endpoint => do
        let outbound ← singboxOutbound uuid (chainLabel entry) password endpoint
        return (outbound.set "tag" (.str ("chain-" ++ entry.tag))).render
    | _, _, _ => .ok ""

/-- An inbound of the spec without quotas, from what it shows of others. -/
def inboundWith (active : List User) (ib : Inbound) (port : ℕ) (tls : Option Tls)
    (chain : List (String × String × String)) (upstream : String) : SpecInbound where
  core := ib.core
  tag := ib.tag
  type := ib.kind
  listen := ib.listen
  listenPort := port
  users := (active.map (inboundUser ib)).map InboundUser.bare ++ chain.map fun c => ⟨c.1, c.2.1, c.2.2, ib.userFlow, 0⟩
  tls := tls
  extraJson := buildExtra ib
  transport := buildTransport ib
  upMbps := ib.upMbps.toNat
  downMbps := ib.downMbps.toNat
  upstreamOutboundJson := upstream

/-- An inbound of the spec without quotas, if it can be built. -/
def bareInbound (db : Db) (active : List User) (ib : Inbound) : Option SpecInbound :=
  (buildInbound env db active ib).toOption.map SpecInbound.bare

/-- What all inbounds add to the users of an exit. -/
def entriesAt (db : Db) (exit : Uuid) : Option (List (String × String × String)) :=
  gather (db.inbounds.rows.map (Inbound.entryAt env exit))

section Chains

variable {env : Env} {db : Db} {active : List User} {ib : Inbound}

theorem endpointForInbound_eq (id : Uuid) :
    endpointForInbound db id = (db.inbounds.find? id).bind (Inbound.endpoint db.nodes) := rfl

theorem buildChainOutbound_eq (entry : Inbound) (exit : Uuid) :
    buildChainOutbound db entry exit = chainOutbound entry (endpointForInbound db exit) := rfl

theorem chainOutbound_none (entry : Inbound) : chainOutbound entry none = .ok "" := by
  unfold chainOutbound
  split
  · rfl
  · cases entry.chainUuid <;> cases entry.chainPassword <;> rfl

/-- The chain users of an exit, gathered from all inbounds. -/
theorem chainUsers_gather (exit : Uuid) :
    (chainUsersForExit env db exit).toOption.map (List.map fun c => (c.1, c.2.1, c.2.2.getD "")) =
      entriesAt env db exit := by
  rw [chainUsersForExit, toOption_mapM, ← mapM_results, entriesAt]
  induction db.inbounds.rows with
  | nil => rfl
  | cons i rows ih =>
    rw [map_cons, gather, Inbound.entryAt]
    split
    · rename_i hentry
      rw [filter_cons_of_pos (by simpa using hentry), mapM_cons, ih]
      cases env.decryptOption i.chainPassword with
      | error e => rfl
      | ok password => cases gather (rows.map (Inbound.entryAt env exit)) <;> rfl
    · rename_i hentry
      rw [filter_cons_of_neg (by simpa using hentry), ih]
      simp

/-- An inbound without quotas depends on its own row, the active users, its chain users and its outbound. -/
theorem bareInbound_eq : bareInbound env db active ib =
    (portIn ib.listenPort).bind fun port => (buildTls ib).toOption.bind fun tls =>
      (entriesAt env db ib.id).bind fun chain =>
        (upstreamOutbound db ib).toOption.map (inboundWith active ib port tls chain) := by
  rw [← chainUsers_gather, bareInbound, buildInbound]
  rcases portIn ib.listenPort with _ | port
  · rfl
  rcases chainUsersForExit env db ib.id with e | chain
  · cases buildTls ib <;> rfl
  rcases upstreamOutbound db ib with e | upstream
  · cases buildTls ib <;> rfl
  rcases buildTls ib with e | tls
  · rfl
  have husers : (active.map (inboundUser ib) ++ chain.map (chainUser ib)).map InboundUser.bare =
      (active.map (inboundUser ib)).map InboundUser.bare ++
        (chain.map fun c => (c.1, c.2.1, c.2.2.getD "")).map fun c =>
          (⟨c.1, c.2.1, c.2.2, ib.userFlow, 0⟩ : InboundUser) := by
    rw [map_append, map_map (l := chain), map_map (l := chain)]
    rfl
  simp [bind, Except.bind, Except.toOption, pure, Except.pure, SpecInbound.bare, husers, inboundWith]

theorem parts_of_bareInbound (h : (bareInbound env db active ib).isSome) : (entriesAt env db ib.id).isSome := by
  rw [bareInbound_eq] at h
  cases hchain : entriesAt env db ib.id with
  | none => cases portIn ib.listenPort <;> cases (buildTls ib).toOption <;> simp [hchain] at h
  | some chain => rfl

theorem inboundWith_injective {port : ℕ} {tls : Option Tls} {chain chain' : List (String × String × String)}
    {upstream upstream' : String}
    (h : inboundWith active ib port tls chain upstream = inboundWith active ib port tls chain' upstream') :
    chain = chain' ∧ upstream = upstream' := by
  have husers := append_cancel_left (congrArg SpecInbound.users h)
  have hinj : Function.Injective fun c : String × String × String =>
      (⟨c.1, c.2.1, c.2.2, ib.userFlow, 0⟩ : InboundUser) := by
    rintro ⟨a, b, c⟩ ⟨a', b', c'⟩ heq
    simpa using heq
  exact ⟨map_injective_iff.mpr hinj husers, congrArg SpecInbound.upstreamOutboundJson h⟩

theorem bareInbound_eq_iff {db' : Db} (exit : Option Uuid) (h : (bareInbound env db active ib).isSome ∨
      (bareInbound env db' active { ib with upstreamInboundId := exit }).isSome) :
    bareInbound env db' active { ib with upstreamInboundId := exit } = bareInbound env db active ib ↔
      entriesAt env db' ib.id = entriesAt env db ib.id ∧
      (upstreamOutbound db' { ib with upstreamInboundId := exit }).toOption = (upstreamOutbound db ib).toOption := by
  have hshape : bareInbound env db' active { ib with upstreamInboundId := exit } =
      (portIn ib.listenPort).bind fun port => (buildTls ib).toOption.bind fun tls =>
        (entriesAt env db' ib.id).bind fun chain =>
          (upstreamOutbound db' { ib with upstreamInboundId := exit }).toOption.map
            (inboundWith active ib port tls chain) := bareInbound_eq
  rw [hshape, bareInbound_eq] at h ⊢
  rcases hport : portIn ib.listenPort with _ | port
  · simp [hport] at h
  cases htls : (buildTls ib).toOption with
  | none => simp [htls] at h
  | some tls =>
    simp only [hport, htls] at h ⊢
    exact pair_eq_iff inboundWith_injective h

end Chains

/-! ### One inbound replaced -/

/-- What `ON DELETE SET NULL` does to the exit of an inbound, where a row is deleted. -/
def upstreamAfter (id : Uuid) (new : Option Inbound) (exit : Option Uuid) : Option Uuid :=
  if new.isNone ∧ exit = some id then none else exit

/-- Another inbound, after a row was written or deleted. -/
def Inbound.afterRow (id : Uuid) (new : Option Inbound) (i : Inbound) : Inbound :=
  { i with upstreamInboundId := upstreamAfter id new i.upstreamInboundId }

theorem afterRow_id (id : Uuid) (new : Option Inbound) (i : Inbound) : (i.afterRow id new).id = i.id := rfl

/-- One inbound written, or deleted. -/
def Db.withInbound (db : Db) (id : Uuid) : Option Inbound → Db
  | some row => { db with inbounds := db.inbounds.put row }
  | none => { db with
      inbounds := (db.inbounds.keep (·.id ≠ id)).alter (Inbound.afterRow id none) (afterRow_id id none) }

/-- What a row adds to the users of an exit, if there is a row. -/
def rowEntry (exit : Uuid) (row : Option Inbound) : Option (List (String × String × String)) :=
  row.elim (some []) (Inbound.entryAt env exit)

/-- The outbound of an inbound through a row, if there is a row. -/
def rowLink (nodes : Table Node.id) (x : Inbound) (row : Option Inbound) : Option String :=
  (env.decryptInbound x).toOption.bind fun y =>
    (chainOutbound y (row.bind (Inbound.endpoint nodes))).toOption

/-- An inbound shows the same of two states of a row. -/
structure ShowsSame (env : Env) (nodes : Table Node.id) (id : Uuid) (old new : Option Inbound) (x : Inbound) :
    Prop where
  entry : rowEntry env x.id new = rowEntry env x.id old
  link : x.upstreamInboundId = some id → rowLink env nodes x new = rowLink env nodes x old

section Replaced

variable {env : Env} {keys : Keys} {db : Db} {id m : Uuid} {new : Option Inbound} {now : ℤ}

attribute [local simp] Inbound.afterRow upstreamAfter

theorem afterRow_some (row i : Inbound) : i.afterRow id (some row) = i := by
  simp

theorem entryAt_afterRow {exit : Uuid} (h : exit ≠ id) (i : Inbound) :
    (i.afterRow id new).entryAt env exit = i.entryAt env exit := by
  have hexit : (i.afterRow id new).upstreamInboundId = some exit ↔ i.upstreamInboundId = some exit := by
    simp only [Inbound.afterRow, upstreamAfter]
    split
    · rename_i hcut
      simp [hcut.2, Ne.symm h]
    · rfl
  simp only [Inbound.entryAt, hexit]
  rfl

theorem rows_withInbound (db : Db) (hnew : ∀ row ∈ new, row.id = id) : ∃ pre post,
    db.inbounds.rows = pre ++ (db.inbounds.find? id).toList ++ post ∧
      (db.withInbound id new).inbounds.rows = (pre ++ new.toList ++ post).map (Inbound.afterRow id new) := by
  have hsame : ∀ row (l : List Inbound), l.map (Inbound.afterRow id (some row)) = l := by
    intro row l
    rw [funext (afterRow_some row), List.map_id']
  cases hold : db.inbounds.find? id with
  | none =>
    refine ⟨db.inbounds.rows, [], by simp, ?_⟩
    cases new with
    | none =>
      rw [Db.withInbound, keep_ne_of_find?_none hold]
      simp [alter]
    | some row =>
      rw [hsame, append_nil]
      exact rows_put_new (hnew row rfl ▸ hold)
  | some old =>
    obtain ⟨pre, post, hrows, hkept, hput⟩ := rows_around hold
    refine ⟨pre, post, by simp [hrows], ?_⟩
    cases new with
    | none =>
      rw [toList_none, append_nil, ← hkept]
      rfl
    | some row =>
      rw [hsame, Db.withInbound, hput row (hnew row rfl)]
      simp

theorem entriesAt_withInbound (env : Env) (db : Db) {exit : Uuid} (h : exit ≠ id) (hnew : ∀ row ∈ new, row.id = id) :
    ∃ pre post, entriesAt env db exit = gather (pre ++ rowEntry env exit (db.inbounds.find? id) :: post) ∧
      entriesAt env (db.withInbound id new) exit = gather (pre ++ rowEntry env exit new :: post) := by
  obtain ⟨pre, post, hbefore, hafter⟩ := rows_withInbound db hnew
  have hone : ∀ row : Option Inbound, gather ((pre ++ row.toList ++ post).map (Inbound.entryAt env exit)) =
      gather (pre.map (Inbound.entryAt env exit) ++ rowEntry env exit row :: post.map (Inbound.entryAt env exit)) := by
    intro row
    cases row with
    | none => simp [rowEntry, gather_skip]
    | some row => simp [rowEntry]
  refine ⟨pre.map (Inbound.entryAt env exit), post.map (Inbound.entryAt env exit), ?_, ?_⟩
  · rw [← hone, entriesAt, hbefore]
  · rw [← hone, entriesAt, hafter, List.map_map]
    exact congrArg gather (map_congr_left fun i _ => entryAt_afterRow h i)

theorem find?_withoutInbound (db : Db) (id k : Uuid) : (db.withInbound id none).inbounds.find? k =
    if k = id then none else (db.inbounds.find? k).map (Inbound.afterRow id none) := by
  have hfind : (db.withInbound id none).inbounds.find? k =
      ((db.inbounds.keep (·.id ≠ id)).find? k).map (Inbound.afterRow id none) :=
    @find?_alter _ _ _ _ _ _ _ (afterRow_id id none)
  rw [hfind, find?_keep_ne]
  split <;> rfl

theorem find?_withInbound {k : Uuid} (h : k ≠ id) (hnew : ∀ row ∈ new, row.id = id) :
    (db.withInbound id new).inbounds.find? k = (db.inbounds.find? k).map (Inbound.afterRow id new) := by
  cases new with
  | none => rw [find?_withoutInbound, if_neg h]
  | some row =>
    have hput : (db.withInbound id (some row)).inbounds.find? k = db.inbounds.find? k :=
      find?_put_of_ne (hnew row rfl ▸ h)
    rw [hput, funext (afterRow_some row), Option.map_id']

theorem find?_withInbound_self (hnew : ∀ row ∈ new, row.id = id) : (db.withInbound id new).inbounds.find? id = new := by
  cases new with
  | none => rw [find?_withoutInbound, if_pos rfl]
  | some row =>
    obtain rfl := hnew row rfl
    exact find?_put_self

theorem upstream_withInbound (db : Db) (hnew : ∀ row ∈ new, row.id = id) (ib : Inbound) :
    upstreamOutbound (db.withInbound id new) (ib.afterRow id new) =
      if ib.upstreamInboundId = some id then chainOutbound ib (new.bind (Inbound.endpoint db.nodes))
      else upstreamOutbound db ib := by
  have hnodes : (db.withInbound id new).nodes = db.nodes := by cases new <;> rfl
  have hlink : ∀ entry : Inbound, chainOutbound (entry.afterRow id new) = chainOutbound entry := fun _ => rfl
  split
  · rename_i hexit
    cases new with
    | none =>
      have hcut : (ib.afterRow id none).upstreamInboundId = none := by
        simp [hexit]
      rw [upstreamOutbound, hcut, bind_none, chainOutbound_none]
    | some row =>
      rw [afterRow_some, upstreamOutbound, hexit]
      dsimp only
      rw [buildChainOutbound_eq, endpointForInbound_eq, find?_withInbound_self hnew, hnodes]
  · rename_i hexit
    have hkept : (ib.afterRow id new).upstreamInboundId = ib.upstreamInboundId := by
      simp [hexit]
    rw [upstreamOutbound, upstreamOutbound, hkept]
    rcases hup : ib.upstreamInboundId with _ | exit
    · rfl
    have hne : exit ≠ id := fun heq => hexit (heq ▸ hup)
    have hendpoint : endpointForInbound (db.withInbound id new) exit = endpointForInbound db exit := by
      rw [endpointForInbound_eq, endpointForInbound_eq, find?_withInbound hne hnew, hnodes]
      cases db.inbounds.find? exit <;> rfl
    dsimp only
    rw [buildChainOutbound_eq, buildChainOutbound_eq, hlink, hendpoint]

theorem enabledNodeInbounds_withInbound (hnew : ∀ row ∈ new, row.id = id ∧ row.nodeId ≠ m)
    (hold : ∀ row ∈ db.inbounds.find? id, row.nodeId ≠ m) : enabledNodeInbounds env (db.withInbound id new) m =
      (enabledNodeInbounds env db m).map (List.map (Inbound.afterRow id new)) := by
  let p : Inbound → Bool := fun i => i.nodeId = m ∧ i.enabled
  have hmap : ∀ l : List Inbound, (l.map (Inbound.afterRow id new)).filter p =
      (l.filter p).map (Inbound.afterRow id new) := fun l => filter_map
  have hgone : ∀ row : Option Inbound, (∀ i ∈ row, i.nodeId ≠ m) → row.toList.filter p = [] := by
    rintro (_ | i) hi
    · rfl
    · simp [p, hi i rfl]
  have hrows : (db.withInbound id new).inbounds.rows.filter p =
      (db.inbounds.rows.filter p).map (Inbound.afterRow id new) := by
    obtain ⟨pre, post, hbefore, hafter⟩ := rows_withInbound db fun row hrow => (hnew row hrow).1
    rw [hafter, hmap, hbefore]
    simp [hgone _ hold, hgone _ fun row hrow => (hnew row hrow).2]
  have hsort := map_insertionSort (r := fun i j : Inbound => i.listenPort ≤ j.listenPort)
    (s := fun i j : Inbound => i.listenPort ≤ j.listenPort) (Inbound.afterRow id new)
    (db.inbounds.rows.filter p) fun _ _ _ _ => Iff.rfl
  have hopen : ∀ i : Inbound, env.decryptInbound (i.afterRow id new) =
      (env.decryptInbound i).map (Inbound.afterRow id new) := by
    intro i
    rw [Env.decryptInbound, Env.decryptInbound]
    rcases hkey : env.decryptOption i.realityPrivateKey with e | key
    · simp [hkey, bind, Except.bind, Except.map]
    cases hpassword : env.decryptOption i.chainPassword with
    | error e => simp [hkey, hpassword, bind, Except.bind, Except.map]
    | ok password =>
      simp [hkey, hpassword, bind, Except.bind, Except.map, pure, Except.pure]
  rw [enabledNodeInbounds]
  rw [hrows, ← hsort]
  exact mapM_map hopen _

theorem mem_enabledNodeInbounds {rows : List Inbound} (h : enabledNodeInbounds env db m = .ok rows) :
    (∀ y ∈ rows, ∃ x ∈ db.inbounds.rows, (x.nodeId = m ∧ x.enabled) ∧ env.decryptInbound x = .ok y) ∧
    ∀ x ∈ db.inbounds.rows, x.nodeId = m → x.enabled → ∃ y ∈ rows, env.decryptInbound x = .ok y := by
  constructor
  · intro y hy
    obtain ⟨x, hx, hxy⟩ := mapM_mem h y hy
    rw [mem_insertionSort, mem_filter] at hx
    exact ⟨x, hx.1, by simpa using hx.2, hxy⟩
  · intro x hx hnode henabled
    refine mem_mapM h x ?_
    rw [mem_insertionSort, mem_filter]
    exact ⟨hx, by simp [hnode, henabled]⟩

theorem decryptInbound_ok {x y : Inbound} (h : env.decryptInbound x = .ok y) :
    y.id = x.id ∧ y.upstreamInboundId = x.upstreamInboundId := by
  obtain ⟨key, -, h⟩ := bind_eq_ok.mp h
  obtain ⟨password, -, h⟩ := bind_eq_ok.mp h
  obtain rfl := Except.ok.inj h
  exact ⟨rfl, rfl⟩

/-- An inbound of another node shows that a row was written or deleted exactly if the row looks different from it. -/
theorem bareInbound_withInbound {active : List User} {x y : Inbound} (hids : ∀ row ∈ new, row.id = id) (hx : x.id ≠ id)
    (hxy : env.decryptInbound x = .ok y) (h : (bareInbound env db active y).isSome ∨
      (bareInbound env (db.withInbound id new) active (y.afterRow id new)).isSome) :
    bareInbound env (db.withInbound id new) active (y.afterRow id new) = bareInbound env db active y ↔
      ShowsSame env db.nodes id (db.inbounds.find? id) new x := by
  obtain ⟨hyid, hyup⟩ := decryptInbound_ok hxy
  obtain ⟨pre, post, hbefore, hafter⟩ := entriesAt_withInbound env db (hyid ▸ hx : y.id ≠ id) hids
  have hgather : (gather (pre ++ rowEntry env y.id new :: post)).isSome ∨
      (gather (pre ++ rowEntry env y.id (db.inbounds.find? id) :: post)).isSome := by
    rw [← hbefore, ← hafter]
    exact (h.imp parts_of_bareInbound parts_of_bareInbound).symm
  have hlink : ∀ row, rowLink env db.nodes x row =
      (chainOutbound y (row.bind (Inbound.endpoint db.nodes))).toOption := by
    intro row
    rw [rowLink, hxy]
    rfl
  have hout := upstream_withInbound db hids y
  rw [Inbound.afterRow] at h hout ⊢
  rw [bareInbound_eq_iff _ h, hbefore, hafter, gather_eq_iff hgather, hout]
  constructor
  · rintro ⟨hentry, hup⟩
    refine ⟨hyid ▸ hentry, fun hexit => ?_⟩
    rw [← hyup] at hexit
    rw [if_pos hexit, upstreamOutbound, hexit] at hup
    rw [hlink, hlink]
    exact hup
  · rintro ⟨hentry, hrow⟩
    refine ⟨hyid ▸ hentry, ?_⟩
    split
    · rename_i hexit
      rw [upstreamOutbound, hexit]
      have hsame := hrow (hyup ▸ hexit)
      rw [hlink, hlink] at hsame
      exact hsame
    · rfl

/-- The spec of another node shows that a row was written or deleted exactly if one of its inbounds does. -/
theorem specOf_withInbound (hnew : ∀ row ∈ new, row.id = id ∧ row.nodeId ≠ m)
    (hold : ∀ row ∈ db.inbounds.find? id, row.nodeId ≠ m) :
    specOf env keys (db.withInbound id new) m now = specOf env keys db m now ↔
      ((specOf env keys db m now).isSome ∨ (specOf env keys (db.withInbound id new) m now).isSome →
        ∀ x ∈ db.inbounds.rows, x.nodeId = m → x.enabled → ShowsSame env db.nodes id (db.inbounds.find? id) new x) := by
  have hids : ∀ row ∈ new, row.id = id := fun row hrow => (hnew row hrow).1
  let r := db.reads env keys m
  let r' := (db.withInbound id new).reads env keys m
  have hrows : r'.rows = r.rows.map (List.map (Inbound.afterRow id new)) := by
    simp [r', r, Db.reads, enabledNodeInbounds_withInbound hnew hold, toOption_map]
  have hsame : r'.users = r.users ∧ r'.ifaces = r.ifaces ∧ r'.services = r.services ∧ r'.face = r.face := by
    cases new <;> exact ⟨rfl, rfl, rfl, rfl⟩
  obtain ⟨husers, hifaces, hservices, hface⟩ := hsame
  rw [specOf_eq, specOf_eq, Reads.spec_eq_iff now hrows husers hifaces hservices, hface]
  refine imp_congr_right fun hsome => ?_
  have hparts : ∃ rows users ifaces, (r.rows = some rows ∧ r.users = some users ∧ r.ifaces = some ifaces) ∧ ∀ y ∈ rows,
      (bareInbound env db (Reads.active now users) y).isSome ∨
      (bareInbound env (db.withInbound id new) (Reads.active now users) (y.afterRow id new)).isSome := by
    rcases hsome with h | h
    · obtain ⟨rows, users, ifaces, -, ⟨hr, hu, hi, -⟩, hone, -⟩ := (Reads.spec_isSome_iff now).mp h
      exact ⟨rows, users, ifaces, ⟨hr, hu, hi⟩, fun y hy => .inl (hone y hy)⟩
    obtain ⟨rows', users, ifaces, -, ⟨hr, hu, hi, -⟩, hone, -⟩ := (Reads.spec_isSome_iff now).mp h
    rw [hrows, map_eq_some_iff] at hr
    obtain ⟨rows, hr, rfl⟩ := hr
    exact ⟨rows, users, ifaces, ⟨hr, husers ▸ hu, hifaces ▸ hi⟩, fun y hy =>
      .inr (hone _ (mem_map_of_mem hy))⟩
  obtain ⟨rows, users, ifaces, ⟨hr, hu, hi⟩, hone⟩ := hparts
  obtain ⟨hread, hstored⟩ := mem_enabledNodeInbounds (toOption_eq_some.mp hr)
  have hother : ∀ x ∈ db.inbounds.rows, x.nodeId = m → x.id ≠ id := by
    rintro x hx hnode rfl
    exact hold x (find?_eq_some.mpr ⟨hx, rfl⟩) hnode
  constructor
  · intro h x hx hnode henabled
    obtain ⟨y, hy, hxy⟩ := hstored x hx hnode henabled
    exact (bareInbound_withInbound hids (hother x hx hnode) hxy (hone y hy)).mp ((h rows users ifaces hr hu hi).1 y hy)
  · intro h rows' users' ifaces' hr' hu' _
    obtain rfl := some.inj (hr.symm.trans hr')
    obtain rfl := some.inj (hu.symm.trans hu')
    refine ⟨fun y hy => ?_, fun _ _ => rfl⟩
    obtain ⟨x, hx, ⟨hnode, henabled⟩, hxy⟩ := hread y hy
    exact (bareInbound_withInbound hids (hother x hx hnode) hxy (hone y hy)).mpr (h x hx hnode henabled)

end Replaced

end Honey.Master
