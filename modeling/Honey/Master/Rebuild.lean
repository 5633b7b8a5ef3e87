import Honey.Master.Spec

/-! Building a node's spec a second time: nothing is provisioned any more, and the result differs from
    the first one only in the remaining quotas of users whose total has moved.

        build --> spec, peers        totals move        build --> spec with new quotas, same peers -/

namespace Honey.Master
open Honey.Schemes List Except

/-! ### WireGuard -/

section Wireguard

variable {env : Env} {keys keys' : Keys} {active active' : List User} {iface : WgInterface} {peers peers' : Peers}

/-- The peers of one interface, in the order of the table. -/
def peersAt (peers : Peers) (iface : Uuid) : List WgPeer :=
  peers.rows.filter (·.interfaceId = iface)

/-- Peers were added, and only to one interface. -/
structure Grown (iface : Uuid) (peers peers' : Peers) : Prop where
  others : ∀ i, i ≠ iface → peersAt peers' i = peersAt peers i
  kept : ∀ p ∈ peersAt peers iface, p ∈ peersAt peers' iface

theorem grown_refl (iface : Uuid) (peers : Peers) : Grown iface peers peers := ⟨fun _ _ => rfl, fun _ h => h⟩

theorem grown_trans {iface : Uuid} {peers'' : Peers} (h : Grown iface peers peers')
    (h' : Grown iface peers' peers'') : Grown iface peers peers'' :=
  ⟨fun i hi => (h'.others i hi).trans (h.others i hi), fun p hp => h'.kept p (h.kept p hp)⟩

theorem newWgPeer_key {user : Uuid} {p : WgPeer}
    (h : newWgPeer env keys peers iface user = .ok p) : p.interfaceId = iface.id ∧ p.userId = user := by
  obtain ⟨ip, -, h⟩ := bind_eq_ok.mp h
  obtain ⟨⟨privateKey, publicKey⟩, -, h⟩ := bind_eq_ok.mp h
  obtain ⟨privateEnc, -, h⟩ := bind_eq_ok.mp h
  obtain rfl := ok.inj h
  exact ⟨rfl, rfl⟩

theorem ensureWgPeer_ok {user : Uuid} {p : WgPeer} (h : ensureWgPeer env keys peers iface user = (peers', .ok p)) :
    Grown iface.id peers peers' ∧ user ∈ (peersAt peers' iface.id).map (·.userId) := by
  rw [ensureWgPeer] at h
  rcases hf : peers.find? (iface.id, user) with _ | existing
  · rw [hf] at h
    rcases hn : newWgPeer env keys peers iface user with e | q
    · rw [hn] at h
      cases (Prod.mk.inj h).2
    rw [hn] at h
    obtain ⟨hiface, huser⟩ := newWgPeer_key hn
    have hkey : q.key = (iface.id, user) := by rw [WgPeer.key, hiface, huser]
    have hrows : peers'.rows = peers.rows ++ [q] := by
      rw [← (Prod.mk.inj h).1]
      exact Table.rows_put_new (by rw [hkey]; exact hf)
    refine ⟨⟨fun i hi => ?_, fun x hx => ?_⟩, mem_map.mpr ⟨q, ?_, huser⟩⟩
    · have hne : ¬ q.interfaceId = i := fun hq => hi (hq.symm.trans hiface)
      simp [peersAt, hrows, hne]
    · rw [peersAt, hrows, filter_append]
      exact mem_append_left _ hx
    · simp [peersAt, hrows, hiface]
  · rw [hf] at h
    obtain ⟨rfl, -⟩ := Prod.mk.inj h
    obtain ⟨hmem, hkey⟩ := Table.find?_eq_some.mp hf
    obtain ⟨hiface, huser⟩ := Prod.mk.inj hkey
    refine ⟨grown_refl _ _, mem_map.mpr ⟨existing, ?_, huser⟩⟩
    exact mem_filter.mpr ⟨hmem, by simpa using hiface⟩

theorem provision_ok {has : List Uuid} : ∀ {us : List User} {peers : Peers},
    provision env keys iface has peers us = (peers', .ok ()) →
    Grown iface.id peers peers' ∧ ∀ u ∈ us, u.id ∈ has ∨ u.id ∈ (peersAt peers' iface.id).map (·.userId)
  | [], peers, h => by
    obtain ⟨rfl, -⟩ := Prod.mk.inj h
    exact ⟨grown_refl _ _, fun u hu => absurd hu not_mem_nil⟩
  | u :: us, peers, h => by
    rw [provision] at h
    split at h
    · rename_i hhas
      obtain ⟨hgrown, hus⟩ := provision_ok h
      refine ⟨hgrown, fun v hv => ?_⟩
      rcases mem_cons.mp hv with rfl | hv
      · exact Or.inl hhas
      · exact hus v hv
    rcases he : ensureWgPeer env keys peers iface u.id with ⟨peers₁, e | p⟩
    · rw [he] at h
      cases (Prod.mk.inj h).2
    rw [he] at h
    obtain ⟨hgrown₁, hu⟩ := ensureWgPeer_ok he
    obtain ⟨hgrown, hus⟩ := provision_ok h
    refine ⟨grown_trans hgrown₁ hgrown, fun v hv => ?_⟩
    rcases mem_cons.mp hv with rfl | hv
    · obtain ⟨q, hq, hqu⟩ := mem_map.mp hu
      exact Or.inr (mem_map.mpr ⟨q, hgrown.kept q hq, hqu⟩)
    · exact hus v hv

theorem provision_nobody {has : List Uuid} (peers : Peers) : ∀ {us : List User},
    (∀ u ∈ us, u.id ∈ has) → provision env keys iface has peers us = (peers, .ok ())
  | [], _ => rfl
  | u :: us, h => by
    rw [provision, if_pos (h u mem_cons_self)]
    exact provision_nobody peers fun v hv => h v (mem_cons_of_mem u hv)

theorem wgPeers_users {rows : List WgPeer} {i : Uuid} (h : wgPeersForInterface env peers i = .ok rows) :
    rows.map (·.userId) = (peersAt peers i).map (·.userId) := by
  refine mapM_keeps (fun p q hq => ?_) h
  obtain ⟨key, -, hq⟩ := bind_eq_ok.mp hq
  rw [← ok.inj hq]

theorem wgMessage_congr (hpeers : peersAt peers' iface.id = peersAt peers iface.id)
    (hids : active'.map (·.id) = active.map (·.id)) :
    wgMessage env active' peers' iface = wgMessage env active peers iface := by
  rw [peersAt, peersAt] at hpeers
  simp [wgMessage, wgPeersForInterface, hpeers, hids]

theorem buildWgInterface_ok {w : WireguardInterface}
    (h : buildWgInterface env keys active peers iface = (peers', .ok w)) :
    Grown iface.id peers peers' ∧ (∀ u ∈ active, u.id ∈ (peersAt peers' iface.id).map (·.userId)) ∧
      wgMessage env active peers' iface = .ok w := by
  rw [buildWgInterface] at h
  rcases hex : wgPeersForInterface env peers iface.id with e | existing
  · rw [hex] at h
    cases (Prod.mk.inj h).2
  rw [hex] at h
  rcases hp : provision env keys iface (existing.map (·.userId)) peers active with ⟨peers₁, e | _⟩
  · simp only [hp] at h
    cases (Prod.mk.inj h).2
  simp only [hp] at h
  obtain ⟨rfl, hw⟩ := Prod.mk.inj h
  obtain ⟨hgrown, hus⟩ := provision_ok hp
  refine ⟨hgrown, fun u hu => ?_, hw⟩
  rcases hus u hu with hhas | hnew
  · rw [wgPeers_users hex] at hhas
    obtain ⟨q, hq, hqu⟩ := mem_map.mp hhas
    exact mem_map.mpr ⟨q, hgrown.kept q hq, hqu⟩
  · exact hnew

theorem rebuildWgInterface {w : WireguardInterface} (hids : active'.map (·.id) = active.map (·.id))
    (hus : ∀ u ∈ active, u.id ∈ (peersAt peers iface.id).map (·.userId))
    (hw : wgMessage env active peers iface = .ok w) :
    buildWgInterface env keys active' peers iface = (peers, .ok w) := by
  obtain ⟨existing, hex, -⟩ := bind_eq_ok.mp hw
  have hnobody : provision env keys iface (existing.map (·.userId)) peers active' = (peers, .ok ()) := by
    refine provision_nobody peers fun u hu => ?_
    have hu' : u.id ∈ active.map (·.id) := hids ▸ mem_map_of_mem hu
    obtain ⟨v, hv, hvu⟩ := mem_map.mp hu'
    rw [wgPeers_users hex, ← hvu]
    exact hus v hv
  rw [buildWgInterface, hex]
  simp only [hnobody]
  rw [wgMessage_congr rfl hids, hw]

/-- A build leaves the other interfaces alone, and repeating it on what it has left changes nothing. -/
theorem rebuildWireguard (hids : active'.map (·.id) = active.map (·.id)) :
    ∀ {ifaces : List WgInterface} {peers peers' : Peers} {ws : List WireguardInterface},
    (ifaces.map (·.id)).Nodup → buildWireguard env keys active peers ifaces = (peers', .ok ws) →
    (∀ i, i ∉ ifaces.map (·.id) → peersAt peers' i = peersAt peers i) ∧
      ∀ q : Peers, (∀ i ∈ ifaces.map (·.id), peersAt q i = peersAt peers' i) →
        buildWireguard env keys' active' q ifaces = (q, .ok ws)
  | [], peers, _, ws, _, h => by
    obtain ⟨rfl, hws⟩ := Prod.mk.inj h
    exact ⟨fun _ _ => rfl, fun q _ => by rw [buildWireguard, hws]⟩
  | iface :: ifaces, peers, _, ws, hnd, h => by
    rw [map_cons, nodup_cons] at hnd
    rw [buildWireguard] at h
    rcases hone : buildWgInterface env keys active peers iface with ⟨peers₁, e | w⟩
    · rw [hone] at h
      cases (Prod.mk.inj h).2
    rw [hone] at h
    rcases hrest : buildWireguard env keys active peers₁ ifaces with ⟨peers₂, e | ws'⟩
    · simp only [hrest] at h
      cases (Prod.mk.inj h).2
    simp only [hrest] at h
    obtain ⟨rfl, hws⟩ := Prod.mk.inj h
    obtain ⟨hgrown, hus, hw⟩ := buildWgInterface_ok hone
    obtain ⟨hothers, hagain⟩ := rebuildWireguard hids hnd.2 hrest
    refine ⟨fun i hi => ?_, fun q hq => ?_⟩
    · rw [map_cons, mem_cons, not_or] at hi
      rw [hothers i hi.2, hgrown.others i hi.1]
    · -- later interfaces have not touched this one's peers
      have hself : peersAt q iface.id = peersAt peers₁ iface.id := by
        rw [hq iface.id (by simp), hothers iface.id hnd.1]
      have hq₁ : buildWgInterface env keys' active' q iface = (q, .ok w) :=
        rebuildWgInterface hids (hself ▸ hus) (by rw [wgMessage_congr hself rfl, hw])
      have hq₂ := hagain q fun i hi => hq i (by simp [hi])
      rw [buildWireguard, hq₁]
      simp only [hq₂]
      rw [← hws]

end Wireguard

/-! ### Users and inbounds -/

/-- The user with another total. -/
def User.setUsed (f : Uuid → ℤ) (u : User) : User := { u with usedTrafficBytes := f u.id }

/-- What the spec of any node reads of a node. -/
def Node.face (n : Node) : String × String × Bool × Bool := (n.name, n.address, n.enabled, n.maintenance)

/-- What a spec is built from is as it was, but for the totals of users. -/
structure SameSpec (f : Uuid → ℤ) (db db' : Db) : Prop where
  users : db'.users.rows = db.users.rows.map (User.setUsed f)
  nodes : ∀ id, (db'.nodes.find? id).map Node.face = (db.nodes.find? id).map Node.face
  members : db'.nodeGroupMembers = db.nodeGroupMembers
  access : db'.userGroupAccess = db.userGroupAccess
  inbounds : db'.inbounds = db.inbounds
  wgInterfaces : db'.wgInterfaces = db.wgInterfaces
  wgPeers : db'.wgPeers = db.wgPeers
  services : db'.services = db.services

/-- The active users with access to a node. -/
def Db.activeUsers (db : Db) (node : Uuid) (now : ℤ) : List User :=
  db.users.rows.filter fun u => db.hasAccess node u.id && u.isActive now

def Db.activeIds (db : Db) (node : Uuid) (now : ℤ) : List Uuid :=
  (db.activeUsers node now).map (·.id)

/-- The inbound with users in front of those it has. -/
def addUsers (active : List User) (ib : Inbound) (x : SpecInbound) : SpecInbound :=
  { x with users := active.map (inboundUser ib) ++ x.users }

section Inbounds

variable {env : Env} {db db' : Db} {f : Uuid → ℤ} {node : Uuid} {now now' : ℤ} {active : List User}

theorem buildInbound_users (active : List User) (ib : Inbound) :
    buildInbound env db active ib = (buildInbound env db [] ib).map (addUsers active ib) := by
  rw [buildInbound, buildInbound]
  rcases portIn ib.listenPort with _ | port
  · rfl
  rcases chainUsersForExit env db ib.id with e | chain
  · rfl
  · rcases upstreamOutbound db ib with e | upstream
    · rfl
    · rcases buildTls ib with e | tls <;> rfl

theorem decryptUser_setUsed (u : User) : env.decryptUser (u.setUsed f) = (env.decryptUser u).map (User.setUsed f) := by
  simp only [Env.decryptUser, User.setUsed]
  rcases env.decrypt u.password with e | password
  · rfl
  · rcases env.decrypt u.uuid with e | uuid <;> rfl

variable {users : List User} {u : User}

theorem users_keep {κ : Type} {p : User → κ}
    (hp : ∀ u password uuid, p { u with password := password, uuid := uuid } = p u)
    (h : usersWithNodeAccess env db node = .ok users) (k : κ) :
    k ∈ users.map p ↔ ∃ u ∈ db.users.rows, db.hasAccess node u.id ∧ p u = k := by
  have hkeep := mapM_keeps (fun u v huv => by
    obtain ⟨password, -, huv⟩ := bind_eq_ok.mp huv
    obtain ⟨uuid, -, huv⟩ := bind_eq_ok.mp huv
    rw [← ok.inj huv]
    exact hp u password uuid) h
  rw [hkeep]
  simp [and_assoc]

theorem buildInbounds_eq_ok {inbounds : List SpecInbound} : buildInbounds env db node now = .ok (active, inbounds) ↔
      ∃ rows users bases, enabledNodeInbounds env db node = .ok rows ∧ usersWithNodeAccess env db node = .ok users ∧
        rows.mapM (buildInbound env db []) = .ok bases ∧ active = users.filter (·.isActive now) ∧
        inbounds = zipWith (addUsers active) rows bases := by
  simp only [buildInbounds, bind_eq_ok]
  constructor
  · rintro ⟨rows, hrows, users, husers, xs, hxs, h⟩
    obtain ⟨rfl, rfl⟩ := Prod.mk.inj (ok.inj h)
    rw [mapM_zipWith (buildInbound_users _), map_eq_ok] at hxs
    obtain ⟨bases, hbases, rfl⟩ := hxs
    exact ⟨rows, users, bases, hrows, husers, hbases, rfl, rfl⟩
  · rintro ⟨rows, users, bases, hrows, husers, hbases, rfl, rfl⟩
    refine ⟨rows, hrows, users, husers, _, ?_, rfl⟩
    rw [mapM_zipWith (buildInbound_users _), hbases]
    rfl

theorem mem_activeIds (hu : u ∈ db.users.rows) :
    u.id ∈ db.activeIds node now ↔ db.hasAccess node u.id = true ∧ u.isActive now = true := by
  rw [Db.activeIds, mem_map]
  constructor
  · rintro ⟨v, hv, hid⟩
    obtain ⟨hv, hact⟩ := mem_filter.mp hv
    obtain rfl := inj_on_of_nodup_map db.users.nodup hv hu hid
    simpa using hact
  · intro h
    exact ⟨u, mem_filter.mpr ⟨hu, by simpa using h⟩, rfl⟩

theorem lt_limit_of_active (h : u.isActive now = true) (hlimit : 0 < u.trafficLimitBytes) :
    u.usedTrafficBytes < u.trafficLimitBytes := by
  by_contra hge
  have hquota : 0 < u.trafficLimitBytes ∧ u.trafficLimitBytes ≤ u.usedTrafficBytes := ⟨hlimit, not_lt.mp hge⟩
  rw [User.isActive, User.suppressedReason] at h
  split at h
  · cases h
  · split at h <;> cases h

/-- The entry of an active user shows its total if, and only if, it has a limit. -/
theorem inboundUser_setUsed (ib : Inbound) (h : u.isActive now = true) :
    inboundUser ib (u.setUsed f) = inboundUser ib u ↔ (0 < u.trafficLimitBytes → f u.id = u.usedTrafficBytes) := by
  rw [inboundUser, inboundUser, InboundUser.mk.injEq]
  simp only [User.setUsed, true_and]
  by_cases hlimit : 0 < u.trafficLimitBytes
  · have hlt := lt_limit_of_active h hlimit
    simp only [hlimit, if_true, true_implies]
    omega
  · simp [hlimit]

section

variable (h : SameSpec f db db')
include h

theorem endpoint_same (id : Uuid) : endpointForInbound db' id = endpointForInbound db id := by
  rw [endpointForInbound, endpointForInbound, h.inbounds]
  rcases db.inbounds.find? id with _ | i
  · rfl
  have hn := h.nodes i.nodeId
  rcases hf : db.nodes.find? i.nodeId with _ | n
  · rcases hf' : db'.nodes.find? i.nodeId with _ | n'
    · simp [hf, hf']
    · rw [hf, hf'] at hn
      cases hn
  rcases hf' : db'.nodes.find? i.nodeId with _ | n'
  · rw [hf, hf'] at hn
    cases hn
  rw [hf, hf'] at hn
  simp only [Option.map_some, Option.some.injEq, Node.face, Prod.mk.injEq] at hn
  obtain ⟨hname, haddress, henabled, hmaintenance⟩ := hn
  simp [hf, hf', hname, haddress, henabled, hmaintenance]

theorem buildInbound_same (ib : Inbound) : buildInbound env db' active ib = buildInbound env db active ib := by
  have hupstream : upstreamOutbound db' ib = upstreamOutbound db ib := by
    simp [upstreamOutbound, buildChainOutbound, endpoint_same h]
  simp [buildInbound, chainUsersForExit, h.inbounds, hupstream]

theorem hasAccess_same (user : Uuid) : db'.hasAccess node user = db.hasAccess node user := by
  rw [Db.hasAccess, h.members, h.access, Db.hasAccess]

theorem usersWithNodeAccess_same : usersWithNodeAccess env db' node =
      (usersWithNodeAccess env db node).map (map (User.setUsed f)) := by
  have haccess : (fun u : User => db'.hasAccess node u.id) ∘ User.setUsed f = fun u => db.hasAccess node u.id := by
    funext u
    exact hasAccess_same h u.id
  have hsort := map_insertionSort (r := fun u v : User => env.usernameLe u.username v.username)
    (s := fun u v : User => env.usernameLe u.username v.username) (User.setUsed f)
    (db.users.rows.filter fun u => db.hasAccess node u.id) fun _ _ _ _ => Iff.rfl
  rw [usersWithNodeAccess, h.users, filter_map, haccess, ← hsort]
  exact mapM_map decryptUser_setUsed _

variable (hact : db'.activeIds node now' = db.activeIds node now)
include hact

theorem active_same (hu : u ∈ db.users.rows) (haccess : db.hasAccess node u.id = true) :
    (u.setUsed f).isActive now' = u.isActive now := by
  have hu' : u.setUsed f ∈ db'.users.rows := h.users ▸ mem_map_of_mem hu
  have hafter : u.id ∈ db'.activeIds node now' ↔
      db'.hasAccess node u.id = true ∧ (u.setUsed f).isActive now' = true := mem_activeIds hu'
  rw [hact, mem_activeIds hu, hasAccess_same h] at hafter
  simpa [haccess] using hafter.symm

theorem filter_active_same (husers : usersWithNodeAccess env db node = .ok users) :
    (users.map (User.setUsed f)).filter (·.isActive now') = (users.filter (·.isActive now)).map (User.setUsed f) := by
  rw [filter_map]
  refine congrArg _ (filter_congr fun u hu => ?_)
  have hmem := (users_keep (p := fun u => ((u.setUsed f).isActive now', u.isActive now))
    (fun _ _ _ => rfl) husers _).mp (mem_map_of_mem hu)
  obtain ⟨r, hr, haccess, hru⟩ := hmem
  obtain ⟨hnow', hnow⟩ := Prod.mk.inj hru
  rw [Function.comp_apply, ← hnow', ← hnow]
  exact active_same h hact hr haccess

theorem rebuildInbounds {inbounds : List SpecInbound} (hb : buildInbounds env db node now = .ok (active, inbounds)) :
    ∃ rows bases, enabledNodeInbounds env db node = .ok rows ∧ rows.mapM (buildInbound env db []) = .ok bases ∧
      inbounds = zipWith (addUsers active) rows bases ∧
      buildInbounds env db' node now' = .ok (active.map (User.setUsed f),
        zipWith (addUsers (active.map (User.setUsed f))) rows bases) := by
  obtain ⟨rows, users, bases, hrows, husers, hbases, rfl, rfl⟩ := buildInbounds_eq_ok.mp hb
  have hrows' : enabledNodeInbounds env db' node = .ok rows := by
    rw [enabledNodeInbounds, h.inbounds]
    exact hrows
  have husers' : usersWithNodeAccess env db' node = .ok (users.map (User.setUsed f)) := by
    rw [usersWithNodeAccess_same h, husers]
    rfl
  have hbases' : rows.mapM (buildInbound env db' []) = .ok bases := by
    rw [← hbases]
    exact congrArg (rows.mapM) (funext (buildInbound_same h))
  refine ⟨rows, bases, hrows, hbases, rfl, buildInbounds_eq_ok.mpr ?_⟩
  exact ⟨rows, _, bases, hrows', husers', hbases', (filter_active_same h hact husers).symm, rfl⟩

end

/-- The totals that the spec shows are as they were: no inbound shows any, or no active user with a limit has moved. -/
def QuotasKept (f : Uuid → ℤ) (db : Db) (node : Uuid) (now : ℤ) : Prop :=
  (∀ i ∈ db.inbounds.rows, i.nodeId = node → i.enabled = false) ∨
    ∀ u ∈ db.activeUsers node now, 0 < u.trafficLimitBytes → f u.id = u.usedTrafficBytes

theorem rows_eq_nil_iff {rows : List Inbound} (h : enabledNodeInbounds env db node = .ok rows) :
    rows = [] ↔ ∀ i ∈ db.inbounds.rows, i.nodeId = node → i.enabled = false := by
  have hkeep := mapM_keeps (p := fun _ : Inbound => ()) (fun _ _ _ => rfl) h
  have hlen := congrArg length hkeep
  rw [length_map] at hlen
  rw [← length_eq_zero_iff, hlen]
  simp

theorem active_iff (husers : usersWithNodeAccess env db node = .ok users) :
    (∀ u ∈ users.filter (·.isActive now), 0 < u.trafficLimitBytes → f u.id = u.usedTrafficBytes) ↔
      ∀ u ∈ db.activeUsers node now, 0 < u.trafficLimitBytes → f u.id = u.usedTrafficBytes := by
  let p (u : User) := (u.isActive now, u.id, u.trafficLimitBytes, u.usedTrafficBytes)
  simp only [Db.activeUsers, mem_filter, Bool.and_eq_true, and_imp]
  -- both are about what is kept of a user
  refine (forall_mem_map (f := p) (P := fun x => x.1 = true → 0 < x.2.2.1 → f x.2.1 = x.2.2.2)).symm.trans ?_
  simp only [users_keep (p := p) (fun _ _ _ => rfl) husers]
  constructor
  · exact fun h u hu haccess => h _ ⟨u, hu, haccess, rfl⟩
  · rintro h _ ⟨u, hu, haccess, rfl⟩
    exact h u hu haccess

theorem zipWith_addUsers_iff {active' : List User} {rows : List Inbound} {bases : List SpecInbound}
    (hlen : rows.length = bases.length) {P : Prop}
    (hP : ∀ ib, active'.map (inboundUser ib) = active.map (inboundUser ib) ↔ P) :
    zipWith (addUsers active') rows bases = zipWith (addUsers active) rows bases ↔ rows = [] ∨ P := by
  constructor
  · intro h
    rcases rows with _ | ⟨ib, rows⟩
    · exact Or.inl rfl
    rcases bases with _ | ⟨x, bases⟩
    · cases hlen
    · rw [zipWith_cons_cons, zipWith_cons_cons, cons.injEq] at h
      have husers := congrArg SpecInbound.users h.1
      exact Or.inr ((hP ib).mp (append_cancel_right husers))
  · rintro (rfl | h)
    · rfl
    · have hadd : addUsers active' = addUsers active := by
        funext ib x
        rw [addUsers, (hP ib).mpr h, addUsers]
      rw [hadd]

end Inbounds

/-! ### The whole spec -/

section Whole

variable {env : Env} {keys : Keys} {db db₁ db₂ : Db} {f : Uuid → ℤ} {node : Uuid} {now now₂ : ℤ} {spec : NodeSpec}

theorem wgInterfaces_nodup {ifaces : List WgInterface}
    (h : enabledWgInterfaces env db node = .ok ifaces) : (ifaces.map (·.id)).Nodup := by
  have hkeep := mapM_keeps (q := WgInterface.id) (fun i j hj => by
    obtain ⟨key, -, hj⟩ := bind_eq_ok.mp hj
    rw [← ok.inj hj]) h
  refine hkeep ▸ ((perm_insertionSort _ _).map _).nodup_iff.mpr ?_
  exact db.wgInterfaces.nodup.sublist (filter_sublist.map _)

theorem buildNodeSpec_ok (h : buildNodeSpec env keys db node now = (db₁, .ok spec)) :
    ∃ active ifaces peers, buildInbounds env db node now = .ok (active, spec.inbounds) ∧
      enabledWgInterfaces env db node = .ok ifaces ∧
      buildWireguard env keys active db.wgPeers ifaces = (peers, .ok spec.wireguard) ∧
      enabledNodeServices env db node = .ok spec.services ∧ db₁ = { db with wgPeers := peers } ∧
      spec = ⟨"info", "127.0.0.1:9090", "", spec.inbounds, spec.wireguard, spec.services⟩ := by
  rw [buildNodeSpec] at h
  rcases hb : buildInbounds env db node now with e | ⟨active, inbounds⟩
  · rw [hb] at h
    cases (Prod.mk.inj h).2
  rw [hb] at h
  rcases hi : enabledWgInterfaces env db node with e | ifaces
  · simp only [hi] at h
    cases (Prod.mk.inj h).2
  rcases hw : buildWireguard env keys active db.wgPeers ifaces with ⟨peers, e | wireguard⟩
  · simp only [hi, hw] at h
    cases (Prod.mk.inj h).2
  simp only [hi, hw] at h
  obtain ⟨rfl, hs⟩ := Prod.mk.inj h
  obtain ⟨services, hservices, hs⟩ := bind_eq_ok.mp hs
  obtain rfl := ok.inj hs
  exact ⟨active, ifaces, peers, rfl, rfl, hw, hservices, rfl, rfl⟩

/-- A build on what a successful build has left, with other totals but the same active users, writes
    nothing and gives the same spec exactly if it shows the same quotas. -/
theorem rebuild (keys₂ : Keys) (h : buildNodeSpec env keys db node now = (db₁, .ok spec))
    (hsame : SameSpec f db₁ db₂) (hact : db₂.activeIds node now₂ = db₁.activeIds node now) :
    ∃ spec₂, buildNodeSpec env keys₂ db₂ node now₂ = (db₂, .ok spec₂) ∧ (spec₂ = spec ↔ QuotasKept f db₁ node now) := by
  obtain ⟨active, ifaces, peers, hinbounds, hifaces, hwireguard, hservices, rfl, hspec⟩ := buildNodeSpec_ok h
  set db₁ : Db := { db with wgPeers := peers }
  have hinbounds₁ : buildInbounds env db₁ node now = .ok (active, spec.inbounds) := hinbounds
  obtain ⟨rows, bases, hrows, hbases, hzip, hinbounds₂⟩ := rebuildInbounds hsame hact hinbounds₁
  have hifaces₂ : enabledWgInterfaces env db₂ node = .ok ifaces := by
    rw [enabledWgInterfaces, hsame.wgInterfaces]
    exact hifaces
  have hids : (active.map (User.setUsed f)).map (·.id) = active.map (·.id) := by
    rw [map_map]
    rfl
  have hwireguard₂ : buildWireguard env keys₂ (active.map (User.setUsed f)) db₂.wgPeers ifaces =
      (db₂.wgPeers, .ok spec.wireguard) := by
    refine (rebuildWireguard hids (wgInterfaces_nodup hifaces) hwireguard).2 db₂.wgPeers ?_
    exact fun i _ => by rw [hsame.wgPeers]
  have hservices₂ : enabledNodeServices env db₂ node = .ok spec.services := by
    rw [enabledNodeServices, hsame.services]
    exact hservices
  refine ⟨{ spec with
    inbounds := zipWith (addUsers (active.map (User.setUsed f))) rows bases }, ?_, ?_⟩
  · rw [buildNodeSpec, hinbounds₂]
    simp only [hifaces₂, hwireguard₂, hservices₂]
    rw [hspec]
    rfl
  · obtain ⟨rows', users, bases', -, husers, -, hactive, -⟩ := buildInbounds_eq_ok.mp hinbounds₁
    have hlen : rows.length = bases.length := by
      have hkeep := mapM_keeps (p := fun _ : Inbound => ()) (fun _ _ _ => rfl) hbases
      simpa using (congrArg length hkeep).symm
    have hmoved : ∀ ib : Inbound, (active.map (User.setUsed f)).map (inboundUser ib) = active.map (inboundUser ib) ↔
          ∀ u ∈ db₁.activeUsers node now, 0 < u.trafficLimitBytes → f u.id = u.usedTrafficBytes := by
      intro ib
      rw [← active_iff husers, ← hactive, map_map, map_inj_left]
      refine forall₂_congr fun u hu => ?_
      rw [hactive] at hu
      exact inboundUser_setUsed ib (mem_filter.mp hu).2
    have heq : ({ spec with
        inbounds := zipWith (addUsers (active.map (User.setUsed f))) rows bases } : NodeSpec) = spec ↔
        zipWith (addUsers (active.map (User.setUsed f))) rows bases = zipWith (addUsers active) rows bases := by
      rw [← hzip]
      constructor
      · exact congrArg NodeSpec.inbounds
      · intro h
        rw [h]
    rw [heq, zipWith_addUsers_iff hlen hmoved, rows_eq_nil_iff hrows]
    rfl

end Whole

/-! ### Who is served -/

section

variable {env : Env} {db : Db} {node : Uuid} {now : ℤ} {users : List User}

theorem decryptUser_ok (now : ℤ) {u x : User} (h : env.decryptUser u = .ok x) : x.username = u.username ∧
    env.decrypt u.password = .ok x.password ∧ x.isActive now = u.isActive now := by
  obtain ⟨password, hpassword, h⟩ := bind_eq_ok.mp h
  obtain ⟨uuid, -, h⟩ := bind_eq_ok.mp h
  obtain rfl := ok.inj h
  exact ⟨rfl, hpassword, rfl⟩

theorem active_of_listed (husers : usersWithNodeAccess env db node = .ok users) {x : User}
    (hx : x ∈ users.filter (·.isActive now)) : ∃ u ∈ db.activeUsers node now, env.decryptUser u = .ok x := by
  obtain ⟨hx, hactive⟩ := mem_filter.mp hx
  obtain ⟨u, hu, hux⟩ := mapM_mem husers x hx
  rw [mem_insertionSort, mem_filter] at hu
  refine ⟨u, mem_filter.mpr ⟨hu.1, ?_⟩, hux⟩
  rw [hu.2, ← (decryptUser_ok now hux).2.2, hactive]
  rfl

theorem listed_of_active (husers : usersWithNodeAccess env db node = .ok users) {u : User}
    (hu : u ∈ db.activeUsers node now) : ∃ x ∈ users.filter (·.isActive now), env.decryptUser u = .ok x := by
  obtain ⟨hu, hactive⟩ := mem_filter.mp hu
  rw [Bool.and_eq_true] at hactive
  obtain ⟨x, hx, hux⟩ := mem_mapM husers u ((mem_insertionSort _).mpr (mem_filter.mpr ⟨hu, hactive.1⟩))
  exact ⟨x, mem_filter.mpr ⟨hx, (decryptUser_ok now hux).2.2.trans hactive.2⟩, hux⟩

theorem mem_chainUsers {exit : Uuid} {chain : List (String × String × Option String)}
    (h : chainUsersForExit env db exit = .ok chain) {c : String × String × Option String} :
    c ∈ chain ↔ ∃ j ∈ db.inbounds.rows, (j.upstreamInboundId = some exit ∧ j.enabled ∧ j.chainUuid.isSome) ∧
      ∃ password, env.decryptOption j.chainPassword = .ok password ∧
        c = (chainLabel j, j.chainUuid.getD "", password) := by
  constructor
  · intro hc
    obtain ⟨j, hj, h⟩ := mapM_mem h c hc
    obtain ⟨password, hpassword, h⟩ := bind_eq_ok.mp h
    obtain ⟨hj, hto⟩ := mem_filter.mp hj
    exact ⟨j, hj, by simpa using hto, password, hpassword, (ok.inj h).symm⟩
  · rintro ⟨j, hj, hto, password, hpassword, rfl⟩
    obtain ⟨c, hc, h⟩ := mem_mapM h j (mem_filter.mpr ⟨hj, by simpa using hto⟩)
    obtain ⟨password', hpassword', h⟩ := bind_eq_ok.mp h
    obtain rfl := ok.inj (hpassword.symm.trans hpassword')
    exact (ok.inj h).symm ▸ hc

end

end Honey.Master
