import Honey.Master.Reads

/-! What a spec does not see: rows of another node, users without access to the node, and groups that are deleted.

        another node          -- its groups, interfaces and services do not show
        a user without access -- its row and its grants do not show
                              +- its peers, left from earlier, hold addresses
        groups deleted        -- the users with access shrink, or become everybody
-/

namespace Honey.Master
open Honey.Schemes List Option Reads Except

theorem filter_twice {α : Type} {l : List α} {p q : α → Bool} (hpq : ∀ x ∈ l, p x → q x) :
    (l.filter q).filter p = l.filter p := by
  rw [List.filter_filter]
  exact filter_congr fun x hx => Bool.and_eq_left_iff_imp.mpr (hpq x hx)

theorem filter_at {α : Type} {l l' : List α} {node : α → Uuid} {n m : Uuid} (on : α → Bool) (hm : m ≠ n)
    (h : l'.filter (node · ≠ n) = l.filter (node · ≠ n)) :
    l'.filter (fun x => node x = m ∧ on x) = l.filter fun x => node x = m ∧ on x := by
  have hpq : ∀ x, decide (node x = m ∧ on x) → decide (node x ≠ n) := by simp +contextual [hm]
  rw [← filter_twice fun x _ => hpq x, h, filter_twice fun x _ => hpq x]

theorem mem_of_filter {α : Type} {l l' : List α} {p : α → Bool} {x : α} (h : l'.filter p = l.filter p) (hx : p x) :
    x ∈ l' ↔ x ∈ l := by
  rw [← and_iff_left (a := x ∈ l') hx, ← mem_filter, h, mem_filter, and_iff_left hx]

theorem bareInbound_congr {env : Env} {db db' : Db} (hinbounds : db'.inbounds = db.inbounds)
    (hnodes : db'.nodes = db.nodes) : bareInbound env db' = bareInbound env db := by
  funext active ib
  have hout : upstreamOutbound db' ib = upstreamOutbound db ib := by
    simp [upstreamOutbound, buildChainOutbound, endpointForInbound, hinbounds, hnodes]
  simp [bareInbound, buildInbound, chainUsersForExit, hinbounds, hout]

theorem mem_enabledWgInterfaces {env : Env} {db : Db} {m : Uuid} {ifaces : List WgInterface}
    (h : enabledWgInterfaces env db m = .ok ifaces) :
    (∀ j ∈ ifaces, ∃ i ∈ db.wgInterfaces.rows, (i.nodeId = m ∧ i.enabled) ∧ j.id = i.id ∧
      j.addressCidr = i.addressCidr) ∧
    ∀ i ∈ db.wgInterfaces.rows, i.nodeId = m → i.enabled → ∃ j ∈ ifaces, j.id = i.id ∧
      j.addressCidr = i.addressCidr := by
  constructor
  · intro j hj
    obtain ⟨i, hi, hij⟩ := mapM_mem h j hj
    obtain ⟨key, -, hij⟩ := bind_eq_ok.mp hij
    obtain rfl := ok.inj hij
    rw [mem_insertionSort, mem_filter] at hi
    exact ⟨i, hi.1, by simpa using hi.2, rfl, rfl⟩
  · intro i hi hnode henabled
    have hmem : i ∈ (db.wgInterfaces.rows.filter fun i => i.nodeId = m ∧ i.enabled).insertionSort
        fun i j => i.createdAt ≤ j.createdAt := by
      rw [mem_insertionSort, mem_filter]
      exact ⟨hi, by simp [hnode, henabled]⟩
    obtain ⟨j, hj, hij⟩ := mem_mapM h i hmem
    obtain ⟨key, -, hij⟩ := bind_eq_ok.mp hij
    obtain rfl := ok.inj hij
    exact ⟨_, hj, rfl, rfl⟩

/-! ### One node -/

/-- Nothing but the groups, the interfaces and the services of one node is different. -/
structure OnlyNode (n : Uuid) (db db' : Db) : Prop where
  users : db'.users = db.users
  grants : db'.userGroupAccess = db.userGroupAccess
  nodes : db'.nodes = db.nodes
  inbounds : db'.inbounds = db.inbounds
  members : db'.nodeGroupMembers.filter (·.1 ≠ n) = db.nodeGroupMembers.filter (·.1 ≠ n)
  wgInterfaces : db'.wgInterfaces.rows.filter (·.nodeId ≠ n) = db.wgInterfaces.rows.filter (·.nodeId ≠ n)
  services : db'.services.rows.filter (·.nodeId ≠ n) = db.services.rows.filter (·.nodeId ≠ n)
  peers : ∀ i ∈ db.wgInterfaces.rows, i.nodeId ≠ n → peersAt db'.wgPeers i.id = peersAt db.wgPeers i.id

section OneNode

variable {env : Env} {keys : Keys} {db db' : Db} {n m : Uuid} {now : ℤ}

theorem OnlyNode.hasAccess (h : OnlyNode n db db') (hm : m ≠ n) (v : Uuid) : db'.hasAccess m v = db.hasAccess m v := by
  have hmember : ∀ x : Uuid × Uuid, x.1 = m → (x ∈ db'.nodeGroupMembers ↔ x ∈ db.nodeGroupMembers) := by
    intro x hx
    exact mem_of_filter h.members (by simp [hx, hm])
  rw [Bool.eq_iff_iff, hasAccess_iff, hasAccess_iff, h.grants]
  refine or_congr (forall_congr' fun x => ?_) (exists_congr fun x => ?_)
  all_goals
    by_cases hx : x.1 = m
    · rw [hmember x hx]
    · simp [hx]

theorem OnlyNode.specOf (h : OnlyNode n db db') (hm : m ≠ n) :
    specOf env keys db' m now = specOf env keys db m now := by
  have hrows : enabledNodeInbounds env db' m = enabledNodeInbounds env db m := by
    rw [enabledNodeInbounds, enabledNodeInbounds, h.inbounds]
  have husers : usersWithNodeAccess env db' m = usersWithNodeAccess env db m := by
    simp [usersWithNodeAccess, h.users, h.hasAccess hm]
  have hifaces : enabledWgInterfaces env db' m = enabledWgInterfaces env db m := by
    rw [enabledWgInterfaces, enabledWgInterfaces, filter_at _ hm h.wgInterfaces]
  have hservices : enabledNodeServices env db' m = enabledNodeServices env db m := by
    rw [enabledNodeServices, enabledNodeServices, filter_at _ hm h.services]
  rw [specOf_eq, specOf_eq]
  refine (spec_eq_iff (g := id) now ?_ ?_ ?_ ?_).mpr fun _ rows users ifaces _ _ hread => ⟨?_, ?_⟩
  · simp [Db.reads, hrows]
  · rw [Db.reads, husers, Db.reads]
  · rw [Db.reads, hifaces, Db.reads]
  · rw [Db.reads, hservices, Db.reads]
  · intro ib _
    exact congrFun₂ (bareInbound_congr h.inbounds h.nodes) _ ib
  intro j hj
  have hok : enabledWgInterfaces env db m = .ok ifaces := toOption_eq_some.mp hread
  obtain ⟨i, hi, ⟨hnode, -⟩, hid, -⟩ := (mem_enabledWgInterfaces hok).1 j hj
  show wgFace env keys _ j _ = wgFace env keys _ j _
  rw [hid, h.peers i hi (hnode ▸ hm)]

end OneNode

/-! ### One user -/

/-- Nothing but one user, its grants and its peers is different. -/
structure OnlyUser (u : Uuid) (db db' : Db) : Prop where
  users : db'.users.rows.filter (·.id ≠ u) = db.users.rows.filter (·.id ≠ u)
  members : db'.nodeGroupMembers = db.nodeGroupMembers
  grants : db'.userGroupAccess.filter (·.1 ≠ u) = db.userGroupAccess.filter (·.1 ≠ u)
  nodes : db'.nodes = db.nodes
  inbounds : db'.inbounds = db.inbounds
  wgInterfaces : db'.wgInterfaces = db.wgInterfaces
  services : db'.services = db.services

section OneUser

variable {env : Env} {keys : Keys} {db db' : Db} {u m : Uuid} {now : ℤ}

theorem OnlyUser.hasAccess_of_ne (h : OnlyUser u db db') {v : Uuid} (hv : v ≠ u) :
    db'.hasAccess m v = db.hasAccess m v := by
  have hgrant : ∀ g, (v, g) ∈ db'.userGroupAccess ↔ (v, g) ∈ db.userGroupAccess := by
    intro g
    exact mem_of_filter h.grants (by simp [hv])
  simp [Db.hasAccess, h.members, hgrant]

/-- The user is not there, or has no access to the node. -/
def Db.Hides (db : Db) (m u : Uuid) : Prop := ∀ v ∈ db.users.rows, v.id = u → db.hasAccess m u = false

theorem filter_access (h : db.Hides m u) : db.users.rows.filter (fun v => db.hasAccess m v.id) =
    (db.users.rows.filter (·.id ≠ u)).filter fun v => db.hasAccess m v.id := by
  refine (filter_twice fun v hmem haccess => ?_).symm
  simp only [decide_eq_true_eq]
  rintro rfl
  simp [h v hmem rfl] at haccess

theorem OnlyUser.usersWithNodeAccess (h : OnlyUser u db db') (hno : db.Hides m u)
    (hno' : db'.Hides m u) : usersWithNodeAccess env db' m = usersWithNodeAccess env db m := by
  have hrows : db'.users.rows.filter (fun v => db'.hasAccess m v.id) =
      db.users.rows.filter fun v => db.hasAccess m v.id := by
    rw [filter_access hno', filter_access hno, h.users]
    refine filter_congr fun v hv => ?_
    exact h.hasAccess_of_ne (by simpa using (mem_filter.mp hv).2)
  rw [Honey.Master.usersWithNodeAccess, Honey.Master.usersWithNodeAccess, hrows]

theorem OnlyUser.reads (h : OnlyUser u db db') (hno : db.Hides m u) (hno' : db'.Hides m u) :
    db'.reads env keys m = { db.reads env keys m with
      face := fun active i => wgFace env keys active i (peersAt db'.wgPeers i.id) } := by
  show Reads.mk _ _ (bareInbound env db') _ _ _ = _
  rw [h.usersWithNodeAccess hno hno', bareInbound_congr h.inbounds h.nodes]
  simp only [enabledNodeInbounds, enabledWgInterfaces, enabledNodeServices, h.inbounds, h.wgInterfaces, h.services]
  rfl

/-- A hidden user does not show, as long as its peers stay. -/
theorem OnlyUser.specOf (h : OnlyUser u db db') (hpeers : db'.wgPeers = db.wgPeers)
    (hno : db.Hides m u) (hno' : db'.Hides m u) : specOf env keys db' m now = specOf env keys db m now := by
  rw [specOf_eq, specOf_eq, h.reads hno hno', hpeers]
  rfl

theorem active_perm {users : List User} (h : Honey.Master.usersWithNodeAccess env db m = .ok users) :
    ((active now users).map (·.id)).Perm (db.activeIds m now) := by
  have hnd : (db.activeIds m now).Nodup := db.users.nodup.sublist (filter_sublist.map _)
  refine (perm_ext_iff_of_nodup (active_nodup now h) hnd).mpr fun v => ?_
  have hkeep := users_keep (p := fun u => (u.isActive now, u.id)) (fun _ _ _ => rfl) h (true, v)
  have hread : v ∈ (active now users).map (·.id) ↔ (true, v) ∈ users.map fun u => (u.isActive now, u.id) := by
    simp [active, and_assoc]
  rw [hread, hkeep, Db.activeIds, Db.activeUsers]
  simp [and_assoc]

theorem IdlePeer.congr {active active' : List Uuid} {cidr : String} {rows : List WgPeer} {p : WgPeer}
    (h : active.Perm active') : IdlePeer env active cidr rows p ↔ IdlePeer env active' cidr rows p := by
  have hlen : (lacking active (withoutUser p.userId rows)).length =
      (lacking active' (withoutUser p.userId rows)).length :=
    (h.filter _).length_eq
  constructor <;>
  · rintro ⟨hopens, haddress⟩
    exact ⟨hopens, hlen ▸ haddress⟩

theorem peersAt_without (peers : Peers) (i : Uuid) :
    peersAt (peers.keep (·.userId ≠ u)) i = withoutUser u (peersAt peers i) := by
  rw [peersAt, peersAt, Table.keep, withoutUser, List.filter_filter, List.filter_filter]
  exact filter_congr fun p _ => Bool.and_comm _ _

/-- The peers that a hidden user has left to a node do not matter. -/
def LeavesIdle (env : Env) (db : Db) (u m : Uuid) (now : ℤ) : Prop :=
  ∀ i ∈ db.wgInterfaces.rows, i.nodeId = m → i.enabled → ∀ p ∈ peersAt db.wgPeers i.id, p.userId = u →
    IdlePeer env (db.activeIds m now) i.addressCidr (peersAt db.wgPeers i.id) p

/-- A hidden user is deleted with its peers: that shows exactly if one of them mattered, and
    there is a spec without it. -/
theorem OnlyUser.specOf_without (h : OnlyUser u db db') (hpeers : db'.wgPeers = db.wgPeers.keep (·.userId ≠ u))
    (hno : db.Hides m u) (hno' : db'.Hides m u) :
    Honey.Master.specOf env keys db' m now = Honey.Master.specOf env keys db m now ↔
      ((Honey.Master.specOf env keys db' m now).isSome → LeavesIdle env db u m now) := by
  let r := db.reads env keys m
  let r' := db'.reads env keys m
  have hreads : r' = { r with
      face := fun active i => wgFace env keys active i (withoutUser u (peersAt db.wgPeers i.id)) } := by
    simp only [r', r, h.reads hno hno', hpeers, peersAt_without]
  have hrows : r'.rows = r.rows.map (List.map id) := by
    rw [hreads]
    simp
  have hinactive : ∀ {users : List User}, r.users = some users → u ∉ (active now users).map (·.id) := by
    intro users hu hmem
    have hids := (active_perm (toOption_eq_some.mp hu)).mem_iff.mp hmem
    obtain ⟨row, hrow, hid⟩ := mem_map.mp hids
    obtain ⟨hthere, haccess⟩ := mem_filter.mp hrow
    simp [hid, hno row hthere hid] at haccess
  have hmono : (r.spec now).isSome → (r'.spec now).isSome := by
    rw [spec_isSome_iff, spec_isSome_iff, hreads]
    rintro ⟨rows, users, ifaces, services, hparts, hone, hface⟩
    exact ⟨rows, users, ifaces, services, hparts, hone, fun i hi =>
      wgFace_without_isSome (hinactive hparts.2.1) (hface i hi)⟩
  rw [specOf_eq, specOf_eq, spec_eq_iff now hrows (by rw [hreads]) (by rw [hreads]) (by rw [hreads]),
    or_iff_right_of_imp hmono]
  refine imp_congr_right fun hsome => ?_
  have hface : ∀ active i, r'.face active i = wgFace env keys active i (withoutUser u (peersAt db.wgPeers i.id)) := by
    intro active i
    rw [hreads]
  obtain ⟨rows, users, ifaces, services, ⟨hr, hu, hi, -⟩, -, hfaces⟩ := (spec_isSome_iff now).mp hsome
  rw [hreads] at hr hu hi
  obtain ⟨hread, hstored⟩ := mem_enabledWgInterfaces (toOption_eq_some.mp hi)
  have hone : ∀ j ∈ ifaces, r'.face ((active now users).map (·.id)) j =
      r.face ((active now users).map (·.id)) j ↔ ∀ p ∈ peersAt db.wgPeers j.id, p.userId = u →
        IdlePeer env (db.activeIds m now) j.addressCidr (peersAt db.wgPeers j.id) p := by
    intro j hj
    have hthere := hfaces j hj
    rw [hface] at hthere ⊢
    have hiff := wgFace_without_iff (hinactive hu) (peersAt_nodup db.wgPeers j.id) hthere
    refine hiff.trans (forall₃_congr fun p _ _ => ?_)
    exact IdlePeer.congr (active_perm (toOption_eq_some.mp hu))
  constructor
  · intro hsame i hmem hnode henabled
    obtain ⟨j, hj, hid, hcidr⟩ := hstored i hmem hnode henabled
    rw [← hid, ← hcidr]
    exact (hone j hj).mp ((hsame rows users ifaces hr hu hi).2 j hj)
  · intro hidle rows' users' ifaces' hr' hu' hi'
    obtain rfl := some.inj (hu.symm.trans hu')
    obtain rfl := some.inj (hi.symm.trans hi')
    refine ⟨fun ib _ => ?_, fun j hj => (hone j hj).mpr ?_⟩
    · rw [hreads]
      rfl
    · obtain ⟨i, hmem, ⟨hnode, henabled⟩, hid, hcidr⟩ := hread j hj
      rw [hid, hcidr]
      exact hidle i hmem hnode henabled

end OneUser

/-! ### Groups deleted -/

/-- The collation of user names is an order. -/
structure Env.Collates (env : Env) : Prop where
  total : ∀ a b, env.usernameLe a b ∨ env.usernameLe b a
  trans : ∀ a b c, env.usernameLe a b → env.usernameLe b c → env.usernameLe a c
  antisymm : ∀ a b, env.usernameLe a b → env.usernameLe b a → a = b

/-- A node has something that users connect to. -/
def Db.Serves (db : Db) (m : Uuid) : Prop :=
  (∃ i ∈ db.inbounds.rows, i.nodeId = m ∧ i.enabled) ∨ ∃ i ∈ db.wgInterfaces.rows, i.nodeId = m ∧ i.enabled

section Groups

variable {env : Env} {keys : Keys} {db : Db} {m : Uuid} {now : ℤ} {deleted : List Uuid}

theorem active_sorted (now : ℤ) {users : List User} (hle : env.Collates)
    (hnames : (db.users.rows.map (·.username)).Nodup) (h : usersWithNodeAccess env db m = .ok users) :
    ((db.activeUsers m now).insertionSort fun u v => env.usernameLe u.username v.username).mapM env.decryptUser =
      .ok (active now users) := by
  let le : User → User → Prop := fun u v => env.usernameLe u.username v.username
  have htotal : Std.Total le := ⟨fun u v => hle.total u.username v.username⟩
  have htrans : IsTrans User le := ⟨fun u v w => hle.trans u.username v.username w.username⟩
  let q : User → Bool := (·.isActive now)
  have hfilter := mapM_filter (p := q) (q := q) (fun u v huv => by
    obtain ⟨password, -, huv⟩ := bind_eq_ok.mp huv
    obtain ⟨uuid, -, huv⟩ := bind_eq_ok.mp huv
    rw [← ok.inj huv]
    rfl) h
  refine (congrArg _ ?_).trans hfilter
  -- both lists are sorted, and they have the same rows
  have hperm : ((db.activeUsers m now).insertionSort le).Perm
      (((db.users.rows.filter fun u => db.hasAccess m u.id).insertionSort le).filter q) := by
    refine (perm_insertionSort le _).trans (.trans ?_ ((perm_insertionSort le _).filter q).symm)
    rw [List.filter_filter]
    exact Perm.of_eq (filter_congr fun u _ => Bool.and_comm _ _)
  refine hperm.eq_of_pairwise ?_ (pairwise_insertionSort le _) ((pairwise_insertionSort le _).filter q)
  intro u v hu hv huv hvu
  rw [mem_insertionSort] at hu
  have hv := (mem_insertionSort (r := le)).mp (mem_filter.mp hv).1
  exact inj_on_of_nodup_map hnames (mem_filter.mp hu).1 (mem_filter.mp hv).1 (hle.antisymm _ _ huv hvu)

theorem access_nested (db : Db) (deleted : List Uuid) (m : Uuid) :
    (∀ v, (db.withoutGroups deleted).hasAccess m v → db.hasAccess m v) ∨
      ∀ v, db.hasAccess m v → (db.withoutGroups deleted).hasAccess m v := by
  by_cases hall : ∀ x ∈ db.nodeGroupMembers, x.1 = m → x.2 ∈ deleted
  · exact .inr fun v _ => hasAccess_withoutGroups.mpr (.inl hall)
  refine .inl fun v hv => ?_
  rcases hasAccess_withoutGroups.mp hv with h | ⟨x, hx, -, hnode, hgrant⟩
  · exact absurd h hall
  · exact hasAccess_iff.mpr (.inr ⟨x, hx, hnode, hgrant⟩)

theorem activeUsers_of_length (h : ((db.withoutGroups deleted).activeIds m now).length = (db.activeIds m now).length) :
    (db.withoutGroups deleted).activeUsers m now = db.activeUsers m now := by
  rw [Db.activeIds, Db.activeIds, length_map, length_map] at h
  rcases access_nested db deleted m with hless | hmore
  · refine (monotone_filter_right db.users.rows fun v hv => ?_).eq_of_length h
    rw [Bool.and_eq_true] at hv ⊢
    exact ⟨hless v.id hv.1, hv.2⟩
  · refine ((monotone_filter_right db.users.rows fun v hv => ?_).eq_of_length h.symm).symm
    rw [Bool.and_eq_true] at hv ⊢
    exact ⟨hmore v.id hv.1, hv.2⟩

theorem length_active {users : List User} (h : usersWithNodeAccess env db m = .ok users) :
    (active now users).length = (db.activeIds m now).length := by
  rw [← (active_perm h).length_eq, length_map]

theorem length_of_bareInbound {active active' : List User} {ib : Inbound} {x : SpecInbound}
    (h : bareInbound env db active ib = some x) (h' : bareInbound env db active' ib = some x) :
    active.length = active'.length := by
  rw [bareInbound_eq] at h h'
  simp only [bind_eq_some_iff, map_eq_some_iff] at h h'
  obtain ⟨port, -, tls, -, chain, hchain, up, -, rfl⟩ := h
  obtain ⟨port', -, tls', -, chain', hchain', up', -, h'⟩ := h'
  obtain rfl := some.inj (hchain.symm.trans hchain')
  have hlen := congrArg (fun x => x.users.length) h'
  simpa [inboundWith] using hlen.symm

theorem activeIds_of_specOf (hserves : db.Serves m) {x : NodeSpec} (h : specOf env keys db m now = some x)
    (h' : specOf env keys (db.withoutGroups deleted) m now = some x) :
    ((db.withoutGroups deleted).activeIds m now).length = (db.activeIds m now).length := by
  rw [specOf_eq] at h h'
  obtain ⟨rows, users, ifaces, -, ⟨hr, hu, hi, -⟩, hxs, hws⟩ := spec_eq_some now h
  obtain ⟨rows', users', ifaces', -, ⟨hr', hu', hi', -⟩, hxs', hws'⟩ := spec_eq_some now h'
  obtain rfl := some.inj (hr.symm.trans hr')
  obtain rfl := some.inj (hi.symm.trans hi')
  have hu := toOption_eq_some.mp hu
  have hu' := toOption_eq_some.mp hu'
  rw [← length_active hu, ← length_active hu']
  rcases hserves with ⟨i, hmem, hnode, henabled⟩ | ⟨i, hmem, hnode, henabled⟩
  · obtain ⟨y, hy, -⟩ := (mem_enabledNodeInbounds (toOption_eq_some.mp hr)).2 i hmem hnode henabled
    have hsame := mapM_injective hxs hxs' y hy
    obtain ⟨z, hz⟩ := isSome_iff_exists.mp (mapM_some_iff.mp (by rw [hxs]; rfl) y hy)
    exact (length_of_bareInbound hz (hsame.symm.trans hz)).symm
  obtain ⟨j, hj, -⟩ := (mem_enabledWgInterfaces (toOption_eq_some.mp hi)).2 i hmem hnode henabled
  have hsame := mapM_injective hws hws' j hj
  obtain ⟨w, hw⟩ := isSome_iff_exists.mp (mapM_some_iff.mp (by rw [hws]; rfl) j hj)
  have hlen := wgFace_length (active_nodup now hu) (peersAt_nodup db.wgPeers j.id) hw
  have hlen' := wgFace_length (active_nodup now hu') (peersAt_nodup db.wgPeers j.id) (hsame.symm.trans hw)
  rw [length_map] at hlen hlen'
  exact hlen'.symm.trans hlen

/-- Groups deleted show in a spec exactly if it can be built on one side only, or if the node serves
    other users than before. -/
theorem specOf_withoutGroups (hle : env.Collates) (hnames : (db.users.rows.map (·.username)).Nodup) :
    specOf env keys (db.withoutGroups deleted) m now = specOf env keys db m now ↔
      ((specOf env keys (db.withoutGroups deleted) m now).isSome ↔ (specOf env keys db m now).isSome) ∧
      ((specOf env keys db m now).isSome → db.Serves m →
        (db.withoutGroups deleted).activeIds m now = db.activeIds m now) := by
  constructor
  · intro heq
    refine ⟨by rw [heq], fun hsome hserves => ?_⟩
    obtain ⟨x, hx⟩ := isSome_iff_exists.mp hsome
    rw [Db.activeIds, Db.activeIds, activeUsers_of_length (activeIds_of_specOf hserves hx (heq.trans hx))]
  · rintro ⟨hbuilds, hactive⟩
    by_cases hsome : (specOf env keys db m now).isSome
    · obtain ⟨x, hx⟩ := isSome_iff_exists.mp hsome
      obtain ⟨x', hx'⟩ := isSome_iff_exists.mp (hbuilds.mpr hsome)
      rw [specOf_eq] at hx hx' ⊢
      rw [specOf_eq]
      obtain ⟨rows, users, ifaces, services, ⟨hr, hu, hi, hs⟩, -⟩ := spec_eq_some now hx
      obtain ⟨rows', users', ifaces', services', ⟨hr', hu', hi', hs'⟩, -⟩ := spec_eq_some now hx'
      rw [spec_of_parts now ⟨hr, hu, hi, hs⟩, spec_of_parts now ⟨hr', hu', hi', hs'⟩]
      obtain rfl := some.inj (hr.symm.trans hr')
      obtain rfl := some.inj (hi.symm.trans hi')
      obtain rfl := some.inj (hs.symm.trans hs')
      by_cases hserves : db.Serves m
      · have hlen := congrArg length (hactive hsome hserves)
        have hread : usersWithNodeAccess env (db.withoutGroups deleted) m = .ok users' := toOption_eq_some.mp hu'
        have hsorted := active_sorted now hle hnames (toOption_eq_some.mp hu)
        have hnames' : ((db.withoutGroups deleted).users.rows.map (·.username)).Nodup := hnames
        have hsorted' := active_sorted now hle hnames' hread
        rw [activeUsers_of_length hlen, hsorted] at hsorted'
        rw [both, both, ok.inj hsorted']
        rfl
      · have hrows : rows = [] := by
          rw [eq_nil_iff_forall_not_mem]
          intro y hy
          obtain ⟨x, hx, hat, -⟩ := (mem_enabledNodeInbounds (toOption_eq_some.mp hr)).1 y hy
          exact hserves (.inl ⟨x, hx, hat⟩)
        have hifaces : ifaces = [] := by
          rw [eq_nil_iff_forall_not_mem]
          intro j hj
          obtain ⟨i, hmem, hat, -⟩ := (mem_enabledWgInterfaces (toOption_eq_some.mp hi)).1 j hj
          exact hserves (.inr ⟨i, hmem, hat⟩)
        rw [hrows, hifaces]
        rfl
    · have hnone := mt hbuilds.mp hsome
      rw [not_isSome_iff_eq_none] at hsome hnone
      rw [hsome, hnone]

end Groups

end Honey.Master
