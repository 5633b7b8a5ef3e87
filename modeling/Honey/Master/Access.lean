import Honey.Master.Public
import Honey.Master.Push

/-! Who may use what, as the four queries say it (`db/repo.rs`).

        users_with_node_access n --> build_node_spec n --> the users of its inbounds
        user_node_ids u          --> the nodes to push
        subscription_endpoints u --> load_subscription --> the links of u
        wg_interfaces_for_user u --> the tunnels of u

    All of them are one rule: a node in no group is open to everybody, one in groups to the users of these. A
    link is served exactly to those whom the node serves under their own name (`links_served_iff`). -/

namespace Honey.Master
open Honey.Schemes List Except

/-! ### The queries -/

/-- The columns that only subscriptions read, and the collation of node names. -/
structure Fronts where
  reachable : Uuid → Option Bool
  fallbackHost : Uuid → Option String
  extraAddresses : Uuid → List String
  nameLe : String → String → Bool

/-- `NOT EXISTS (… m) OR EXISTS (… m JOIN … a)`. -/
def Db.openTo (db : Db) (node user : Uuid) : Bool :=
  (db.nodeGroupMembers.filter (·.1 = node)).isEmpty || (db.nodeGroupMembers.filter (·.1 = node)).any fun m =>
      db.userGroupAccess.any fun a => a.2 = m.2 ∧ a.1 = user

namespace Fronts

variable (f : Fronts)

/-- A fallback host that is not empty. -/
def hasFallback (i : Inbound) : Bool := (f.fallbackHost i.id).any (· ≠ "")

/-- A row of `subscription_endpoints`; an inbound that is blocked is shown behind its fallback host. -/
def endpoint (i : Inbound) (n : Node) : PublicEndpoint where
  inboundId := i.id
  nodeName := n.name
  address := n.address
  tag := i.tag
  kind := i.kind
  core := i.core
  listenPort := i.listenPort
  flow := i.flow
  tlsEnabled := i.tlsEnabled
  serverName := i.serverName
  reality := i.reality
  realityPublicKey := i.realityPublicKey
  realityShortIds := i.realityShortIds
  network := i.network
  transportPath := i.transportPath
  transportHost :=
    if f.reachable i.id = some false ∧ f.hasFallback i then f.fallbackHost i.id else i.transportHost
  transportServiceName := i.transportServiceName
  transportMode := i.transportMode
  utlsFingerprint := i.utlsFingerprint
  ech := i.ech
  extra := i.extra
  extraAddresses := f.extraAddresses n.id

/-- `WHERE` of `subscription_endpoints`. -/
def shows (db : Db) (user : Uuid) (i : Inbound) (n : Node) : Bool :=
  i.enabled && n.enabled && !n.maintenance && (f.reachable i.id ≠ some false || f.hasFallback i) && db.openTo n.id user

/-- `ORDER BY n.name, i.listen_port`. -/
def before (a b : Inbound × Node) : Bool :=
  if a.2.name = b.2.name then a.1.listenPort ≤ b.1.listenPort else f.nameLe a.2.name b.2.name

def subscriptionEndpoints (db : Db) (user : Uuid) : List PublicEndpoint :=
  let joined := db.inbounds.rows.flatMap fun i => (db.nodes.rows.filter (·.id = i.nodeId)).map (i, ·)
  ((joined.filter fun x => f.shows db user x.1 x.2).insertionSort fun a b => f.before a b).map fun x =>
    f.endpoint x.1 x.2

/-- The handlers, with that query. -/
def reading (d : Documents) : Documents :=
  { d with endpoints := fun site user => .ok (f.subscriptionEndpoints site.users.db user) }

end Fronts

variable (env : Env)

def Env.decryptWgInterface (w : WgInterface) : Except String WgInterface := do
  let key ← env.decrypt w.privateKey
  return { w with privateKey := key }

def wgInterfacesForUser (db : Db) (user : Uuid) : Except String (List WgInterface) :=
  ((db.wgInterfaces.rows.filter fun w => w.enabled && (db.nodes.find? w.nodeId).any (·.enabled) &&
    db.openTo w.nodeId user).insertionSort fun v w => v.createdAt ≤ w.createdAt).mapM env.decryptWgInterface

/-! ### What is shown and what is served -/

/-- The inbound of a spec that was built from the row with an id. -/
def specInbound (db : Db) (node : Uuid) (spec : NodeSpec) (id : Uuid) : Option SpecInbound :=
  match enabledNodeInbounds env db node with
  | .ok rows => ((rows.zip spec.inbounds).find? (·.1.id = id)).map (·.2)
  | .error _ => none

/-- A subscription is served, and has an endpoint for an inbound. -/
def HasEndpoint (answer : Except Refusal (Subscriber × List PublicEndpoint)) (id : Uuid) : Prop :=
  ∃ a endpoints, answer = .ok (a, endpoints) ∧ ∃ e ∈ endpoints, e.inboundId = id

/-- The entry has the name, the uuid and the password of the user. -/
def InboundUser.Of (e : InboundUser) (x : User) : Prop :=
  e.name = x.username ∧ e.uuid = x.uuid ∧ e.password = x.password

/-- The inbound lets the user in. -/
def LetsIn (si : SpecInbound) (u : User) : Prop :=
  ∃ x, env.decryptUser u = .ok x ∧ ∃ e ∈ si.users, e.Of x

/-- A chain that ends at the inbound has the credential of the user, under its name. -/
def ChainedAs (db : Db) (exit : Uuid) (u : User) : Prop :=
  ∃ x, env.decryptUser u = .ok x ∧ ∃ j ∈ db.inbounds.rows, j.upstreamInboundId = some exit ∧ j.enabled ∧
    j.chainUuid = some x.uuid ∧ chainLabel j = x.username ∧
    ∃ password, env.decryptOption j.chainPassword = .ok password ∧ password.getD "" = x.password

section

variable {env : Env} {db : Db} {f : Fronts} {d : Documents} {g : Gate} {keys : Keys} {now : ℤ} {site : Site}
  {n : Node} {i : Inbound} {u : User} {user : Uuid}

theorem openTo_eq (db : Db) (node user : Uuid) : db.openTo node user = db.hasAccess node user := by
  rw [Bool.eq_iff_iff, hasAccess_iff]
  simp only [Db.openTo, Bool.or_eq_true, List.isEmpty_iff, filter_eq_nil_iff, any_eq_true, mem_filter,
    decide_eq_true_eq, and_assoc]
  refine or_congr_right (exists_congr fun m => and_congr_right fun _ => and_congr_right fun _ => ?_)
  constructor
  · rintro ⟨a, ha, hgroup, huser⟩
    rwa [← hgroup, ← huser]
  · exact fun h => ⟨_, h, rfl, rfl⟩

theorem expandEndpoints_inbound (endpoints : List PublicEndpoint) (id : Uuid) :
    (∃ e ∈ expandEndpoints endpoints, e.inboundId = id) ↔ ∃ e ∈ endpoints, e.inboundId = id := by
  constructor
  · rintro ⟨e, he, hid⟩
    obtain ⟨e', he', hmem⟩ := mem_flatMap.mp he
    refine ⟨e', he', ?_⟩
    split at hmem
    · rwa [← mem_singleton.mp hmem]
    rcases mem_cons.mp hmem with rfl | hmem
    · exact hid
    · obtain ⟨k, hk, rfl⟩ := mem_mapIdx.mp hmem
      exact hid
  · rintro ⟨e, he, hid⟩
    refine ⟨e, mem_flatMap.mpr ⟨e, he, ?_⟩, hid⟩
    split
    · exact mem_singleton_self e
    · exact mem_cons_self

theorem endpoint_listed_iff (hn : n ∈ db.nodes.rows) (hon : n.enabled) (hmaint : n.maintenance = false)
    (hi : i ∈ db.inbounds.rows) (hin : i.nodeId = n.id) (hien : i.enabled) (hreach : f.reachable i.id ≠ some false) :
    (∃ e ∈ f.subscriptionEndpoints db user, e.inboundId = i.id) ↔ db.hasAccess n.id user := by
  simp only [Fronts.subscriptionEndpoints, mem_map, mem_insertionSort, mem_filter, mem_flatMap]
  constructor
  · rintro ⟨_, ⟨⟨i', n'⟩, ⟨⟨i'', hi'', n'', ⟨-, hid⟩, hpair⟩, hshown⟩, rfl⟩, heq⟩
    obtain ⟨rfl, rfl⟩ := Prod.mk.inj hpair
    have hrow : i'' = i := inj_on_of_nodup_map db.inbounds.nodup hi'' hi heq
    have hnode : n''.id = n.id := by rw [of_decide_eq_true hid, hrow, hin]
    rw [Fronts.shows, Bool.and_eq_true, openTo_eq, hnode] at hshown
    exact hshown.2
  · intro haccess
    refine ⟨_, ⟨(i, n), ⟨⟨i, hi, n, ⟨hn, by simp [hin]⟩, rfl⟩, ?_⟩, rfl⟩, rfl⟩
    simp [Fronts.shows, hon, hmaint, hien, hreach, openTo_eq, haccess]

/-! ### The subscription -/

theorem hasEndpoint_iff {token : Uuid} {settings : List (String × String)}
    (htoken : (tokenRow g site.users token).map (·.user) = some u) (hsettings : site.settings = .ok settings)
    (hn : n ∈ site.users.db.nodes.rows) (hon : n.enabled) (hmaint : n.maintenance = false)
    (hi : i ∈ site.users.db.inbounds.rows) (hin : i.nodeId = n.id) (hien : i.enabled)
    (hreach : f.reachable i.id ≠ some false) : HasEndpoint (loadSubscription (f.reading d) g env now site token) i.id ↔
      (∃ x, env.decryptUser u = .ok x) ∧ u.isActive now ∧ site.users.db.hasAccess n.id u.id := by
  obtain ⟨row, hrow, rfl⟩ := Option.map_eq_some_iff.mp htoken
  have hload : getUserBySubscriptionToken g env site.users token =
      ((opened (env.decryptUser row.user)).map fun x => { row with user := x }).map some := by
    rw [getUserBySubscriptionToken, hrow]
    rfl
  cases hdec : env.decryptUser row.user with
  | error e =>
    have hfail : loadSubscription (f.reading d) g env now site token = .error .internal := by
      rw [loadSubscription, hload, hdec]
      rfl
    simp [HasEndpoint, hfail]
  | ok x =>
    obtain ⟨hid, hactive⟩ : x.id = row.user.id ∧ x.suppressedReason now = row.user.suppressedReason now := by
      obtain ⟨_, -, hdec⟩ := bind_eq_ok.mp hdec
      obtain ⟨_, -, hdec⟩ := bind_eq_ok.mp hdec
      obtain rfl := ok.inj hdec
      exact ⟨rfl, rfl⟩
    cases hreason : row.user.suppressedReason now with
    | some reason =>
      have hgone : loadSubscription (f.reading d) g env now site token =
          .error (.gone s!"subscription is {reason}") := by
        rw [hreason] at hactive
        simp only [loadSubscription, hload, hdec, hsettings]
        simp only [opened, Except.map, bind, Except.bind, found, applySubscriptionDefaults, hactive]
        rfl
      simp [HasEndpoint, hgone, User.isActive, hreason]
    | none =>
      have hserved : loadSubscription (f.reading d) g env now site token =
          .ok (applySubscriptionDefaults settings { row with user := x },
            expandEndpoints (f.subscriptionEndpoints site.users.db x.id)) := by
        rw [hreason] at hactive
        simp only [loadSubscription, hload, hdec, hsettings]
        simp only [opened, Except.map, bind, Except.bind, found, applySubscriptionDefaults, hactive]
        rfl
      have hlisted : (∃ e ∈ f.subscriptionEndpoints site.users.db x.id, e.inboundId = i.id) ↔
          site.users.db.hasAccess n.id x.id := endpoint_listed_iff hn hon hmaint hi hin hien hreach
      rw [← expandEndpoints_inbound, hid] at hlisted
      simp [HasEndpoint, hserved, User.isActive, hreason, hlisted, hid]

/-! ### The spec -/

theorem specInbound_of_row {db' : Db} {spec : NodeSpec} {node : Uuid}
    (h : buildNodeSpec env keys db node now = (db', .ok spec)) (hi : i ∈ db.inbounds.rows) (hin : i.nodeId = node)
    (hien : i.enabled) : ∃ users y si, usersWithNodeAccess env db node = .ok users ∧ y.id = i.id ∧
      specInbound env db node spec i.id = some si ∧ buildInbound env db (users.filter (·.isActive now)) y = .ok si := by
  obtain ⟨active, -, -, hbuild, -⟩ := buildNodeSpec_ok h
  simp only [buildInbounds, bind_eq_ok] at hbuild
  obtain ⟨rows, hrows, users, husers, inbounds, hinbounds, hend⟩ := hbuild
  obtain ⟨rfl, rfl⟩ := Prod.mk.inj (ok.inj hend)
  have hkept : ∀ x y, env.decryptInbound x = .ok y → y.id = x.id := by
    intro x y hxy
    obtain ⟨_, -, hxy⟩ := bind_eq_ok.mp hxy
    obtain ⟨_, -, hxy⟩ := bind_eq_ok.mp hxy
    obtain rfl := ok.inj hxy
    rfl
  obtain ⟨y, hy, hiy⟩ := mem_mapM hrows i ((mem_insertionSort _).mpr (mem_filter.mpr ⟨hi, by simp [hin, hien]⟩))
  obtain ⟨si, -, hsi⟩ := mem_mapM hinbounds y hy
  have hpair : (y, si) ∈ rows.zip spec.inbounds := (mem_zip_mapM hinbounds).mpr ⟨hy, hsi⟩
  obtain ⟨⟨y', si'⟩, hfind⟩ := Option.isSome_iff_exists.mp (find?_isSome.mpr
    ⟨_, hpair, by simp [hkept i y hiy]⟩ : ((rows.zip spec.inbounds).find? (·.1.id = i.id)).isSome)
  obtain ⟨-, hsi'⟩ := (mem_zip_mapM hinbounds).mp (mem_of_find?_eq_some hfind)
  refine ⟨users, y', si', husers, by simpa using find?_some hfind, ?_, hsi'⟩
  rw [specInbound, hrows]
  simp [hfind]

/-- Who is let in: the users of the node that are active, and whoever has the credential of a chain. -/
theorem letsIn_iff {users : List User} {y : Inbound} {si : SpecInbound}
    (hnames : (db.users.rows.map (·.username)).Nodup) (hu : u ∈ db.users.rows)
    (husers : usersWithNodeAccess env db n.id = .ok users)
    (hsi : buildInbound env db (users.filter (·.isActive now)) y = .ok si) :
    LetsIn env si u ↔ ((∃ x, env.decryptUser u = .ok x) ∧ u.isActive now ∧ db.hasAccess n.id u.id) ∨
      ChainedAs env db y.id u := by
  obtain ⟨_, chain, _, _, -, hchain, -, -, rfl⟩ := buildInbound_eq_ok.mp hsi
  constructor
  · rintro ⟨x, hx, e, he, hname, huuid, hpassword⟩
    rcases mem_append.mp he with he | he
    · left
      obtain ⟨x', hx', rfl⟩ := mem_map.mp he
      obtain ⟨v, hv, hvx⟩ := active_of_listed husers hx'
      obtain ⟨hmem, hactive⟩ := mem_filter.mp hv
      -- nobody else has the name
      have hvu : v = u := by
        refine inj_on_of_nodup_map hnames hmem hu ?_
        rw [← (decryptUser_ok now hvx).1, ← (decryptUser_ok now hx).1]
        exact hname
      rw [hvu, Bool.and_eq_true] at hactive
      exact ⟨⟨x, hx⟩, hactive.2, hactive.1⟩
    · right
      obtain ⟨c, hc, rfl⟩ := mem_map.mp he
      obtain ⟨j, hj, ⟨hto, hen, hsome⟩, password, hdec, rfl⟩ := (mem_chainUsers hchain).mp hc
      obtain ⟨uuid, hj'⟩ := Option.isSome_iff_exists.mp hsome
      rw [hj'] at huuid
      exact ⟨x, hx, j, hj, hto, hen, huuid ▸ hj', hname, password, hdec, hpassword⟩
  · rintro (⟨⟨x, hx⟩, hactive, haccess⟩ | ⟨x, hx, j, hj, hto, hen, huuid, hname, password, hdec, hpassword⟩)
    · have hlisted : u ∈ db.activeUsers n.id now := mem_filter.mpr ⟨hu, by simp [hactive, haccess]⟩
      obtain ⟨x', hx', hux'⟩ := listed_of_active husers hlisted
      obtain rfl := ok.inj (hx.symm.trans hux')
      exact ⟨x, hx, _, mem_append_left _ (mem_map_of_mem hx'), rfl, rfl, rfl⟩
    · have hc := (mem_chainUsers hchain).mpr ⟨j, hj, ⟨hto, hen, by rw [huuid]; rfl⟩, password, hdec, rfl⟩
      refine ⟨x, hx, _, mem_append_right _ (mem_map_of_mem hc), hname, ?_, hpassword⟩
      show j.chainUuid.getD "" = x.uuid
      rw [huuid, Option.getD_some]

theorem mem_users_iff {users : List User} (h : usersWithNodeAccess env db n.id = .ok users)
    (hu : u ∈ db.users.rows) : u.id ∈ users.map (·.id) ↔ db.hasAccess n.id u.id := by
  rw [users_keep (fun _ _ _ => rfl) h]
  constructor
  · rintro ⟨v, hv, haccess, hid⟩
    rwa [hid] at haccess
  · exact fun haccess => ⟨u, hu, haccess, rfl⟩

theorem wg_listed_iff {ifaces : List WgInterface} (h : wgInterfacesForUser env db user = .ok ifaces)
    (hn : n ∈ db.nodes.rows) (hon : n.enabled) {w : WgInterface} (hw : w ∈ db.wgInterfaces.rows)
    (hwn : w.nodeId = n.id) (hen : w.enabled) : w.id ∈ ifaces.map (·.id) ↔ db.hasAccess n.id user := by
  have hkeep := mapM_keeps (q := WgInterface.id) (fun v v' hv => by
    obtain ⟨key, -, hv⟩ := bind_eq_ok.mp hv
    rw [← ok.inj hv]) h
  have hnode : db.nodes.find? w.nodeId = some n := Table.find?_eq_some.mpr ⟨hn, hwn.symm⟩
  rw [hkeep]
  simp only [mem_map, mem_insertionSort, mem_filter, openTo_eq, Bool.and_eq_true]
  constructor
  · rintro ⟨v, ⟨hv, -, haccess⟩, hid⟩
    obtain rfl := inj_on_of_nodup_map db.wgInterfaces.nodup hv hw hid
    rwa [hwn] at haccess
  · exact fun haccess => ⟨w, ⟨hw, ⟨hen, by rw [hnode]; simpa using hon⟩, by rwa [hwn]⟩, rfl⟩

end

/-- On one state of the database: an inbound that is up lets a user in exactly if the subscription of the user
    has an endpoint for it, or a chain that ends there happens to have the credential of the user under its name;
    a node is among those of the user exactly if the user is among those of the node, and so is an interface of
    the node among those of the user. -/
theorem links_served_iff (d : Documents) (g : Gate) (env : Env) (keys : Keys) (now : ℤ) (f : Fronts) (site : Site)
    {settings : List (String × String)} (hsettings : site.settings = .ok settings) {u : User}
    (hu : u ∈ site.users.db.users.rows) {n : Node} (hn : n ∈ site.users.db.nodes.rows) (hon : n.enabled)
    (hmaint : n.maintenance = false) {i : Inbound} (hi : i ∈ site.users.db.inbounds.rows) (hin : i.nodeId = n.id)
    (hien : i.enabled) (hreach : f.reachable i.id ≠ some false) :
    (∀ token, (tokenRow g site.users token).map (·.user) = some u → ∀ db' spec,
      buildNodeSpec env keys site.users.db n.id now = (db', .ok spec) →
      ∃ si, specInbound env site.users.db n.id spec i.id = some si ∧
        (LetsIn env si u ↔ HasEndpoint (loadSubscription (f.reading d) g env now site token) i.id ∨
          ChainedAs env site.users.db i.id u)) ∧ (∀ users, usersWithNodeAccess env site.users.db n.id = .ok users →
      (n.id ∈ userNodeIds site.users.db u.id ↔ u.id ∈ users.map (·.id))) ∧
    ∀ ifaces, wgInterfacesForUser env site.users.db u.id = .ok ifaces → ∀ w ∈ site.users.db.wgInterfaces.rows,
      w.nodeId = n.id → w.enabled → (w.id ∈ ifaces.map (·.id) ↔ n.id ∈ userNodeIds site.users.db u.id) := by
  refine ⟨fun token htoken db' spec hspec => ?_, fun users husers => ?_, fun ifaces hifaces w hw hwn hen => ?_⟩
  · obtain ⟨users, y, si, husers, hy, hfind, hsi⟩ := specInbound_of_row hspec hi hin hien
    refine ⟨si, hfind, ?_⟩
    rw [letsIn_iff site.users.usernames hu husers hsi, hy,
      hasEndpoint_iff htoken hsettings hn hon hmaint hi hin hien hreach]
  · rw [mem_userNodeIds hn, mem_users_iff husers hu]
  · rw [mem_userNodeIds hn, wg_listed_iff hifaces hn hon hw hwn hen]

/-! ### A user with the credential of a chain -/

/-- Nothing is known of the inbounds, and no node has a further address. -/
def noFronts : Fronts := ⟨fun _ => none, fun _ => none, fun _ => [], fun a b => decide (a ≤ b)⟩

/-- The tables of `db`, with one user. -/
def siteOf (db : Db) (u : User) : Site where
  users := ⟨{ db with users := Table.empty.put u }, Table.empty, Table.empty, nodup_singleton _, no_aliases⟩
  settings := .ok []

def limitedAlice : User := ⟨7, "alice", "u", "p", true, 500, 0, none⟩

/-- `alice` has a link to the inbound, and is let in. -/
theorem alice_served : HasEndpoint (loadSubscription (noFronts.reading plainDocuments) plainGate plainEnv 0
      (siteOf limited limitedAlice) 7) 21 ∧ ∃ db' spec si,
        buildNodeSpec plainEnv plainCall.keys (siteOf limited limitedAlice).users.db 1 0 = (db', .ok spec) ∧
        specInbound plainEnv (siteOf limited limitedAlice).users.db 1 spec 21 = some si ∧
        LetsIn plainEnv si limitedAlice := by
  have hlink : HasEndpoint (loadSubscription (noFronts.reading plainDocuments) plainGate plainEnv 0
      (siteOf limited limitedAlice) 7) 21 := ⟨_, _, rfl, by decide +kernel⟩
  obtain ⟨db', spec, hspec⟩ : ∃ db' spec,
    buildNodeSpec plainEnv plainCall.keys (siteOf limited limitedAlice).users.db 1 0 = (db', .ok spec) := ⟨_, _, rfl⟩
  obtain ⟨si, hsi, hiff⟩ := (links_served_iff plainDocuments plainGate plainEnv plainCall.keys 0 noFronts
    (siteOf limited limitedAlice) rfl (mem_singleton_self limitedAlice)
    mem_cons_self rfl rfl (mem_singleton_self _) rfl rfl nofun).1 7 rfl db' spec hspec
  exact ⟨hlink, db', spec, si, hspec, hsi, hiff.mpr (.inl hlink)⟩

/-- An inbound of the other node that is chained to `plainInbound`. -/
def farEntry : Inbound :=
  { plainInbound with
    id := 31
    nodeId := 2
    upstreamInboundId := some 21
    chainUuid := some "u"
    chainPassword := some "p" }

/-- A user that is disabled, and has the name and the credential of the chain. -/
def namesake : User := ⟨7, chainLabel farEntry, "u", "p", false, 0, 0, none⟩

def chainedSite : Site := siteOf { limited with inbounds := (Table.empty.put plainInbound).put farEntry } namesake

/-- The subscription is refused, and the inbound lets the user in. -/
theorem namesake_admitted : (tokenRow plainGate chainedSite.users 7).map (·.user) = some namesake ∧
    ¬ HasEndpoint (loadSubscription (noFronts.reading plainDocuments) plainGate plainEnv 0 chainedSite 7) 21 ∧
    ∃ db' spec si, buildNodeSpec plainEnv plainCall.keys chainedSite.users.db 1 0 = (db', .ok spec) ∧
      specInbound plainEnv chainedSite.users.db 1 spec 21 = some si ∧ LetsIn plainEnv si namesake := by
  refine ⟨rfl, ?_, _, _, _, rfl, rfl, namesake, rfl, ?_⟩
  · rintro ⟨a, endpoints, hload, -⟩
    cases hload
  · exact ⟨_, mem_singleton_self _, rfl, rfl, rfl⟩

end Honey.Master
