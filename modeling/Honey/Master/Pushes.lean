import Honey.Master.Console
import Honey.Master.Caps
import Honey.Master.Push

/-! Which nodes a request changes, and which ones it pushes.

        request --> tables --> the spec of every node
           +------> push_nodes: a few nodes

    A push is missing where the spec of a connected node changes and the node is not among those that the
    handler names. Most requests cannot do that: they change rows that only the nodes they name read. Three
    kinds can, and the conditions under which they do not are exact (`pushed_where_changed_iff`):

        inbounds       are read by the nodes at the other end of a chain      `KeepsChains`
        groups         are read by every node in them                         `KeepsAudience`
        a user's peers are read by nodes that the user has lost access to     `KeepsAddresses`
-/

namespace Honey.Master
open Honey.Schemes List Table Console Prod Except

/-! ### Frames of the statements about users -/

/-- Nothing but one user and its grants is different. -/
structure EditsUser (u : Uuid) (db db' : Db) : Prop extends OnlyUser u db db' where
  wgPeers : db'.wgPeers = db.wgPeers

section Users

variable {env : Env} {keys : Keys} {db db' : Db} {u : Uuid} {t now : ℤ} {s s' : UserDb} {id : Uuid}

theorem EditsUser.trans {db'' : Db} (h : EditsUser u db db') (h' : EditsUser u db' db'') : EditsUser u db db'' where
  users := h'.users.trans h.users
  members := h'.members.trans h.members
  grants := h'.grants.trans h.grants
  nodes := h'.nodes.trans h.nodes
  inbounds := h'.inbounds.trans h.inbounds
  wgInterfaces := h'.wgInterfaces.trans h.wgInterfaces
  services := h'.services.trans h.services
  wgPeers := h'.wgPeers.trans h.wgPeers

/-- A node that the user reaches neither before nor after keeps its spec. -/
theorem EditsUser.spared (h : EditsUser u db db') {n : Node} (hn : n ∈ db.nodes.rows)
    (hbefore : db.users.find? u = none ∨ n.id ∉ userNodeIds db u) (hafter : n.id ∉ userNodeIds db' u) :
    specOf env keys db' n.id t = specOf env keys db n.id t := by
  have hn' : n ∈ db'.nodes.rows := h.nodes ▸ hn
  refine h.toOnlyUser.specOf h.wgPeers (fun v hv hid => ?_) fun v _ _ => ?_
  · rcases hbefore with hnone | hbefore
    · exact absurd (hid ▸ mem_map_of_mem hv) (find?_eq_none.mp hnone)
    · exact Bool.not_eq_true _ ▸ mt (mem_userNodeIds hn).mpr hbefore
  · exact Bool.not_eq_true _ ▸ mt (mem_userNodeIds hn').mpr hafter

theorem editsUser_of {users : Table User.id} {grants : List (Uuid × Uuid)} {traffic : Table TrafficRow.key}
    (husers : users.rows.filter (·.id ≠ u) = db.users.rows.filter (·.id ≠ u))
    (hgrants : grants.filter (·.1 ≠ u) = db.userGroupAccess.filter (·.1 ≠ u)) :
    EditsUser u db { db with users := users, userGroupAccess := grants, traffic := traffic } where
  users := husers
  members := rfl
  grants := hgrants
  nodes := rfl
  inbounds := rfl
  wgInterfaces := rfl
  services := rfl
  wgPeers := rfl

theorem filter_putUser (users : Table User.id) {v : User} (hv : v.id = u) :
    (users.put v).rows.filter (·.id ≠ u) = users.rows.filter (·.id ≠ u) := by
  refine filter_put (fun old hold => ?_) (by simp [hv])
  have hid := (find?_eq_some.mp hold).2
  simp [hid, hv]

theorem editsUser_change {i : Uuid} {f : User → User} (hf : ∀ v, (f v).id = v.id ∧ (f v).username = v.username) :
    EditsUser i s.db (s.changeUser i f hf).db := by
  refine editsUser_of ?_ rfl
  rw [alter, filter_map]
  have hids : ((fun v : User => decide (v.id ≠ i)) ∘ fun v => if v.id = i then f v else v) =
      fun v => decide (v.id ≠ i) := by
    funext v
    rw [Function.comp_apply]
    split
    · rw [(hf v).1]
    · rfl
  rw [hids]
  conv_rhs => rw [← map_id (s.db.users.rows.filter _)]
  refine map_congr_left fun v hv => ?_
  exact if_neg (by simpa using (mem_filter.mp hv).2)

theorem filter_grants {grants added : List (Uuid × Uuid)} (h : ∀ x ∈ added, x.1 = u) :
    (grants ++ added).filter (·.1 ≠ u) = grants.filter (·.1 ≠ u) := by
  have hnone : added.filter (·.1 ≠ u) = [] := filter_eq_nil_iff.mpr (by simpa using h)
  rw [filter_append, hnone, append_nil]

theorem editsUser_groups {known groups : List Uuid} (h : s.setUserGroups known id groups = .ok s') :
    EditsUser id s.db s'.db := by
  rw [UserDb.setUserGroups] at h
  split at h
  · obtain rfl := ok.inj h
    refine editsUser_of rfl ?_
    simp
  · cases h

theorem editsUser_grantDefault (groups : Table NodeGroup.id) : EditsUser id s.db (s.grantDefault groups id).db := by
  refine editsUser_of rfl (filter_grants fun x hx => ?_)
  obtain ⟨g, -, rfl⟩ := mem_map.mp (mem_filter.mp hx).1
  rfl

theorem editsUser_insert {g : Gate} {x : UserDraw} {createdBy : Option Uuid} {input : CreateUserInput}
    (h : insertUser g env now x createdBy input s = .ok s') :
    EditsUser x.id s.db s'.db ∧ s.db.users.find? x.id = none := by
  obtain ⟨v, p, -, hp, rfl, hnew, hv, -⟩ := insertUser_ok h
  exact ⟨editsUser_of (filter_putUser _ hv) rfl, hnew⟩

/-- An edit leaves what specs read as it is, or it is one of a user whose nodes are pushed. -/
theorem Edited.edits {e : Edit} (h : Edited now id s e s') (hdel : e ≠ .delete) :
    s'.db = s.db ∨ EditsUser id s.db s'.db ∧
      ∀ n, n ∉ e.pushes s.db s'.db id → n ∉ userNodeIds s.db id ∧ n ∉ userNodeIds s'.db id := by
  cases h with
  | update password hu hfree =>
    have hid := (find?_eq_some.mp hu).2
    exact .inr ⟨editsUser_of (filter_putUser _ hid) rfl, fun n hn => ⟨hn, hn⟩⟩
  | delete => exact absurd rfl hdel
  | rotate uuid stored =>
    have hchange := editsUser_change (s := s) (i := id) (f := fun u => { u with uuid := uuid, password := stored })
      fun _ => ⟨rfl, rfl⟩
    exact .inr ⟨hchange, fun n hn => ⟨hn, hn⟩⟩
  | reset hu =>
    refine .inr ⟨editsUser_of ?_ rfl, fun n hn => ⟨hn, hn⟩⟩
    simp only [hu]
    exact filter_putUser _ (find?_eq_some.mp hu).2
  | setGroups h => exact .inr ⟨editsUser_groups h, fun n hn => not_or.mp (mt mem_append.mpr hn)⟩
  | rotateSubscription hash token | setAlias hstored | setLabels stored | addSubscription hnew howner
  | deleteSubscription hrow howner => exact .inl rfl

end Users

/-! ### Specs that stay -/

/-- The connected nodes that are not named keep their spec. -/
def SpecsKept (env : Env) (keys : Keys) (t : ℤ) (connected ids : List Uuid) (db db' : Db) : Prop :=
  ∀ n ∈ db.nodes.rows, n.id ∈ connected → n.id ∉ ids → specOf env keys db' n.id t = specOf env keys db n.id t

section Spared

variable {env : Env} {keys : Keys} {t now : ℤ} {connected : List Uuid} {db db' : Db}

theorem kept_of_eq {ids : List Uuid} (h : db' = db) : SpecsKept env keys t connected ids db db' :=
  fun _ _ _ _ => by rw [h]

theorem OnlyNode.kept {node : Uuid} (h : OnlyNode node db db') : SpecsKept env keys t connected [node] db db' :=
  fun _ _ _ hids => h.specOf (by simpa using hids)

theorem EditsUser.kept_new {u : Uuid} (h : EditsUser u db db') (hnew : db.users.find? u = none) :
    SpecsKept env keys t connected (userNodeIds db' u) db db' :=
  fun _ hn _ hids => h.spared hn (.inl hnew) hids

theorem Edited.kept {id : Uuid} {s s' : UserDb} {e : Edit} (h : Edited now id s e s') (hdel : e ≠ .delete) :
    SpecsKept env keys t connected (e.pushes s.db s'.db id) s.db s'.db := by
  rcases h.edits hdel with heq | ⟨hedits, hpushes⟩
  · exact kept_of_eq heq
  · intro n hn _ hids
    exact hedits.spared hn (.inr (hpushes n.id hids).1) (hpushes n.id hids).2

end Spared

/-! ### Where a push may be missing -/

section Conditions

variable (env : Env) (keys : Keys) (t : ℤ) (connected : List Uuid) (db : Db)

/-- An inbound is written or deleted, and the inbounds of other connected nodes show the same of it: the same
    credential at the exit of its chain, the same endpoint where a chain leads to it. -/
def KeepsChains (node id : Uuid) (new : Option Inbound) : Prop :=
  ∀ n ∈ db.nodes.rows, n.id ∈ connected → n.id ≠ node →
    ((specOf env keys db n.id t).isSome ∨ (specOf env keys (db.withInbound id new) n.id t).isSome →
      ∀ x ∈ db.inbounds.rows, x.nodeId = n.id → x.enabled → ShowsSame env db.nodes id (db.inbounds.find? id) new x)

/-- Groups are deleted, and every connected node that serves somebody serves the same users. -/
def KeepsAudience (deleted : List Uuid) : Prop :=
  ∀ n ∈ db.nodes.rows, n.id ∈ connected →
    ((specOf env keys (db.withoutGroups deleted) n.id t).isSome ↔ (specOf env keys db n.id t).isSome) ∧
    ((specOf env keys db n.id t).isSome → db.Serves n.id →
      (db.withoutGroups deleted).activeIds n.id t = db.activeIds n.id t)

/-- A user is deleted, and the peers that it has left to connected nodes without access do not matter. -/
def KeepsAddresses (users : UserDb) (u : Uuid) : Prop :=
  ∀ n ∈ users.db.nodes.rows, n.id ∈ connected → users.db.hasAccess n.id u = false →
    ((specOf env keys (users.deleteUser u).db n.id t).isSome → LeavesIdle env users.db u n.id t)

end Conditions

/-- What a request must not do to the nodes that it does not push. -/
def Change.KeepsOthers (b : Backend) (keys : Keys) (t : ℤ) (connected : List Uuid) (s : Console) : Change → Prop
  | .createInbound id fresh input => ∀ row, (input.stored id fresh).sealed b.env = .ok row →
      KeepsChains b.env keys t connected s.db input.nodeId id (some row)
  | .updateInbound id fresh input => ∀ stored row, s.db.inbounds.find? id = some stored →
      input.sealedRow b.env fresh stored = .ok row →
      KeepsChains b.env keys t connected s.db stored.nodeId id (some row)
  | .revertInbound id version fresh => ∀ snapshot update stored row,
      loadVersion s.versions version "inbound" id = .ok snapshot → UpdateInbound.fromValue snapshot = .ok update →
      s.db.inbounds.find? id = some stored → update.sealedRow b.env fresh stored = .ok row →
      KeepsChains b.env keys t connected s.db stored.nodeId id (some row)
  | .deleteInbound id => ∀ stored, s.db.inbounds.find? id = some stored →
      KeepsChains b.env keys t connected s.db stored.nodeId id none
  | .deleteGroup id => KeepsAudience b.env keys t connected s.db [id]
  | .configApply doc => KeepsAudience b.env keys t connected s.db
      (Removal.groups b.texts s.groupDb
        (.apply doc (prunedGroups b.texts (listNodeGroups b.texts s.groupDb) doc).length))
  | .editUser _ id .delete => KeepsAddresses b.env keys t connected s.users id
  | .gdprErase id => KeepsAddresses b.env keys t connected s.users id
  | _ => True

section Exact

variable {b : Backend} {keys : Keys} {t now : ℤ} {connected ids : List Uuid} {db : Db} {s s' : Console} {a : Actor}

variable {node id : Uuid} {fresh : String × String}

theorem kept_inbound_iff {env : Env} {new : Option Inbound} (hnew : ∀ row ∈ new, row.id = id ∧ row.nodeId = node)
    (hold : ∀ row ∈ db.inbounds.find? id, row.nodeId = node) :
    SpecsKept env keys t connected [node] db (db.withInbound id new) ↔
      KeepsChains env keys t connected db node id new := by
  refine forall₃_congr fun n _ _ => ?_
  rw [mem_singleton]
  refine imp_congr_right fun hne => specOf_withInbound (fun row hrow => ?_) fun row hrow => ?_
  · exact ⟨(hnew row hrow).1, fun heq => hne (heq.symm.trans (hnew row hrow).2)⟩
  · exact fun heq => hne (heq.symm.trans (hold row hrow))

theorem onlyUser_delete (users : UserDb) (u : Uuid) : OnlyUser u users.db (users.deleteUser u).db where
  users := by
    show (users.db.users.rows.filter _).filter _ = _
    simp
  members := rfl
  grants := by
    show (users.db.userGroupAccess.filter _).filter _ = _
    simp
  nodes := rfl
  inbounds := rfl
  wgInterfaces := rfl
  services := rfl

theorem kept_delete_iff {env : Env} (users : UserDb) (u : Uuid) :
    SpecsKept env keys t connected (userNodeIds users.db u) users.db (users.deleteUser u).db ↔
      KeepsAddresses env keys t connected users u := by
  refine forall₃_congr fun n hn _ => ?_
  rw [mem_userNodeIds hn, Bool.not_eq_true]
  refine imp_congr_right fun hno => (onlyUser_delete users u).specOf_without rfl (fun _ _ _ => hno) fun v hv hid => ?_
  have hgone := (mem_filter.mp hv).2
  simp [hid] at hgone

theorem kept_groups_iff (users : UserDb) (deleted : List Uuid) :
    SpecsKept b.env keys t connected [] users.db (users.db.withoutGroups deleted) ↔
      KeepsAudience b.env keys t connected users.db deleted := by
  refine forall₃_congr fun n _ _ => ?_
  rw [forall_prop_of_true not_mem_nil]
  exact specOf_withoutGroups b.collates users.usernames

theorem kept_replaced_iff {input : UpdateInbound} {stored row : Inbound}
    (hstored : s.db.inbounds.find? id = some stored) (hrow : input.sealedRow b.env fresh stored = .ok row)
    (h : s.putInbound row = .ok (s', ids)) : SpecsKept b.env keys t connected ids s.db s'.db ↔
      KeepsChains b.env keys t connected s.db stored.nodeId id (some row) := by
  obtain ⟨-, rfl, rfl⟩ := putInbound_eq_ok.mp h
  obtain ⟨hid, hnode⟩ : row.id = id ∧ row.nodeId = stored.nodeId := by
    obtain ⟨_, _, _, rfl⟩ := sealedRow_eq hrow
    exact ⟨(find?_eq_some.mp hstored).2, rfl⟩
  have hdb : (s.withDb (s.db.withInbound row.id (some row)) rfl).db = s.db.withInbound id (some row) := by
    rfl
  rw [hdb, hnode]
  refine kept_inbound_iff (fun x hx => ?_) fun x hx => ?_
  · obtain rfl := Option.some.inj hx
    exact ⟨hid, hnode⟩
  · rw [Option.some.inj (hx.symm.trans hstored)]

theorem createInbound_kept_iff {input : NewInbound} (h : s.createInbound b id fresh input = .ok (s', ids)) :
    SpecsKept b.env keys t connected ids s.db s'.db ↔
      Change.KeepsOthers b keys t connected s (.createInbound id fresh input) := by
  obtain ⟨-, -, hnew, row, hrow, h⟩ := createInbound_eq_ok.mp h
  obtain ⟨-, rfl, rfl⟩ := putInbound_eq_ok.mp h
  have hiff : SpecsKept b.env keys t connected [row.nodeId] s.db (s.db.withInbound row.id (some row)) ↔
      KeepsChains b.env keys t connected s.db input.nodeId id (some row) := by
    obtain ⟨_, _, rfl⟩ := sealed_eq hrow
    refine kept_inbound_iff (fun x hx => ?_) fun x hx => ?_
    · obtain rfl := Option.some.inj hx
      exact ⟨rfl, rfl⟩
    · cases hnew.symm.trans hx
  refine hiff.trans ⟨fun hkeeps row' hrow' => ?_, fun hkeeps => hkeeps row hrow⟩
  rwa [← ok.inj (hrow.symm.trans hrow')]

theorem updateInbound_kept_iff {input : UpdateInbound} (h : s.updateInbound b id fresh input = .ok (s', ids)) :
    SpecsKept b.env keys t connected ids s.db s'.db ↔
      Change.KeepsOthers b keys t connected s (.updateInbound id fresh input) := by
  obtain ⟨-, stored, current, row, hstored, -, -, hrow, h⟩ := updateInbound_eq_ok.mp h
  rw [kept_replaced_iff hstored hrow h]
  constructor
  · intro hkeeps stored' row' hstored' hrow'
    obtain rfl := Option.some.inj (hstored.symm.trans hstored')
    rwa [← ok.inj (hrow.symm.trans hrow')]
  · exact fun hkeeps => hkeeps stored row hstored hrow

theorem revertInbound_kept_iff {version : ℕ} (h : s.revertInbound b id version fresh = .ok (s', ids)) :
    SpecsKept b.env keys t connected ids s.db s'.db ↔
      Change.KeepsOthers b keys t connected s (.revertInbound id version fresh) := by
  simp only [Console.revertInbound, bind_eq_ok, answered_eq_ok, revertable_eq_ok, orMissing_eq_ok, pure_eq_ok] at h
  obtain ⟨snapshot, hsnapshot, update, hupdate, stored, hstored, row, hrow, answer, hput, -, -, rfl⟩ := h
  rw [kept_replaced_iff hstored hrow hput]
  constructor
  · intro hkeeps snapshot' update' stored' row' hsnapshot' hupdate' hstored' hrow'
    obtain rfl := ok.inj (hsnapshot.symm.trans hsnapshot')
    obtain rfl := ok.inj (hupdate.symm.trans hupdate')
    obtain rfl := Option.some.inj (hstored.symm.trans hstored')
    rwa [← ok.inj (hrow.symm.trans hrow')]
  · exact fun hkeeps => hkeeps snapshot update stored row hsnapshot hupdate hstored hrow

theorem deleteInbound_kept_iff (h : s.deleteInbound b id = .ok (s', ids)) :
    SpecsKept b.env keys t connected ids s.db s'.db ↔ Change.KeepsOthers b keys t connected s (.deleteInbound id) := by
  obtain ⟨stored, hstored, hdb, rfl⟩ := deleteInbound_ok h
  have hiff : SpecsKept b.env keys t connected [stored.nodeId] s.db s'.db ↔
      KeepsChains b.env keys t connected s.db stored.nodeId id none := by
    rw [hdb]
    refine kept_inbound_iff (by simp) fun x hx => ?_
    rw [Option.some.inj (hx.symm.trans hstored)]
  refine hiff.trans ⟨fun hkeeps stored' hstored' => ?_, fun hkeeps => hkeeps stored hstored⟩
  rwa [← Option.some.inj (hstored.symm.trans hstored')]

/-! ### Groups, users and rows of one node -/

theorem without_db (r : Removal) : (s.without b r).db = s.db.withoutGroups (r.groups b.texts s.groupDb) :=
  run_db b.texts s.groupDb r

theorem deleteGroup_kept_iff (h : s.deleteGroup b id = .ok (s', ids)) :
    SpecsKept b.env keys t connected ids s.db s'.db ↔ Change.KeepsOthers b keys t connected s (.deleteGroup id) := by
  obtain ⟨_, hdelete, h⟩ := bind_eq_ok.mp h
  obtain ⟨rfl, rfl⟩ := mk.inj (ok.inj h)
  rw [Honey.Master.deleteGroup] at hdelete
  split at hdelete
  · rename_i hthere
    have hdb : (s.without b (.api id)).db = s.db.withoutGroups [id] := by
      rw [without_db, Removal.groups, if_pos hthere]
    rw [hdb]
    exact kept_groups_iff s.users [id]
  · cases hdelete

theorem configApply_kept_iff {doc : ConfigDoc} (h : s.configApply b doc = .ok (s', ids)) :
    SpecsKept b.env keys t connected ids s.db s'.db ↔ Change.KeepsOthers b keys t connected s (.configApply doc) := by
  have hanswer : (s', ids) = (s.without b (.apply doc
      (prunedGroups b.texts (listNodeGroups b.texts s.groupDb) doc).length), []) := by
    rw [configApply] at h
    split at h
    · obtain ⟨_, -, h⟩ := bind_eq_ok.mp h
      exact (ok.inj h).symm
    · exact (ok.inj h).symm
  obtain ⟨rfl, rfl⟩ := mk.inj hanswer
  rw [without_db]
  exact kept_groups_iff s.users _

theorem onlyNode_of {members : List (Uuid × Uuid)} {ifaces : Table WgInterface.id} {peers : Peers}
    {services : Table NodeService.id}
    (hmembers : members.filter (·.1 ≠ node) = db.nodeGroupMembers.filter (·.1 ≠ node))
    (hifaces : ifaces.rows.filter (·.nodeId ≠ node) = db.wgInterfaces.rows.filter (·.nodeId ≠ node))
    (hpeers : ∀ i ∈ db.wgInterfaces.rows, i.nodeId ≠ node → peersAt peers i.id = peersAt db.wgPeers i.id)
    (hservices : services.rows.filter (·.nodeId ≠ node) = db.services.rows.filter (·.nodeId ≠ node)) :
    OnlyNode node db { db with
      nodeGroupMembers := members, wgInterfaces := ifaces, wgPeers := peers, services := services } where
  users := rfl
  grants := rfl
  nodes := rfl
  inbounds := rfl
  members := hmembers
  wgInterfaces := hifaces
  services := hservices
  peers := hpeers

theorem setNodeGroups_kept {groups : List Uuid} (h : s.setNodeGroups id groups = .ok (s', ids)) :
    SpecsKept b.env keys t connected ids s.db s'.db := by
  simp only [setNodeGroups, guard_eq_ok] at h
  obtain ⟨-, -, rfl, rfl⟩ := h
  refine (onlyNode_of ?_ rfl (fun _ _ _ => rfl) rfl).kept
  simp

theorem createForReseller_ok {m : Market} {x : UserDraw} {input : CreateUserInput} {users users' : UserDb}
    (h : createForReseller m now x input users = (users', .ok ())) : ∃ inserted,
      insertUser m.gate m.env now x (some m.account.id) input users = .ok inserted ∧
        inserted.setUserGroups m.known x.id m.entitled = .ok users' := by
  rw [createForReseller] at h
  split at h
  · cases h
  rename_i inserted hchecks
  split at h
  · cases h
  rename_i hgroups
  obtain rfl := (mk.inj h).1
  simp only [bind_eq_ok] at hchecks
  obtain ⟨_, -, _, -, _, -, _, -, _, -, hinsert⟩ := hchecks
  exact ⟨inserted, hinsert, hgroups⟩

theorem createUser_kept {x : UserDraw} {input : CreateUserInput}
    (h : s.createUser b a now x input = .ok (s', ids)) : SpecsKept b.env keys t connected ids s.db s'.db := by
  obtain ⟨_, -, h⟩ := bind_eq_ok.mp h
  dsimp only at h
  split at h
  · split at h
    · cases h
    · split at h
      · cases h
      · split at h
        · cases h
        · rename_i hcreate
          obtain ⟨rfl, rfl⟩ := mk.inj (ok.inj h)
          obtain ⟨inserted, hinsert, hgroups⟩ := createForReseller_ok hcreate
          obtain ⟨hedits, hnew⟩ := editsUser_insert hinsert
          exact (hedits.trans (editsUser_groups hgroups)).kept_new hnew
  · obtain ⟨users, hinsert, h⟩ := bind_eq_ok.mp h
    obtain ⟨rfl, rfl⟩ := mk.inj (ok.inj h)
    obtain ⟨hedits, hnew⟩ := editsUser_insert hinsert
    exact (hedits.trans (editsUser_grantDefault s.groups)).kept_new hnew

theorem editUser_kept_iff {x : EditDraw} {e : Edit} (h : s.editUser b a now x id e = .ok (s', ids)) :
    SpecsKept b.env keys t connected ids s.db s'.db ↔ Change.KeepsOthers b keys t connected s (.editUser x id e) := by
  simp only [editUser, bind_eq_ok] at h
  obtain ⟨_, -, _, -, users, hrun, rfl, rfl⟩ := h
  have hedited : Edited now id s.users e users := by
    unfold runEdit at hrun
    split at hrun
    · exact .setGroups hrun
    · exact run_edited hrun
  cases e
  case delete =>
    cases hedited
    exact kept_delete_iff s.users id
  all_goals exact iff_of_true (hedited.kept (by simp)) trivial

theorem revertUser_kept {version : ℕ} (h : s.revertUser b a now id version = .ok (s', ids)) :
    SpecsKept b.env keys t connected ids s.db s'.db := by
  simp only [revertUser, bind_eq_ok, userFound_eq_ok] at h
  obtain ⟨_, -, snapshot, -, update, -, _, hupdate, users, rfl, rfl, rfl⟩ := h
  exact (updateUserRow_ok hupdate).kept (by simp)

theorem gdprErase_kept_iff (h : s.gdprErase b a id = .ok (s', ids)) :
    SpecsKept b.env keys t connected ids s.db s'.db ↔ Change.KeepsOthers b keys t connected s (.gdprErase id) := by
  obtain ⟨_, -, h⟩ := bind_eq_ok.mp h
  obtain ⟨rfl, rfl⟩ := mk.inj (ok.inj h)
  exact kept_delete_iff s.users id

theorem importUser_spec (b : Backend) (a : Actor) (now : ℤ) (s : Console) (users : UserDb)
    (entry : ImportUser × ImportDraw) :
    ((importUser b a now s users entry).2 = false → (importUser b a now s users entry).1 = users) ∧
      (importUser b a now s users entry).1.db.nodes = users.db.nodes := by
  rw [importUser]
  split
  · exact ⟨fun _ => rfl, rfl⟩
  split
  · exact ⟨fun _ => rfl, rfl⟩
  split
  · exact ⟨fun _ => rfl, rfl⟩
  split
  · exact ⟨fun _ => rfl, rfl⟩
  rename_i hinsert
  refine ⟨by simp, ?_⟩
  obtain ⟨hedits, -⟩ := editsUser_insert hinsert
  split
  · exact hedits.nodes
  · exact hedits.nodes

theorem importAll_spec (b : Backend) (a : Actor) (now : ℤ) (s : Console) (input : List (ImportUser × ImportDraw)) :
    ∀ acc : UserDb × Bool, ((input.foldl (importAll b a now s) acc).2 = false →
      acc.2 = false ∧ (input.foldl (importAll b a now s) acc).1 = acc.1) ∧
    (input.foldl (importAll b a now s) acc).1.db.nodes = acc.1.db.nodes := by
  induction input with
  | nil => exact fun acc => ⟨fun h => ⟨h, rfl⟩, rfl⟩
  | cons entry input ih =>
    intro acc
    obtain ⟨hsame, hkept⟩ := importUser_spec b a now s acc.1 entry
    obtain ⟨hrest, hnodes⟩ := ih (importAll b a now s acc entry)
    have husers : (importAll b a now s acc entry).1 = (importUser b a now s acc.1 entry).1 := rfl
    rw [foldl_cons]
    refine ⟨fun h => ?_, by rw [hnodes, husers, hkept]⟩
    obtain ⟨hmade, heq⟩ := hrest h
    obtain ⟨hacc, hentry⟩ := Bool.or_eq_false_iff.mp hmade
    exact ⟨hacc, by rw [heq, husers, hsame hentry]⟩

theorem importUsers_kept {input : List (ImportUser × ImportDraw)} (h : s.importUsers b a now input = .ok (s', ids)) :
    SpecsKept b.env keys t connected ids s.db s'.db := by
  obtain ⟨rfl, rfl⟩ := mk.inj (ok.inj h)
  obtain ⟨hsame, hnodes⟩ := importAll_spec b a now s input _
  rcases hmade : (input.foldl (importAll b a now s) (s.users, false)).2 with _ | _
  · exact kept_of_eq (congrArg UserDb.db (hsame hmade).2)
  intro n hn _ hids
  rw [hnodes] at hids
  exact absurd (mem_map_of_mem hn) hids

theorem createWg_kept {x : WgDraw} {input : NewWgInterface} (h : s.createWg b now x node input = .ok (s', ids)) :
    SpecsKept b.env keys t connected ids s.db s'.db := by
  simp only [createWg, guard_eq_ok, bind_eq_ok] at h
  obtain ⟨-, -, _, -, -, key, -, hfree, rfl, rfl⟩ := h
  refine (onlyNode_of rfl (filter_put (fun old hold => ?_) ?_) (fun _ _ _ => rfl) rfl).kept
  · exact absurd (.inl (Option.isSome_iff_exists.mpr ⟨old, hold⟩)) hfree
  · simp [NewWgInterface.row]

theorem updateWg_kept {input : UpdateWgInterface} (h : s.updateWg b id input = .ok (s', ids)) :
    SpecsKept b.env keys t connected ids s.db s'.db := by
  simp only [updateWg, guard_eq_ok, bind_eq_ok, orMissing_eq_ok] at h
  obtain ⟨old, hold, -, _, -, rfl, rfl⟩ := h
  obtain ⟨-, rfl⟩ := find?_eq_some.mp hold
  refine (onlyNode_of rfl (filter_put (r := input.apply old) (forall_found hold ?_) ?_) (fun _ _ _ => rfl) rfl).kept
  · simp
  · simp [UpdateWgInterface.apply]

theorem deleteWg_kept (h : s.deleteWg b id = .ok (s', ids)) : SpecsKept b.env keys t connected ids s.db s'.db := by
  simp only [deleteWg, bind_eq_ok, orMissing_eq_ok] at h
  obtain ⟨old, hold, _, -, rfl, rfl⟩ := h
  refine (onlyNode_of rfl (filter_keep_ne (forall_found hold (by simp))) (fun i hi hnode => ?_) rfl).kept
  have hne : i.id ≠ id := by
    intro hid
    rw [Option.some.inj (hold.symm.trans (find?_eq_some.mpr ⟨hi, hid⟩))] at hnode
    exact hnode rfl
  rw [peersAt, keep, filter_filter]
  refine filter_congr fun p _ => ?_
  by_cases hp : p.interfaceId = i.id
  · simp [hp, hne]
  · simp [hp]

theorem createService_kept {x : ServiceDraw} {input : NewNodeService}
    (h : s.createService b now x node input = .ok (s', ids)) : SpecsKept b.env keys t connected ids s.db s'.db := by
  simp only [createService, guard_eq_ok, bind_eq_ok] at h
  obtain ⟨-, -, -, _, -, -, secret, -, hfree, rfl, rfl⟩ := h
  refine (onlyNode_of rfl rfl (fun _ _ _ => rfl) (filter_put (fun old hold => ?_) (by simp))).kept
  exact absurd (.inl (Option.isSome_iff_exists.mpr ⟨old, hold⟩)) hfree

theorem updateService_kept {input : UpdateNodeService} (h : s.updateService b id input = .ok (s', ids)) :
    SpecsKept b.env keys t connected ids s.db s'.db := by
  simp only [updateService, guard_eq_ok, bind_eq_ok, orMissing_eq_ok] at h
  obtain ⟨_, -, -, old, hold, -, _, -, rfl, rfl⟩ := h
  obtain ⟨-, rfl⟩ := find?_eq_some.mp hold
  refine (onlyNode_of rfl rfl (fun _ _ _ => rfl) (filter_put (r := input.apply old) (forall_found hold ?_) ?_)).kept
  · simp
  · simp [UpdateNodeService.apply]

theorem deleteService_kept (h : s.deleteService b id = .ok (s', ids)) :
    SpecsKept b.env keys t connected ids s.db s'.db := by
  simp only [deleteService, bind_eq_ok, orMissing_eq_ok] at h
  obtain ⟨old, hold, _, -, rfl, rfl⟩ := h
  exact (onlyNode_of rfl rfl (fun _ _ _ => rfl) (filter_keep_ne (forall_found hold (by simp)))).kept

theorem createGroup_db {input : NewNodeGroup} (h : s.createGroup input = .ok (s', ids)) : s'.db = s.db := by
  simp only [createGroup, guard_eq_ok, bind_eq_ok] at h
  obtain ⟨-, g, -, rfl, -⟩ := h
  rfl

theorem updateGroup_db {name note : Option String} (h : s.updateGroup id name note = .ok (s', ids)) : s'.db = s.db := by
  obtain ⟨cur, -, h⟩ := bind_eq_ok.mp h
  obtain ⟨g, -, h⟩ := bind_eq_ok.mp h
  obtain ⟨rfl, -⟩ := mk.inj (ok.inj h)
  rfl

theorem setQuotaInterval_db {interval : String} (h : s.setQuotaInterval now id interval = .ok (s', ids)) :
    s'.db = s.db := by
  simp only [setQuotaInterval, guard_eq_ok, bind_eq_ok] at h
  obtain ⟨-, _, -, rfl, -⟩ := h
  rfl

theorem assignProfile_db {profile : Option Uuid} (h : s.assignProfile now id profile = .ok (s', ids)) :
    s'.db = s.db := by
  simp only [assignProfile, guard_eq_ok, bind_eq_ok] at h
  obtain ⟨-, _, -, rfl, -⟩ := h
  rfl

/-! ### Every request -/

/-- The nodes that are not named keep their specs exactly under the condition of the request. -/
theorem kept_iff {c : Change} (h : s.handle b a now c = .ok (s', ids)) :
    SpecsKept b.env keys t connected ids s.db s'.db ↔ c.KeepsOthers b keys t connected s := by
  cases c with
  | createInbound id fresh input => exact createInbound_kept_iff h
  | updateInbound id fresh input => exact updateInbound_kept_iff h
  | revertInbound id version fresh => exact revertInbound_kept_iff h
  | deleteInbound id => exact deleteInbound_kept_iff h
  | deleteGroup id => exact deleteGroup_kept_iff h
  | configApply doc => exact configApply_kept_iff h
  | editUser x id e => exact editUser_kept_iff h
  | gdprErase id => exact gdprErase_kept_iff h
  | createGroup input => exact iff_of_true (kept_of_eq (createGroup_db h)) trivial
  | updateGroup id name note => exact iff_of_true (kept_of_eq (updateGroup_db h)) trivial
  | setQuotaInterval id interval => exact iff_of_true (kept_of_eq (setQuotaInterval_db h)) trivial
  | assignProfile id profile => exact iff_of_true (kept_of_eq (assignProfile_db h)) trivial
  | setNodeGroups id groups => exact iff_of_true (setNodeGroups_kept h) trivial
  | createUser x input => exact iff_of_true (createUser_kept h) trivial
  | revertUser id version => exact iff_of_true (revertUser_kept h) trivial
  | importUsers input => exact iff_of_true (importUsers_kept h) trivial
  | createWg x node input => exact iff_of_true (createWg_kept h) trivial
  | updateWg id input => exact iff_of_true (updateWg_kept h) trivial
  | deleteWg id => exact iff_of_true (deleteWg_kept h) trivial
  | createService x node input => exact iff_of_true (createService_kept h) trivial
  | updateService id input => exact iff_of_true (updateService_kept h) trivial
  | deleteService id => exact iff_of_true (deleteService_kept h) trivial

end Exact

theorem mem_pushNodes {settings : List (String × String)} {connected ids : List Uuid} {m : Uuid}
    (hauto : settingInt settings "auto_push_enabled" 1 ≠ 0) (hconnected : m ∈ connected) :
    m ∈ pushNodes settings connected ids ↔ m ∈ ids := by
  simp [pushNodes, hauto, hconnected]

/-- With pushes switched on, every request that is accepted, in every state, schedules a push for each connected
    node whose spec it changes exactly if it keeps what the other nodes read. -/
theorem pushed_where_changed_iff (b : Backend) (keys : Keys) (t now : ℤ) (a : Actor)
    (settings : List (String × String)) (connected : List Uuid) {s s' : Console} {c : Change} {ids : List Uuid}
    (hauto : settingInt settings "auto_push_enabled" 1 ≠ 0) (h : s.handle b a now c = .ok (s', ids)) :
    (∀ n ∈ s.db.nodes.rows, n.id ∈ connected →
      specOf b.env keys s'.db n.id t ≠ specOf b.env keys s.db n.id t → n.id ∈ pushNodes settings connected ids) ↔
      c.KeepsOthers b keys t connected s := by
  rw [← kept_iff h]
  refine forall₃_congr fun n _ hconnected => ?_
  rw [mem_pushNodes hauto hconnected]
  exact not_imp_comm

/-! ### A chain that is cut, a group that is deleted -/

theorem plainEnv_collates : plainEnv.Collates where
  total a b := by simpa [plainEnv] using le_total a b
  trans a b c hab hbc := by simpa [plainEnv] using le_trans (of_decide_eq_true hab) (of_decide_eq_true hbc)
  antisymm a b hab hba := le_antisymm (of_decide_eq_true hab) (of_decide_eq_true hba)

/-- Secrets in the clear, names in the order of their characters. -/
def plainBackend : Backend where
  gate := plainGate
  env := plainEnv
  texts := ⟨id, fun a b => decide (a ≤ b)⟩
  readTime := fun _ => none
  fromTimestamp := fun _ => none
  collates := plainEnv_collates

/-- No interface is served. -/
def noKeys : Keys := fun _ _ => .error "no keys"

def ownerActor : Actor := ⟨.legacy, none, []⟩

/-- An inbound of node 1 leaves through one of node 2, which is in a group without users; another stands alone. -/
def linkedDb : Db :=
  { twoNodes with
    nodeGroupMembers := [(2, 3)]
    inbounds := ((Table.empty.put { plainInbound with
      upstreamInboundId := some 22, chainUuid := some "c", chainPassword := some "s" }).put
        { plainInbound with id := 22, nodeId := 2, tag := "out" }).put { plainInbound with id := 23, tag := "alone" } }

def linked : Console where
  users := { noUsers with db := linkedDb, usernames := nodup_singleton _ }
  groups := Table.empty.put ⟨3, "vip", false, ""⟩
  versions := []
  routingProfiles := []

/-- With both nodes connected, deleting the inbound that stands alone pushes all that it changes. -/
theorem alone_deleted_pushed : ∃ s' ids, linked.handle plainBackend ownerActor 0 (.deleteInbound 23) = .ok (s', ids) ∧
    ∀ n ∈ linked.db.nodes.rows, n.id ∈ [(1 : Uuid), 2] →
      specOf plainEnv noKeys s'.db n.id 0 ≠ specOf plainEnv noKeys linked.db n.id 0 →
        n.id ∈ pushNodes [] [1, 2] ids := by
  refine ⟨_, _, rfl, ?_⟩
  refine (pushed_where_changed_iff (c := .deleteInbound 23) plainBackend noKeys 0 0 ownerActor [] [1, 2] (by decide)
    rfl).mpr ?_
  intro stored hstored n _ _ hne _ x hx hnode _
  obtain rfl := Option.some.inj hstored
  have hrows : ∀ x ∈ linked.db.inbounds.rows, x.nodeId ≠ 1 → x.id = 22 ∧ x.upstreamInboundId = none := by decide
  obtain ⟨hid, hup⟩ := hrows x hx (hnode ▸ hne)
  refine ⟨by rw [hid]; rfl, fun h => ?_⟩
  cases hup.symm.trans h

/-- The entry of a chain is deleted, and its exit on node 2 keeps the credential; a group is deleted, and node 2
    is not told of the users that it is open to. Both requests are accepted and change the spec of node 2, and
    neither pushes it. -/
theorem exit_not_pushed : settingInt [] "auto_push_enabled" 1 ≠ 0 ∧
    ∀ c ∈ [Change.deleteInbound 21, .deleteGroup 3], ∃ s' ids,
      linked.handle plainBackend ownerActor 0 c = .ok (s', ids) ∧ ¬ ∀ n ∈ linked.db.nodes.rows, n.id ∈ [(1 : Uuid), 2] →
        specOf plainEnv noKeys s'.db n.id 0 ≠ specOf plainEnv noKeys linked.db n.id 0 →
          n.id ∈ pushNodes [] [1, 2] ids := by
  refine ⟨by decide, fun c hc => ?_⟩
  rcases mem_cons.mp hc with rfl | hc
  · refine ⟨_, _, rfl, ?_⟩
    decide +kernel
  · obtain rfl := mem_singleton.mp hc
    refine ⟨_, _, rfl, ?_⟩
    decide +kernel

end Honey.Master
