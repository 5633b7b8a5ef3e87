import Honey.Master.Restrict
import Honey.Master.Scope

/-! What a reseller sees and changes of users that are not its own.

        p --- request --> reply, p'
        | own rows           ║
        v                    ║ the same, but for the list of live connections
        p₀ -- request --> reply

    A reply depends on the reseller's own rows only, since every handler looks rows up under an owned id or filters them
    by their creator. Only `collect_live_connections` opens the credentials of every user, and fails if one of them does
    not open. -/

namespace Honey.Master
open Honey.Schemes List Table UserDb Except

/-! ### The rows of a reseller -/

namespace UserDb

variable (s : UserDb) (r : Uuid)

/-- The id of a user that the reseller owns. -/
def mine (id : Uuid) : Bool := (s.db.users.find? id).any (s.owns r)

/-- The id of a user that somebody else owns. -/
def foreign (id : Uuid) : Bool := (s.db.users.find? id).any fun u => !s.owns r u

/-- The rows about the reseller's users. -/
def own : UserDb := s.only (s.mine r)

variable {s r}

theorem mine_of_mem {u : User} (hu : u ∈ s.db.users.rows) : s.mine r u.id = s.owns r u := by
  rw [mine, find?_eq_some.mpr ⟨hu, rfl⟩, Option.any_some]

theorem owns_own {u : User} (hu : s.mine r u.id) : (s.own r).owns r u = s.owns r u := by
  rw [owns, own, profile_only hu, ← owns]

theorem owned_own : (s.own r).db.users.rows.filter ((s.own r).owns r) = s.db.users.rows.filter (s.owns r) := by
  refine filter_filter.trans (filter_congr fun u hu => ?_)
  rw [mine_of_mem hu]
  by_cases h : s.owns r u
  · rw [owns_own (by rw [mine_of_mem hu, h])]
    simp
  · simp [h]

theorem profile_own {u : User} (hu : u ∈ s.db.users.rows.filter (s.owns r)) :
    (s.own r).profile u.id = s.profile u.id := by
  obtain ⟨hmem, howns⟩ := mem_filter.mp hu
  exact profile_only (by rw [mine_of_mem hmem, howns])

end UserDb

section

variable {env : Env} {r id : Uuid} {s : UserDb}

/-! ### Lookups -/

theorem getUser_own (h : ¬ s.foreign r id) : getUser env (s.own r) id = getUser env s id := by
  cases hu : s.db.users.find? id with
  | none => rw [getUser, getUser, own, find?_only, hu]; rfl
  | some u =>
    rw [foreign, hu, Option.any_some, Bool.not_eq_true, Bool.not_eq_false'] at h
    exact getUser_only env (by rw [mine, hu, Option.any_some, h])

theorem ownedUser_own (h : ¬ s.foreign r id) : ownedUser env r (s.own r) id = ownedUser env r s id := by
  rw [ownedUser, ownedUser, getUser_own h]

theorem open_profile {a b : Subscriber} (h : env.open a = .ok b) :
    b.profile = a.profile ∧ b.user.id = a.user.id ∧ b.user.username = a.user.username := by
  obtain ⟨u, hu, rfl⟩ := map_eq_ok.mp h
  rcases hd : env.decryptUser a.user with e | v
  · simp [hd, opened] at hu
  simp only [hd, opened, ok.injEq] at hu
  subst hu
  obtain ⟨password, -, hd⟩ := bind_eq_ok.mp hd
  obtain ⟨uuid, -, hd⟩ := bind_eq_ok.mp hd
  obtain rfl := ok.inj hd
  exact ⟨rfl, rfl, rfl⟩

theorem mine_of_ownedUser {a : Subscriber} (h : ownedUser env r s id = .ok a) : s.mine r id := by
  obtain ⟨o, ho, h⟩ := bind_eq_ok.mp h
  obtain ⟨b, hb, hcheck⟩ := bind_eq_ok.mp h
  obtain rfl := userFound_eq_ok.mp hb
  split at hcheck
  · rename_i hcreator
    rcases hu : s.db.users.find? id with _ | u
    · simp [getUser, hu, Env.openOption] at ho
    obtain ⟨c, hc, hcb⟩ := map_eq_ok.mp (show (env.open (s.row u)).map some = .ok (some b) by
      simpa [getUser, hu, Env.openOption] using ho)
    obtain rfl := Option.some.inj hcb
    rw [mine, hu, Option.any_some, owns, decide_eq_true_iff]
    rw [(open_profile hc).1] at hcreator
    exact hcreator
  · cases hcheck

/-! ### Lists and sums -/

theorem listUsers_own : listUsers env (s.own r) ((s.own r).owns r) = listUsers env s (s.owns r) := by
  have hrow : ∀ (l : List User) (t : UserDb), (l.mapM fun u => env.open (t.row u)) = (l.map t.row).mapM env.open := by
    intro l t
    rw [List.mapM_map]
    rfl
  rw [listUsers, listUsers, owned_own, hrow, hrow]
  congr 1
  refine map_congr_left fun u hu => ?_
  rw [row, row, profile_own ((mem_insertionSort _).mp hu)]

theorem count_own : countUsersForCreator (s.own r) r = countUsersForCreator s r := by
  rw [countUsersForCreator, countUsersForCreator, owned_own]

theorem trafficUsed_own : resellerTrafficUsed (s.own r) r = resellerTrafficUsed s r := by
  have hkeep : (s.own r).db.users.keep ((s.own r).owns r) = s.db.users.keep (s.owns r) := ext owned_own
  rw [resellerTrafficUsed, resellerTrafficUsed, ← total_keep, ← total_keep, hkeep]

theorem userLabels_own (t : Texts) : userLabels t (s.own r) r = userLabels t s r := by
  rw [userLabels, owned_own]
  congr 2
  refine flatMap_congr fun u hu => ?_
  rw [profile_own hu]

theorem onboarding_own : onboarding (s.own r) r = onboarding s r := by
  have hshared : ((s.own r).db.users.rows.filter fun u =>
      (s.own r).owns r u && ((s.own r).profile u.id).subscriptionTokenEnc.isSome) =
      s.db.users.rows.filter fun u => s.owns r u && (s.profile u.id).subscriptionTokenEnc.isSome := by
    have hsplit : ∀ t : UserDb, (t.db.users.rows.filter fun u =>
        t.owns r u && (t.profile u.id).subscriptionTokenEnc.isSome) =
        (t.db.users.rows.filter (t.owns r)).filter fun u => (t.profile u.id).subscriptionTokenEnc.isSome := by
      intro t
      rw [filter_filter]
      exact filter_congr fun u _ => Bool.and_comm _ _
    rw [hsplit, hsplit, owned_own]
    refine filter_congr fun u hu => ?_
    rw [profile_own hu]
  rw [onboarding, onboarding, hshared, count_own]

theorem find?_owned_own (id : Uuid) :
    ((s.own r).db.users.find? id).filter ((s.own r).owns r) = (s.db.users.find? id).filter (s.owns r) := by
  rw [own, find?_only]
  rcases hu : s.db.users.find? id with _ | u
  · rfl
  obtain ⟨hmem, rfl⟩ := find?_eq_some.mp hu
  by_cases h : s.owns r u
  · have hm : s.mine r u.id := by rw [mine_of_mem hmem, h]
    rw [Option.filter_some, if_pos hm, Option.filter_some, Option.filter_some]
    rw [show (s.only (s.mine r)).owns r u = s.owns r u from owns_own hm]
  · simp [Option.filter_some, mine_of_mem hmem, h]

theorem trafficRows_own (q : TrafficQuery) (start stop : ℤ) :
    trafficRows (s.own r) r q start stop = trafficRows s r q start stop := by
  refine filterMap_filter.trans (filterMap_congr fun h _ => ?_)
  by_cases hm : s.mine r h.userId
  · rw [if_pos hm, find?_owned_own]
  rw [if_neg hm]
  split
  · have hnone : (s.db.users.find? h.userId).filter (s.owns r) = none := by
      rw [Option.filter_eq_none_iff]
      intro u hu howns
      rw [mine, hu] at hm
      exact hm howns
    rw [hnone]
    rfl
  · rfl

theorem analytics_own (t : Toolkit) (settings : List (String × String)) (now : ℤ) (q : TrafficQuery)
    (h : ∀ id ∈ q.userId, ¬ s.foreign r id) :
    buildTrafficAnalytics t (s.own r) settings r now q = buildTrafficAnalytics t s settings r now q := by
  have huser : queryUser t.env (s.own r) r q.userId = queryUser t.env s r q.userId := by
    cases hq : q.userId with
    | none => rfl
    | some id => rw [queryUser, queryUser, ownedUser_own (h id hq)]
  simp [buildTrafficAnalytics, huser, trafficRows_own]

/-! ### What belongs to one user -/

theorem reveal_own (h : s.mine r id) : revealSubscription env (s.own r) id = revealSubscription env s id := by
  rw [revealSubscription, revealSubscription, own, find?_only_of h]
  cases hu : s.db.users.find? id with
  | none => rfl
  | some u =>
    obtain ⟨-, rfl⟩ := find?_eq_some.mp hu
    simp [userFound, bind, Except.bind, profile_only h]

theorem subscriptions_own (h : s.mine r id) : listUserSubscriptions (s.own r) id = listUserSubscriptions s id := by
  have hrows : (s.own r).subscriptions.rows.filter (·.userId = id) = s.subscriptions.rows.filter (·.userId = id) := by
    refine filter_filter.trans (filter_congr fun l _ => ?_)
    by_cases hl : l.userId = id
    · simp [hl, h]
    · simp [hl]
  rw [listUserSubscriptions, listUserSubscriptions, hrows]

theorem revealUser_own {sid : Uuid} (h : s.mine r id) :
    revealUserSubscription env (s.own r) id sid = revealUserSubscription env s id sid := by
  have hfind : ((s.own r).subscriptions.find? sid).filter (·.userId = id) =
      (s.subscriptions.find? sid).filter (·.userId = id) := by
    rw [show (s.own r).subscriptions.find? sid = _ from find?_keep]
    rcases s.subscriptions.find? sid with _ | l
    · rfl
    by_cases hl : l.userId = id
    · simp [Option.filter_some, hl, h]
    · simp [Option.filter_some, hl]
  rw [revealUserSubscription, revealUserSubscription, hfind]

theorem userGroupIds_own (h : s.mine r id) : userGroupIds (s.own r) id = userGroupIds s id := by
  have hrows : (s.own r).db.userGroupAccess.filter (·.1 = id) = s.db.userGroupAccess.filter (·.1 = id) := by
    refine filter_filter.trans (filter_congr fun g _ => ?_)
    by_cases hg : g.1 = id
    · simp [hg, h]
    · simp [hg]
  rw [userGroupIds, userGroupIds, hrows]

/-! ### Live connections -/

/-- The user of the reseller under a name. -/
def UserDb.ownerOf (s : UserDb) (r : Uuid) (name : String) : Option Uuid :=
  ((s.db.users.rows.filter (s.owns r)).find? (·.username = name)).map (·.id)

/-- The credentials of every user can be opened. -/
def UserDb.Opens (env : Env) (s : UserDb) : Prop := ∀ u ∈ s.db.users.rows, ∃ v, env.decryptUser u = .ok v

theorem ownerOf_eq_some {name : String} : s.ownerOf r name = some id ↔
    ∃ u ∈ s.db.users.rows, s.owns r u ∧ u.username = name ∧ u.id = id := by
  rw [ownerOf, Option.map_eq_some_iff]
  constructor
  · rintro ⟨u, hu, rfl⟩
    obtain ⟨hmem, howns⟩ := mem_filter.mp (mem_of_find?_eq_some hu)
    exact ⟨u, hmem, howns, by simpa using find?_some hu, rfl⟩
  · rintro ⟨u, hmem, howns, rfl, rfl⟩
    cases hfind : (s.db.users.rows.filter (s.owns r)).find? (·.username = u.username) with
    | none => simpa using find?_eq_none.mp hfind u (mem_filter.mpr ⟨hmem, howns⟩)
    | some v =>
      have hv := (mem_filter.mp (mem_of_find?_eq_some hfind)).1
      have hname : v.username = u.username := by simpa using find?_some hfind
      exact ⟨v, rfl, by rw [inj_on_of_nodup_map s.usernames hv hmem hname]⟩

theorem connOwner_eq {users : List Subscriber} (h : listUsers env s (fun _ => true) = .ok users)
    (name : String) : connOwner users r name = s.ownerOf r name := by
  have hmem : ∀ {u : User}, u ∈ (s.db.users.rows.filter fun _ => true).insertionSort
      (fun u v => env.usernameLe u.username v.username) ↔ u ∈ s.db.users.rows := by
    simp
  ext id
  rw [ownerOf_eq_some, connOwner, Option.map_eq_some_iff]
  constructor
  · rintro ⟨a, ha, rfl⟩
    obtain ⟨ha, hcreator⟩ := Option.filter_eq_some_iff.mp ha
    obtain ⟨u, hu, hopen⟩ := mapM_mem h a (mem_of_find?_eq_some ha)
    obtain ⟨hprofile, hid, hname⟩ := open_profile hopen
    refine ⟨u, hmem.mp hu, ?_, ?_, hid.symm⟩
    · rw [hprofile] at hcreator
      exact hcreator
    · rw [← show a.user.username = u.username from hname]
      simpa using find?_some ha
  · rintro ⟨u, hu, howns, rfl, rfl⟩
    obtain ⟨a, ha, hopen⟩ := mem_mapM h u (hmem.mpr hu)
    obtain ⟨-, -, hname⟩ := open_profile hopen
    cases hfind : users.find? (·.user.username = u.username) with
    | none => simpa [hname, row] using find?_eq_none.mp hfind a ha
    | some b =>
      obtain ⟨v, hv, hopenb⟩ := mapM_mem h b (mem_of_find?_eq_some hfind)
      obtain ⟨hprofileb, hidb, hnameb⟩ := open_profile hopenb
      have heq : b.user.username = u.username := by simpa using find?_some hfind
      obtain rfl := inj_on_of_nodup_map s.usernames (hmem.mp hv) hu (hnameb.symm.trans heq)
      refine ⟨b, Option.filter_eq_some_iff.mpr ⟨rfl, ?_⟩, hidb⟩
      rw [hprofileb]
      exact howns

theorem open_error {a : Subscriber} {e : Refusal} (h : env.open a = .error e) : e = .internal := by
  rw [Env.open] at h
  cases hd : env.decryptUser a.user with
  | error text =>
    rw [hd] at h
    cases h
    rfl
  | ok v => simp [hd, opened, Except.map] at h

theorem listAll_ok_iff : (∃ users, listUsers env s (fun _ => true) = .ok users) ↔ s.Opens env := by
  rw [listUsers, mapM_ok_iff]
  simp only [mem_insertionSort, mem_filter, and_true]
  refine forall₂_congr fun u _ => ?_
  change (∃ b, (opened (env.decryptUser u)).map _ = .ok b) ↔ _
  cases env.decryptUser u with
  | error e | ok v => simp [opened, Except.map]

/-- What the reseller's users have open. -/
def Panel.liveOf (p : Panel) (r : Uuid) : List LiveConn :=
  p.fleet.flatMap fun n => (n.2.getD []).filterMap fun c =>
    (p.users.ownerOf r c.user).map (c.view n.1 (nodeName p.users n.1))

theorem collect_opens {p : Panel} (h : p.users.Opens env) : collectLiveConnections env p r = .ok (p.liveOf r) := by
  obtain ⟨users, hall⟩ := listAll_ok_iff.mpr h
  rw [collectLiveConnections, hall]
  refine congrArg ok ?_
  simp only [scopedConnections, connOwner_eq hall]
  rfl

theorem collect_fails {p : Panel} (h : ¬ p.users.Opens env) : collectLiveConnections env p r = .error .internal := by
  rw [collectLiveConnections]
  cases hall : listUsers env p.users fun _ => true with
  | ok users => exact absurd (listAll_ok_iff.mp ⟨users, hall⟩) h
  | error e =>
    obtain ⟨a, -, ha⟩ := mapM_error hall
    rw [open_error ha]
    rfl

end

/-! ### The panel of a reseller -/

/-- The reseller's own users, what is about them, and everything that is not about users. -/
def Panel.own (r : Uuid) (p : Panel) : Panel :=
  { p with
    users := p.users.own r
    fleet := p.fleet.map fun n =>
      (n.1, some ((n.2.getD []).filter fun c => (p.users.ownerOf r c.user).isSome)) }

@[simp] theorem own_users (r : Uuid) (p : Panel) : (p.own r).users = p.users.own r := rfl

@[simp] theorem own_office (r : Uuid) (p : Panel) : (p.own r).office = p.office := rfl

@[simp] theorem market_own (t : Toolkit) (r : Uuid) (p : Panel) (account : Admin) :
    (p.own r).market t account = p.market t account := rfl

/-- The user ids that a request names. -/
def ResellerCall.named : ResellerCall → List Uuid
  | .user id | .edit id _ | .reveal id | .subscriptions id | .revealSubscription id _ | .userGroups id => [id]
  | .traffic q | .trafficCsv q | .report q => q.userId.toList
  | _ => []

/-- The user name that a request gives. -/
def ResellerCall.newName : ResellerCall → Option String
  | .create input => some input.username
  | .edit _ e => e.newName
  | _ => none

/-- The alias that a request gives. -/
def ResellerCall.newAlias : ResellerCall → Option String
  | .edit _ e => e.newAlias
  | _ => none

/-- A request for the connections of everybody, before they are filtered. -/
def ResellerCall.listsAll : ResellerCall → Bool
  | .live | .geo => true
  | _ => false

/-- A request names no user of somebody else, and gives no name or alias of one. -/
structure ResellerCall.Proper (g : Gate) (r : Uuid) (s : UserDb) (call : ResellerCall) : Prop where
  named : ∀ id ∈ call.named, ¬ s.foreign r id
  names : ∀ n ∈ call.newName, ∀ v ∈ s.db.users.rows, ¬ s.mine r v.id → v.username ≠ n
  aliases : ∀ a ∈ call.newAlias, ∀ q ∈ s.profiles.rows, ¬ s.mine r q.id → ∀ b ∈ q.subscriptionAlias,
    g.lower b ≠ g.lower a

/-- What is drawn at random is not drawn already for somebody else. -/
structure ScopeDraws.Fresh (g : Gate) (r : Uuid) (s : UserDb) (d : ScopeDraws) : Prop where
  id : ¬ s.foreign r d.user.id
  tokens : ∀ q ∈ s.profiles.rows, ¬ s.mine r q.id → q.subscriptionTokenHash ≠ g.tokenHash d.user.token.text ∧
      q.subscriptionTokenHash ≠ g.tokenHash d.edit.token.text
  links : ∀ l ∈ s.subscriptions.rows, ¬ s.mine r l.userId →
    l.id ≠ d.edit.sid ∧ l.tokenHash ≠ g.tokenHash d.edit.token.text

section

variable {t : Toolkit} {now : ℤ} {i : Seat} {p : Panel} {d : ScopeDraws} {s s' : UserDb} {r : Uuid}

theorem ownerOf_own (name : String) : (s.own r).ownerOf r name = s.ownerOf r name := by
  rw [ownerOf, ownerOf, owned_own]

theorem liveOf_own : (p.own r).liveOf r = p.liveOf r := by
  simp only [Panel.liveOf, Panel.own, flatMap_map, Option.getD_some]
  refine flatMap_congr fun n _ => ?_
  rw [filterMap_filter]
  refine filterMap_congr fun c _ => ?_
  rw [ownerOf_own]
  cases p.users.ownerOf r c.user <;> rfl

variable {call : ResellerCall} {id : Uuid} {x : UserDraw} {input : CreateUserInput}

theorem read_own (t : Toolkit) (now : ℤ) (hnamed : ∀ id ∈ call.named, ¬ p.users.foreign i.account id)
    (hlists : call.listsAll = false) : (p.own i.account).read t now i call = p.read t now i call := by
  cases call with
  | office call => rfl
  | groups => rfl
  | labels resource => simp [Panel.read, listLabels, userLabels_own]
  | onboarding => simp [Panel.read, onboarding_own]
  | live => cases hlists
  | geo => cases hlists
  | traffic q | trafficCsv q | report q =>
    simp [Panel.read, Panel.own, analytics_own t _ now q fun id hid => hnamed id (Option.mem_toList.mpr hid)]
  | users => simp [Panel.read, listUsers_own]
  | create input => rfl
  | user id =>
    simp [Panel.read, ownedUser_own (hnamed id mem_cons_self)]
  | edit id e => rfl
  | reveal id | subscriptions id | revealSubscription id sid | userGroups id =>
    simp only [Panel.read, Panel.own, ownedUser_own (hnamed id mem_cons_self)]
    cases hown : ownedUser t.env i.account p.users id with
    | error e => rfl
    | ok a =>
      have hmine := mine_of_ownedUser hown
      simp [reveal_own hmine, subscriptions_own hmine, revealUser_own hmine, userGroupIds_own hmine]

/-! ### Edits and creations -/

theorem reply_only {q : Uuid → Bool} {x : EditDraw} {e : Edit} (hq : q id) :
    e.reply t.env now x id (s.only q) = e.reply t.env now x id s := by
  cases e <;> simp [Edit.reply, replyUser, getUser_only t.env hq]

theorem edit_reply (t : Toolkit) (now : ℤ) (i : Seat) (p : Panel) (x : EditDraw) (id : Uuid) (e : Edit) :
    (p.edit t now i x id e).2 = (do
      e.check
      let _ ← ownedUser t.env i.account p.users id
      e.reply t.env now x id (← e.run (p.market t (.idOnly i.account)) now x id p.users)) := by
  have hmarket : (p.market t (.idOnly i.account)).account.id = i.account := rfl
  have henv : (p.market t (.idOnly i.account)).env = t.env := rfl
  rw [Panel.edit, editForReseller, hmarket, henv]
  rcases e.check with r | _
  · rfl
  cases ownedUser t.env i.account p.users id with
  | error r => rfl
  | ok a => cases e.run (p.market t (.idOnly i.account)) now x id p.users <;> rfl

theorem edit_own {e : Edit} (hproper : (ResellerCall.edit id e).Proper t.gate i.account p.users)
    (hfresh : d.Fresh t.gate i.account p.users) :
    ((p.own i.account).edit t now i d.edit id e).2 = (p.edit t now i d.edit id e).2 := by
  have hclear : e.Clear t.gate d.edit (p.users.mine i.account) p.users :=
    ⟨hproper.names, hproper.aliases, fun q hq hm => (hfresh.tokens q hq hm).2, hfresh.links⟩
  rw [edit_reply, edit_reply, market_own, own_users, ownedUser_own (hproper.named id mem_cons_self)]
  rcases e.check with r | _
  · rfl
  rcases hown : ownedUser t.env i.account p.users id with r | a
  · rfl
  have hmine := mine_of_ownedUser hown
  have hrun : (e.run (p.market t (.idOnly i.account)) now d.edit id p.users).map (·.only (p.users.mine i.account)) =
      e.run (p.market t (.idOnly i.account)) now d.edit id (p.users.own i.account) := run_only hmine hclear
  rw [← hrun]
  cases e.run (p.market t (.idOnly i.account)) now d.edit id p.users with
  | error r => rfl
  | ok s' => exact reply_only hmine

/-- The row that `create_user` inserts. -/
def newRow (g : Gate) (env : Env) (now : ℤ) (x : UserDraw) (createdBy : Option Uuid)
    (input : CreateUserInput) : Except Refusal Subscriber := do
  let uuid ← opened (env.encrypt x.uuid.text)
  let password ← opened (env.encrypt input.password)
  let tokenEnc ← opened (env.encrypt x.token.text)
  return ⟨⟨x.id, input.username, uuid, password, true, input.trafficLimitBytes, 0, input.expiresAt⟩,
    { Profile.blank x.id with
      createdBy := createdBy
      subscriptionTitle := input.subscriptionTitle
      subscriptionDescription := input.subscriptionDescription
      subscriptionGroup := input.subscriptionGroup
      subscriptionTrafficPolicy := input.subscriptionTrafficPolicy
      deviceLimit := max input.deviceLimit 0
      subscriptionTokenHash := g.tokenHash x.token.text
      subscriptionTokenEnc := some tokenEnc
      createdAt := now
      updatedAt := now }⟩

/-- The id, the token or the name of a new user is in use. -/
def Taken (g : Gate) (x : UserDraw) (name : String) (s : UserDb) : Prop :=
  ((s.db.users.find? x.id).isSome ∨ s.profiles.rows.any (·.subscriptionTokenHash = g.tokenHash x.token.text)) ∨
    ¬ s.NameFree x.id name

instance (g : Gate) (x : UserDraw) (name : String) (s : UserDb) : Decidable (Taken g x name s) :=
  inferInstanceAs (Decidable (_ ∨ _))

/-- The row under an id. -/
def UserDb.rowAt (s : UserDb) (id : Uuid) : Option Subscriber := (s.db.users.find? id).map s.row

theorem insertUser_rowAt (g : Gate) (env : Env) (now : ℤ) (x : UserDraw) (createdBy : Option Uuid)
    (input : CreateUserInput) (s : UserDb) :
    (insertUser g env now x createdBy input s).map (·.rowAt x.id) = (newRow g env now x createdBy input).bind fun a =>
        if input.trafficLimitBytes < 0 then .error .constraint else if Taken g x input.username s then .error .conflict
        else .ok (some a) := by
  simp only [newRow, insertUser]
  rcases opened (env.encrypt x.uuid.text) with r | uuid
  · rfl
  rcases opened (env.encrypt input.password) with r | password
  · rfl
  rcases opened (env.encrypt x.token.text) with r | tokenEnc
  · rfl
  simp only [bind, Except.bind, pure, Except.pure]
  split
  · rfl
  by_cases hid : (s.db.users.find? x.id).isSome ∨
      s.profiles.rows.any (·.subscriptionTokenHash = g.tokenHash x.token.text)
  · rw [if_pos hid, if_pos (.inl hid)]
    rfl
  rw [if_neg hid]
  by_cases hfree : s.NameFree x.id input.username
  · have hnew : ¬ Taken g x input.username s := not_or.mpr ⟨hid, not_not.mpr hfree⟩
    rw [dif_pos hfree, if_neg hnew]
    refine congrArg ok ?_
    simp only [rowAt, putProfile, putUser]
    rw [find?_put_self, Option.map_some, row, profile, show (s.profiles.put _).find? x.id = _ from find?_put_self]
    rfl
  · rw [dif_neg hfree, if_pos (.inr hfree)]
    rfl

theorem taken_own {name : String} (hid : ¬ s.foreign r x.id)
    (htokens : ∀ q ∈ s.profiles.rows, ¬ s.mine r q.id → q.subscriptionTokenHash ≠ t.gate.tokenHash x.token.text)
    (hnames : ∀ v ∈ s.db.users.rows, ¬ s.mine r v.id → v.username ≠ name) :
    Taken t.gate x name (s.own r) ↔ Taken t.gate x name s := by
  have hfind : ((s.own r).db.users.find? x.id).isSome = (s.db.users.find? x.id).isSome := by
    rw [own, find?_only]
    rcases hu : s.db.users.find? x.id with _ | u
    · rfl
    obtain ⟨hmem, -⟩ := find?_eq_some.mp hu
    rw [foreign, hu, Option.any_some, Bool.not_eq_true, Bool.not_eq_false'] at hid
    rw [Option.filter_some, if_pos (by rw [mine_of_mem hmem, hid])]
  have hany : (s.own r).profiles.rows.any (·.subscriptionTokenHash = t.gate.tokenHash x.token.text) =
      s.profiles.rows.any (·.subscriptionTokenHash = t.gate.tokenHash x.token.text) :=
    any_keep fun q hq hm => by simp [htokens q hq hm]
  rw [Taken, Taken, hfind, hany, own, nameFree_only x.id hnames]

/-- The row that a creation leaves. -/
def createdRow (m : Market) (now : ℤ) (x : UserDraw) (input : CreateUserInput) (s : UserDb) :
    Except Refusal (Option Subscriber) :=
  (createForReseller m now x input s).2.map fun _ => (createForReseller m now x input s).1.rowAt x.id

theorem createdRow_eq (m : Market) (now : ℤ) (x : UserDraw) (input : CreateUserInput) (s : UserDb) :
    createdRow m now x input s = (do
      validated (validateUser input.toNewUser)
      capAllows m.account (countUsersForCreator s m.account.id)
      ceilingAllows m.account input.trafficLimitBytes
      budgetAllows m.account (resellerTrafficUsed s m.account.id)
      groupsAllow m.entitled
      let a ← (insertUser m.gate m.env now x (some m.account.id) input s).map (·.rowAt x.id)
      if m.entitled.all (· ∈ m.known) then return a else throw .reference) := by
  simp only [createdRow, createForReseller]
  rcases validated (validateUser input.toNewUser) with e | _
  · rfl
  rcases capAllows m.account (countUsersForCreator s m.account.id) with e | _
  · rfl
  rcases ceilingAllows m.account input.trafficLimitBytes with e | _
  · rfl
  rcases budgetAllows m.account (resellerTrafficUsed s m.account.id) with e | _
  · rfl
  rcases groupsAllow m.entitled with e | _
  · rfl
  rcases insertUser m.gate m.env now x (some m.account.id) input s with e | s'
  · rfl
  simp only [setUserGroups]
  by_cases h : m.entitled.all (· ∈ m.known)
  · simp only [if_pos h]
    rfl
  · simp only [if_neg h]
    rfl

theorem createdRow_own {m : Market} (hr : m.account.id = r)
    (htaken : Taken m.gate x input.username (s.own r) ↔ Taken m.gate x input.username s) :
    createdRow m now x input (s.own r) = createdRow m now x input s := by
  subst hr
  simp [createdRow_eq, count_own, trafficUsed_own, insertUser_rowAt, htaken]

theorem create_reply {account : Admin} (t : Toolkit) (now : ℤ) (p : Panel) (x : UserDraw) (input : CreateUserInput)
    (h : p.office.account i.account = some account) :
    (p.create t now i x input).2 = (do
      validated (validateUser input.toNewUser)
      let a ← createdRow (p.market t account) now x input p.users
      let view ← (userFound (← t.env.openOption a)).map (·.view now)
      return .created view x.token ("/sub/" ++ x.id.text) ("/sub/" ++ x.token.text)) := by
  simp only [Panel.create, h, createdRow]
  rcases validated (validateUser input.toNewUser) with e | _
  · rfl
  dsimp only
  rcases createForReseller (p.market t account) now x input p.users with ⟨s, e | _⟩
  · rfl
  simp only [replyUser, getUser, rowAt, Except.map, bind, Except.bind]
  cases t.env.openOption ((s.db.users.find? x.id).map s.row) with
  | error e => rfl
  | ok o => cases o <;> rfl

theorem create_own (hproper : (ResellerCall.create input).Proper t.gate i.account p.users)
    (hfresh : d.Fresh t.gate i.account p.users) :
    ((p.own i.account).create t now i d.user input).2 = (p.create t now i d.user input).2 := by
  cases haccount : p.office.account i.account with
  | none =>
    simp only [Panel.create, own_office, haccount]
    cases validated (validateUser input.toNewUser) <;> rfl
  | some account =>
    have hid : account.id = i.account := (find?_eq_some.mp haccount).2
    have htaken := taken_own hfresh.id (fun q hq hm => (hfresh.tokens q hq hm).1) (hproper.names _ rfl)
    rw [create_reply t now p d.user input haccount, create_reply t now (p.own i.account) d.user input haccount,
      market_own, own_users, createdRow_own hid htaken]

/-- A reply depends on the reseller's own rows, unless it is about everybody. -/
theorem handle_own (hproper : call.Proper t.gate i.account p.users) (hfresh : d.Fresh t.gate i.account p.users)
    (hlists : call.listsAll = false) : ((p.own i.account).handle t now i d call).2 = (p.handle t now i d call).2 := by
  cases call with
  | office call =>
    simp only [Panel.handle, own_office]
    cases p.office.handle t.gate t.texts.le now i.identity d.view call <;> rfl
  | create input =>
    simp only [Panel.handle]
    exact create_own hproper hfresh
  | edit id e =>
    exact edit_own hproper hfresh
  | _ =>
    exact read_own t now hproper.named hlists

/-- The reply to a request about everybody, from a list of connections. -/
def ResellerCall.listed (t : Toolkit) (conns : List LiveConn) : ResellerCall → ScopeReply
  | .live => .connections conns
  | _ => .geo (geoDistribution t conns)

/-- A request about everybody is answered from the reseller's own rows if all users open, and refused if
    one does not. -/
theorem handle_lists (hlists : call.listsAll) : (p.users.Opens t.env →
      (p.handle t now i d call).2 = .ok (call.listed t ((p.own i.account).liveOf i.account))) ∧
    (¬ p.users.Opens t.env → (p.handle t now i d call).2 = .error .internal) := by
  cases call with
  | live | geo =>
    refine ⟨fun h => ?_, fun h => ?_⟩
    · simp [Panel.handle, Panel.read, collect_opens h, liveOf_own, Except.map, ResellerCall.listed]
    · simp [Panel.handle, Panel.read, collect_fails h, Except.map]
  | _ => cases hlists

/-! ### What stays -/

theorem not_foreign_of_mine (h : s.mine r id) : ¬ s.foreign r id := by
  rw [mine] at h
  rw [foreign]
  cases hu : s.db.users.find? id with
  | none => simp
  | some u =>
    rw [hu, Option.any_some] at h
    simp [h]

theorem edit_keeps {e : Edit} {x : EditDraw} :
    (p.edit t now i x id e).1.only (p.users.foreign i.account) = p.users.only (p.users.foreign i.account) := by
  rw [Panel.edit]
  rcases hs : editForReseller (p.market t (.idOnly i.account)) now x id e p.users with r | s'
  · rfl
  obtain ⟨_, -, hs⟩ := bind_eq_ok.mp hs
  obtain ⟨a, hown, hrun⟩ := bind_eq_ok.mp hs
  exact run_only_other (not_foreign_of_mine (mine_of_ownedUser hown)) hrun

theorem createForReseller_keeps {m : Market} :
    (createForReseller m now x input s).1.only (s.foreign r) = s.only (s.foreign r) := by
  simp only [createForReseller]
  split
  · rfl
  rename_i hchecks
  simp only [bind_eq_ok] at hchecks
  obtain ⟨_, -, _, -, _, -, _, -, _, -, hinsert⟩ := hchecks
  obtain ⟨u, q, hfree, hq, rfl, hnew, hu, -, -, -, hqid, -⟩ := insertUser_ok hinsert
  have hx : ¬ s.foreign r x.id := by
    rw [foreign, hnew]
    simp
  have hinserted : ((s.putUser u hfree).putProfile q hq).only (s.foreign r) = s.only (s.foreign r) := by
    rw [only_putProfile_other (by rw [hqid]; exact hx), only_putUser_other (by rw [hu]; exact hx)]
  split
  · exact hinserted
  · rename_i hgroups
    exact (only_setUserGroups_other hx hgroups).trans hinserted

theorem create_keeps :
    (p.create t now i x input).1.only (p.users.foreign i.account) = p.users.only (p.users.foreign i.account) := by
  rw [Panel.create]
  split
  · rfl
  · rfl
  rename_i account _ _
  have hkeeps : (createForReseller (p.market t account) now x input p.users).1.only
      (p.users.foreign i.account) = p.users.only (p.users.foreign i.account) := createForReseller_keeps
  generalize createForReseller (p.market t account) now x input p.users = created at hkeeps ⊢
  rcases created with ⟨s', e | _⟩
  · exact hkeeps
  · exact hkeeps

theorem handle_keeps : (p.handle t now i d call).1.users.only (p.users.foreign i.account) =
      p.users.only (p.users.foreign i.account) := by
  cases call with
  | office call =>
    simp only [Panel.handle]
    cases p.office.handle t.gate t.texts.le now i.identity d.view call <;> rfl
  | create input =>
    exact create_keeps
  | edit id e =>
    exact edit_keeps
  | _ => simp [Panel.handle]

end

/-! ### Isolation -/

/-- The paths of the live connections and of their countries. -/
def listsEverybody (path : String) : Bool :=
  segments path ∈ [["", "live-connections"], ["", "analytics", "geo"]]

variable {call : ResellerCall} {x : Extractors} {q : ScopedRequest}

theorem listsAll_of_map {α : Type} {y : Except Refusal α} {f : α → ResellerCall} (h : y.map f = .ok call)
    (hf : ∀ a, (f a).listsAll = false) : call.listsAll = false := by
  obtain ⟨a, -, rfl⟩ := map_eq_ok.mp h
  exact hf a

theorem userRoute_listsAll {id : Uuid} {rest : List String} (h : userRoute x q id rest = .ok call) :
    call.listsAll = false := by
  rw [userRoute.eq_def] at h
  split at h
  case h_1 | h_6 | h_7 | h_9 =>
    split at h
    all_goals first
      | cases h <;> rfl
      | exact listsAll_of_map h fun _ => rfl
  all_goals first
    | cases h <;> rfl
    | exact listsAll_of_map h fun _ => rfl

theorem route_listsAll (h : route x q = .ok call) : call.listsAll = listsEverybody q.path := by
  rw [route.eq_def] at h
  rw [listsEverybody]
  split at h
  case h_18 =>
    rename_i hseg
    obtain ⟨id, -, h⟩ := bind_eq_ok.mp h
    rw [userRoute_listsAll h, hseg]
    simp
  case h_19 => cases h
  all_goals
    rename_i hseg
    rw [hseg]
  case h_16 =>
    split at h
    · obtain ⟨id, -, h⟩ := bind_eq_ok.mp h
      obtain ⟨input, -, h⟩ := bind_eq_ok.mp h
      cases h
      rfl
    · exact listsAll_of_map h fun _ => rfl
  case h_15 | h_17 =>
    split at h
    · cases h
      rfl
    · exact listsAll_of_map h fun _ => rfl
  all_goals first
    | cases h <;> rfl
    | exact listsAll_of_map h fun _ => rfl

theorem route_of_listsEverybody (h : listsEverybody q.path) : ∃ call, route x q = .ok call := by
  simp only [listsEverybody, mem_cons, not_mem_nil, or_false, decide_eq_true_eq] at h
  rcases h with h | h
  · exact ⟨.live, by rw [route.eq_def, h]; rfl⟩
  · exact ⟨.geo, by rw [route.eq_def, h]; rfl⟩

theorem answer_admitted {t : Toolkit} {now : ℤ} {i : Seat} {d : ScopeDraws} (h : resellerPermits q.method q.path)
    (p : Panel) :
    p.answer t now i x d q = match route x q with
      | .error r => (p, .error r)
      | .ok call => p.handle t now i d call := by
  have hok : authorize i.identity q.method q.path = .ok () := by
    rw [authorize, if_pos (by rfl), if_pos h]
  rw [Panel.answer, hok]
  cases route x q <;> rfl

/-- Two panels that agree on what is the reseller's answer it alike, exactly if the request is not for the live
    connections or the users of both open, or of neither; and no request of the reseller changes a row about
    somebody else's user. -/
theorem reseller_isolated_iff (t : Toolkit) (x : Extractors) (now : ℤ) (i : Seat) (d : ScopeDraws)
    (q : ScopedRequest) (hadmitted : resellerPermits q.method q.path) (p : Panel) :
    (∀ p' : Panel, p.own i.account = p'.own i.account → (∀ call, route x q = .ok call →
        call.Proper t.gate i.account p.users ∧ call.Proper t.gate i.account p'.users) →
      d.Fresh t.gate i.account p.users → d.Fresh t.gate i.account p'.users →
      ((p.answer t now i x d q).2 = (p'.answer t now i x d q).2 ↔
        listsEverybody q.path = false ∨ (p.users.Opens t.env ↔ p'.users.Opens t.env))) ∧
    (p.answer t now i x d q).1.users.only (p.users.foreign i.account) = p.users.only (p.users.foreign i.account) := by
  rw [answer_admitted hadmitted]
  refine ⟨fun p' hagree hproper hfresh hfresh' => ?_, ?_⟩
  · rw [answer_admitted hadmitted]
    cases hroute : route x q with
    | error r =>
      refine iff_of_true rfl (.inl (Bool.eq_false_iff.mpr fun hpath => ?_))
      obtain ⟨call, hcall⟩ := route_of_listsEverybody hpath
      rw [hroute] at hcall
      cases hcall
    | ok call =>
      obtain ⟨hp, hp'⟩ := hproper call hroute
      rw [← route_listsAll hroute]
      cases hlists : call.listsAll with
      | false =>
        refine iff_of_true ?_ (.inl rfl)
        exact (handle_own hp hfresh hlists).symm.trans
          ((congrArg (fun u : Panel => (u.handle t now i d call).2) hagree).trans (handle_own hp' hfresh' hlists))
      | true =>
        obtain ⟨hopen, hfail⟩ := handle_lists hlists
        obtain ⟨hopen', hfail'⟩ := handle_lists hlists
        by_cases h : p.users.Opens t.env <;> by_cases h' : p'.users.Opens t.env
        · exact iff_of_true (by rw [hopen h, hopen' h', hagree]) (.inr (iff_of_true h h'))
        · exact iff_of_false (by rw [hopen h, hfail' h']; exact nofun) (by simp [h, h'])
        · exact iff_of_false (by rw [hfail h, hopen' h']; exact nofun) (by simp [h, h'])
        · exact iff_of_true (by rw [hfail h, hfail' h']) (.inr (iff_of_false h h'))
  · cases route x q with
    | error r => rfl
    | ok call => exact handle_keeps

/-- Secrets behind a prefix; one text is no ciphertext. -/
def sealingEnv : Env where
  decrypt := fun text => match text.toList.dropPrefix? "enc:v1:".toList with
    | some ['?'] => .error "bad ciphertext base64"
    | some plain => .ok (String.ofList plain)
    | none => .ok text
  encrypt := fun text => .ok ("enc:v1:" ++ text)
  usernameLe := fun a b => decide (a ≤ b)

def plainToolkit : Toolkit where
  gate := plainGate
  env := sealingEnv
  texts := ⟨id, fun a b => decide (a ≤ b)⟩
  geo := fun _ => "unknown"
  countryRanges := 0
  rfc3339 := toString
  minute := toString
  bytes := toString
  percent := fun _ => ""
  page := fun _ => ""

/-- Every body and query is refused. -/
def refusing : Extractors :=
  have bad : Refusal := .badRequest "unreadable"
  ⟨.notFound "", bad, fun _ => .error bad, fun _ => .error bad, fun _ => .error bad, fun _ => .error bad,
    fun _ => .error bad, fun _ => .error bad, fun _ => .error bad, fun _ => .error bad, fun _ => .error bad,
    fun _ => .error bad, fun _ => .error bad, fun _ => .error bad, fun _ => .error bad⟩

/-- A user of the reseller, and a user of nobody with a stored password. -/
def twoUsers (stored : String) : UserDb where
  db := ⟨empty, ⟨[⟨1, "ann", "enc:v1:u", "enc:v1:p", true, 0, 0, none⟩,
      ⟨2, "bob", "enc:v1:v", stored, true, 0, 0, none⟩], by simp⟩, [], [], empty, empty, empty,
    empty, empty, empty⟩
  profiles := ⟨[{ Profile.blank 1 with createdBy := some 7 }, Profile.blank 2], by decide⟩
  subscriptions := empty
  usernames := by simp
  aliases := by decide

def smallPanel (stored : String) : Panel where
  users := twoUsers stored
  office := ⟨⟨empty, empty, empty, empty, [], [], [], fun _ h => absurd h not_mem_nil⟩, empty, [], empty⟩
  groups := empty
  settings := []
  brand := none
  fleet := []

def rita : Seat := ⟨7, "rita", none, none⟩

def someDraws : ScopeDraws := ⟨⟨⟨8, 8, 8⟩, ⟨8, "new", 8, 8⟩⟩, 8⟩

def getRequest (path : String) : ScopedRequest := ⟨.get, path, "", ""⟩

theorem someDraws_fresh (stored : String) : someDraws.Fresh plainGate 7 (twoUsers stored) where
  id := Bool.false_ne_true
  tokens := by
    intro q hq _
    rcases mem_pair.mp hq with rfl | rfl
    · decide
    · decide
  links := nofun

/-- The user list of the reseller is the same, whether or not the other user's password opens, and nothing
    about the other user changes. -/
theorem listed_alike : ((smallPanel "enc:v1:q").answer plainToolkit 0 rita refusing someDraws (getRequest "/users")).2 =
        ((smallPanel "enc:v1:?").answer plainToolkit 0 rita refusing someDraws (getRequest "/users")).2 ∧
      ((smallPanel "enc:v1:q").answer plainToolkit 0 rita refusing someDraws (getRequest "/users")).1.users.only
          ((twoUsers "enc:v1:q").foreign 7) = (twoUsers "enc:v1:q").only ((twoUsers "enc:v1:q").foreign 7) := by
  obtain ⟨hreply, hkeeps⟩ := reseller_isolated_iff plainToolkit refusing 0 rita someDraws (getRequest "/users")
    (by decide) (smallPanel "enc:v1:q")
  refine ⟨(hreply _ rfl ?_ (someDraws_fresh _) (someDraws_fresh _)).mpr (.inl ?_), hkeeps⟩
  · intro call hcall
    obtain rfl : ResellerCall.users = call := ok.inj hcall
    exact ⟨⟨nofun, nofun, nofun⟩, nofun, nofun, nofun⟩
  · decide +kernel

/-- With a password of somebody else that does not open, the reseller's live connections are refused. -/
theorem live_refused : resellerPermits .get "/live-connections" = true ∧
    (smallPanel "enc:v1:q").own 7 = (smallPanel "enc:v1:?").own 7 ∧
    ((smallPanel "enc:v1:q").answer plainToolkit 0 rita refusing someDraws (getRequest "/live-connections")).2 =
      .ok (.connections []) ∧
    ((smallPanel "enc:v1:?").answer plainToolkit 0 rita refusing someDraws (getRequest "/live-connections")).2 =
      .error .internal := by
  refine ⟨by decide, rfl, ?_, ?_⟩
  · rfl
  · rfl

end Honey.Master
