import Honey.Master.Admins

/-! What runs of requests do to authority: whether an owner is left, whether a custom role stays in force,
    and whether anybody gains by what they are let do.

        identity -- admitted request --> administrators, custom roles, API keys
            ^                                          |
            +--------- the next request <--------------+

    None of the three holds of every run; each holds exactly, or at least, under the condition stated with it. -/

namespace Honey.Master
open Honey.Schemes Option Table

/-! ### An owner is left -/

/-- Some enabled administrator is an owner. -/
def HasOwner (db : AuthDb) : Prop := ∃ a ∈ db.admins.rows, a.role = .owner ∧ a.enabled

/-- One other than this is. -/
def OtherOwner (db : AuthDb) (id : Uuid) : Prop :=
  ∃ a ∈ db.admins.rows, a.id ≠ id ∧ a.role = .owner ∧ a.enabled

/-- The texts of an update pass. -/
def UpdateAdminInput.Valid (input : UpdateAdminInput) : Prop :=
  (∀ name ∈ input.role, (Role.ofName? name).isSome) ∧ ∀ password ∈ input.password, 10 ≤ password.utf8ByteSize

variable (g : Gate)

/-- No update takes the last owner away: one that disables or demotes its target is the caller's own, or
    there is another owner, or it comes to nothing. -/
def KeepsOwner (db : AuthDb) (e : Event) : Prop :=
  ∀ c i id hash input, e = .call c → c.op = .updateAdmin id hash input →
    requireAuth g c.faults c.now db c.request = .ok i → input.demotes →
    i.adminId = some id ∨ OtherOwner db id ∨ ¬ input.Valid ∨ c.faults.row

instance (db : AuthDb) : Decidable (HasOwner db) :=
  inferInstanceAs (Decidable (∃ a ∈ db.admins.rows, a.role = .owner ∧ a.enabled))

instance (db : AuthDb) (id : Uuid) : Decidable (OtherOwner db id) :=
  inferInstanceAs (Decidable (∃ a ∈ db.admins.rows, a.id ≠ id ∧ a.role = .owner ∧ a.enabled))

section

variable {g : Gate} {db db' : AuthDb} {i : Identity} {id : Uuid} {hash : String} {hash' : Option String}
  {input : UpdateAdminInput} {a : Admin}

theorem hasOwner_iff : HasOwner db ↔ ∃ k a, db.admins.find? k = some a ∧ a.role = .owner ∧ a.enabled := by
  constructor
  · rintro ⟨a, ha, howner⟩
    exact ⟨a.id, a, find?_eq_some.mpr ⟨ha, rfl⟩, howner⟩
  · rintro ⟨k, a, ha, howner⟩
    exact ⟨a, (find?_eq_some.mp ha).1, howner⟩

theorem checkUpdate_ok_iff : (∃ hash', checkUpdate i id hash input = .ok hash') ↔
    input.Valid ∧ ¬ (i.adminId = some id ∧ input.demotes) := by
  have hnames : input.role.any (fun name => (Role.ofName? name).isNone) = false ↔
      ∀ name ∈ input.role, (Role.ofName? name).isSome := by
    cases input.role with
    | none => simp
    | some name => simp
  rw [checkUpdate, UpdateAdminInput.Valid, ← hnames]
  split
  · rename_i hbad
    simp [hbad]
  rename_i hbad
  split
  · rename_i hself
    simp [hself]
  rename_i hself
  simp only [hbad, hself]
  rcases input.password with _ | password
  · simp
  by_cases hshort : password.utf8ByteSize < 10
  · simp [hashPassword, hshort, Except.map]
  · simp [hashPassword, hshort, Except.map, not_lt.mp hshort]

theorem Role.name_ofName? {name : String} {role : Role} (h : Role.ofName? name = some role) : role.name = name := by
  simpa using List.find?_some h

theorem not_owner_of_demotes (hvalid : input.Valid) (h : input.demotes) (role : Option Uuid) :
    ¬ (({ input.apply hash' a with customRoleId := role } : Admin).role = .owner ∧
      ({ input.apply hash' a with customRoleId := role } : Admin).enabled) := by
  rintro ⟨howner, henabled⟩
  simp only [UpdateAdminInput.apply] at howner henabled
  rw [UpdateAdminInput.demotes, Bool.or_eq_true] at h
  rcases h with h | h
  · rw [of_decide_eq_true h] at henabled
    cases henabled
  cases hname : input.role with
  | none =>
    rw [hname] at h
    cases h
  | some name =>
    rw [hname] at h howner
    obtain ⟨r, hr⟩ := isSome_iff_exists.mp (hvalid.1 name hname)
    simp only [bind_some, hr, getD_some] at howner
    have hne : name ≠ "owner" := by simpa using h
    exact hne (by rw [← Role.name_ofName? hr, howner]; rfl)

theorem owner_of_not_demotes (h : input.demotes = false) (howner : a.role = .owner ∧ a.enabled)
    (role : Option Uuid) : ({ input.apply hash' a with customRoleId := role } : Admin).role = .owner ∧
      ({ input.apply hash' a with customRoleId := role } : Admin).enabled := by
  rw [UpdateAdminInput.demotes, Bool.or_eq_false_iff] at h
  obtain ⟨henabled, hrole⟩ := h
  simp only [UpdateAdminInput.apply]
  constructor
  · cases hname : input.role with
    | none => exact howner.1
    | some name =>
      rw [hname] at hrole
      obtain rfl : name = "owner" := by simpa using hrole
      rfl
  · cases hset : input.enabled with
    | none => exact howner.2
    | some b =>
      rw [hset] at henabled
      simpa using henabled

theorem keepsOwner_of_step {e : Event} (h : HasOwner db) (hafter : HasOwner (authStep g db e)) : KeepsOwner g db e := by
  rintro c i id hash input rfl hop hi hdemotes
  by_contra hno
  simp only [not_or, not_not, Bool.not_eq_true] at hno
  obtain ⟨hself, hother, hvalid, hrow⟩ := hno
  obtain ⟨a, ha, howner⟩ := h
  -- the target is the only owner, and the update goes through
  have hid : a.id = id := by
    by_contra hne
    exact hother ⟨a, ha, hne, howner⟩
  subst hid
  obtain ⟨hash', hcheck⟩ := checkUpdate_ok_iff.mpr ⟨hvalid, fun hboth => hself hboth.1⟩
  obtain ⟨role, -, hfind⟩ := updateAdmin_done hcheck hrow (find?_eq_some.mpr ⟨ha, rfl⟩)
  obtain ⟨k, b, hb, hbowner⟩ := hasOwner_iff.mp hafter
  rw [authStep, answer, hi] at hb
  simp only [hop, handle] at hb
  rw [hfind] at hb
  split at hb
  · rw [← some.inj hb] at hbowner
    exact not_owner_of_demotes hvalid hdemotes role hbowner
  · rename_i hk
    obtain ⟨hmem, rfl⟩ := find?_eq_some.mp hb
    exact hother ⟨b, hmem, hk, hbowner⟩

theorem hasOwner_of_keepsOwner {e : Event} (h : HasOwner db) (hkeeps : KeepsOwner g db e) :
    HasOwner (authStep g db e) := by
  obtain ⟨k, a, ha, howner⟩ := hasOwner_iff.mp h
  rw [hasOwner_iff]
  cases authStep_effect g db e with
  | same hsame => exact ⟨k, a, hsame ▸ ha, howner⟩
  | created b hnew hput =>
    have hne : k ≠ b.id := by
      rintro rfl
      rw [hnew] at ha
      cases ha
    exact ⟨k, a, by rw [hput, find?_put_of_ne hne, ha], howner⟩
  | @updated c _ i b hash hash' input hi hop hcheck hrow hb hupdated =>
    obtain ⟨role, -, hfind⟩ := hupdated
    cases hdemotes : input.demotes with
    | false =>
      by_cases hk : k = b.id
      · subst hk
        obtain rfl := some.inj (ha.symm.trans hb)
        exact ⟨a.id, _, by rw [hfind, if_pos rfl], owner_of_not_demotes hdemotes howner role⟩
      · exact ⟨k, a, by rw [hfind, if_neg hk, ha], howner⟩
    | true =>
      obtain ⟨hvalid, hself⟩ := checkUpdate_ok_iff.mp ⟨hash', hcheck⟩
      rcases hkeeps c i b.id hash input rfl hop hi hdemotes with hown | hother | hbad | hfails
      · exact absurd ⟨hown, hdemotes⟩ hself
      · obtain ⟨o, ho, hne, hoowner⟩ := hother
        exact ⟨o.id, o, by rw [hfind, if_neg hne]; exact find?_eq_some.mpr ⟨ho, rfl⟩, hoowner⟩
      · exact absurd hvalid hbad
      · rw [hrow] at hfails
        cases hfails
  | deleted i r hi hop hfind =>
    refine ⟨k, a.lose r, by rw [hfind, ha]; rfl, ?_⟩
    rw [Admin.lose]
    split
    · exact howner
    · exact howner

end

/-- Along every run from a state with an owner: an owner is left in every state exactly if every step keeps it. -/
theorem owner_left_iff (g : Gate) (db : AuthDb) (es : List Event) (h : HasOwner db) :
    Always (authStep g) (fun s e => HasOwner (authStep g s e)) db es ↔ Always (authStep g) (KeepsOwner g) db es := by
  have hstep : ∀ s e, HasOwner s → (HasOwner (authStep g s e) ↔ KeepsOwner g s e) :=
    fun s e hs => ⟨keepsOwner_of_step hs, hasOwner_of_keepsOwner hs⟩
  exact always_iff (fun s e hs hkeeps => (hstep s e hs).mpr hkeeps) hstep es db h

/-- A master with a shared token. -/
def tokenGate : Gate := { plainGate with apiToken := some "root" }

/-- A call with it. -/
def tokenCall (op : Op) : Event := .call ⟨0, .none, ⟨some "Bearer root", none, none, none, none, none⟩, op⟩

/-- `bob` becomes an owner. -/
def secondOwner : Op := .createAdmin 2 "h" ⟨"bob", "long enough", "owner", 0, 0, 0, 0, []⟩

/-- `carol` is disabled. -/
def disableCarol : Op := .updateAdmin 1 "h" ⟨none, some false, none, none, none, none, none, none, .missing⟩

theorem second_owner_left : HasOwner (customDb .owner (.obj [])) ∧
    Always (authStep tokenGate) (fun s e => HasOwner (authStep tokenGate s e))
      (customDb .owner (.obj [])) [tokenCall secondOwner, tokenCall disableCarol] := by
  have howner : HasOwner (customDb .owner (.obj [])) := by decide +kernel
  refine ⟨howner, (owner_left_iff tokenGate _ _ howner).mpr ⟨?_, ?_, trivial⟩⟩
  · rintro c i id hash input he hop
    obtain rfl := Event.call.inj he
    cases hop
  · rintro c i id hash input he hop - -
    obtain rfl := Event.call.inj he
    obtain ⟨rfl, -, -⟩ := Op.updateAdmin.inj hop
    exact .inr (.inl (by decide +kernel))

/-- The shared token has no account of its own, so that the check of the handler never applies to it. -/
theorem last_owner_disabled : HasOwner (customDb .owner (.obj [])) ∧
    requireAuth tokenGate .none 0 (customDb .owner (.obj []))
      ⟨⟨some "Bearer root", none, none, none, none, none⟩, disableCarol.route.1, disableCarol.route.2⟩ = .ok .legacy ∧
    ¬ HasOwner (authStep tokenGate (customDb .owner (.obj [])) (tokenCall disableCarol)) := by
  decide +kernel

/-! ### A custom role stays in force -/

variable (a : Uuid)

/-- The administrator has a custom role. -/
def HasRole (db : AuthDb) : Prop := ∃ r, db.admins.find? a = some r ∧ r.customRoleId.isSome

/-- The event is an update that clears the custom role of the administrator. -/
def Clears (db : AuthDb) (e : Event) : Prop :=
  (∃ c hash input, e = .call c ∧ c.op = .updateAdmin a hash input ∧ input.customRoleId = .null) ∧
    ¬ HasRole a (authStep g db e)

variable (i : Identity)

/-- Rank decides what the identity may do. -/
def Identity.ByLadder : Prop := i.role ≠ .reseller ∧ i.permissions = none

/-- A request of a session of the administrator is not let in by rank. -/
def OnMatrix (db : AuthDb) (e : Event) : Prop :=
  ∀ c i, e = .call c → c.head.bearer = none → requireAuth g c.faults c.now db c.request = .ok i →
    i.adminId = some a → ¬ i.ByLadder

/-- The custom role of the administrator is not deleted, and it is found where one of their sessions
    asks for something. -/
def RoleKept (db : AuthDb) (e : Event) : Prop :=
  ∀ c i, e = .call c → requireAuth g c.faults c.now db c.request = .ok i →
    (∀ r, c.op = .deleteCustomRole r → (db.admins.find? a).bind (·.customRoleId) ≠ some r) ∧
      (c.head.bearer = none → i.adminId = some a → c.faults.role = false)

section

variable {g : Gate} {f : Faults} {now : ℤ} {db : AuthDb} {h : Head} {i : Identity} {a : Uuid} {e : Event}

theorem not_clears {c : ApiCall} (h : ∀ hash input, c.op ≠ .updateAdmin a hash input) : ¬ Clears g a db (.call c) := by
  rintro ⟨⟨c', hash, input, hc, hop, -⟩, -⟩
  obtain rfl := Event.call.inj hc
  exact h hash input hop

theorem onMatrix_of_hasRole (hrole : HasRole a db) (hkept : RoleKept g a db e) : OnMatrix g a db e := by
  rintro c i rfl hbearer hi hadmin ⟨-, hnone⟩
  have hfound := (hkept c i rfl hi).2 hbearer hadmin
  obtain ⟨-, token, s, admin, -, -, -, hfind, -, rfl⟩ := (identify_session hbearer).mp (requireAuth_eq_ok.mp hi).1
  obtain rfl : admin.id = a := some.inj hadmin
  obtain ⟨hmem, hid⟩ := find?_eq_some.mp hfind
  obtain ⟨r, hr, hsome⟩ := hrole
  rw [hid, hfind] at hr
  obtain rfl := some.inj hr
  obtain ⟨role, hroleid⟩ := isSome_iff_exists.mp hsome
  -- the row of the role is there, so the matrix is
  have hrow := db.assigned admin hmem role hroleid
  obtain ⟨row, hrow⟩ := isSome_iff_exists.mp hrow
  simp [sessionIdentity, hroleid, hfound, customRolePermissions, hrow] at hnone

theorem hasRole_step (hrole : HasRole a db) (hclear : ¬ Clears g a db e) (hkept : RoleKept g a db e) :
    HasRole a (authStep g db e) := by
  obtain ⟨r, hr, hsome⟩ := id hrole
  cases authStep_effect g db e with
  | same hsame => exact ⟨r, hsame ▸ hr, hsome⟩
  | created b hnew hput =>
    have hne : a ≠ b.id := by
      rintro rfl
      rw [hnew] at hr
      cases hr
    exact ⟨r, by rw [hput, find?_put_of_ne hne, hr], hsome⟩
  | @updated c _ i b hash hash' input hi hop hcheck hrow hb hupdated =>
    obtain ⟨role, hleaves, hfind⟩ := hupdated
    by_cases hk : a = b.id
    · subst hk
      obtain rfl := some.inj (hr.symm.trans hb)
      have hfound : role.isSome → HasRole r.id (authStep g db (.call c)) :=
        fun hrole' => ⟨{ input.apply hash' r with customRoleId := role }, by rw [hfind, if_pos rfl], hrole'⟩
      rw [LeavesRole] at hleaves
      cases hpatch : input.customRoleId with
      | missing =>
        rw [hpatch] at hleaves
        exact hfound (hleaves ▸ hsome)
      | null =>
        by_contra hno
        exact hclear ⟨⟨c, hash, input, rfl, hop, hpatch⟩, hno⟩
      | value x =>
        rw [hpatch] at hleaves
        rcases hleaves with hold | hnew
        · exact hfound (hold ▸ hsome)
        · exact hfound (hnew ▸ rfl)
    · exact ⟨r, by rw [hfind, if_neg hk, hr], hsome⟩
  | @deleted c _ i x hi hop hfind =>
    have hne : r.customRoleId ≠ some x := by
      simpa [hr] using (hkept c i rfl hi).1 x hop
    refine ⟨r, ?_, hsome⟩
    rw [hfind, hr, map_some, Admin.lose, if_neg hne]

end

/-- Once an administrator has a custom role: along every run that does not clear it, deletes no such role
    and finds it whenever it is looked up, no request of their sessions is let in by rank. -/
theorem matrix_in_force (g : Gate) (a : Uuid) (db : AuthDb) (es : List Event) (hrole : HasRole a db)
    (hclear : Always (authStep g) (fun s e => ¬ Clears g a s e) db es)
    (hkept : Always (authStep g) (RoleKept g a) db es) : Always (authStep g) (OnMatrix g a) db es :=
  always_of_inv (fun _ _ hs h => hasRole_step hs h.1 h.2)
    (fun _ _ hs h => onMatrix_of_hasRole hs h.2) es db hrole ((always_and es db).mpr ⟨hclear, hkept⟩)

/-- `carol` asks for the nodes; the lookup of the custom role may fail. -/
def carolReads (fails : Bool) : Event :=
  .call ⟨0, { Faults.none with role := fails }, cookieHead, .other .get "/nodes" [] [] []⟩

/-- The custom role is edited. -/
def grantNodes : Op := .updateCustomRole 5 ⟨none, some (.obj [("nodes", .int 1)])⟩

theorem edited_role_in_force : requireAuth tokenGate .none 0
    (authStep tokenGate (customDb .owner (.obj [])) (tokenCall grantNodes)) ⟨cookieHead, .get, "/nodes"⟩ =
      .ok (custom .owner [("nodes", 1)]) ∧
    Always (authStep tokenGate) (OnMatrix tokenGate 1) (customDb .owner (.obj []))
      [tokenCall grantNodes, carolReads false] := by
  refine ⟨by decide +kernel, matrix_in_force tokenGate 1 _ _ ⟨_, rfl, rfl⟩
    ⟨not_clears (by simp [grantNodes]), not_clears (by simp), trivial⟩ ⟨?_, ?_, trivial⟩⟩
  all_goals
    rintro c i he -
    obtain rfl := Event.call.inj he
    exact ⟨fun r hop => (nomatch hop), fun _ _ => rfl⟩

/-- What `carol` is without the custom role. -/
def byRank : Identity := ⟨some 1, "carol", .owner, some "t", none⟩

/-- The role is deleted, or its lookup fails: nobody has cleared the assignment, and rank decides. -/
theorem deleted_role_by_rank : HasRole 1 (customDb .owner (.obj [])) ∧
    Always (authStep tokenGate) (fun s e => ¬ Clears tokenGate 1 s e) (customDb .owner (.obj []))
      [tokenCall (.deleteCustomRole 5), carolReads false] ∧
    ¬ Always (authStep tokenGate) (OnMatrix tokenGate 1) (customDb .owner (.obj []))
      [tokenCall (.deleteCustomRole 5), carolReads false] ∧
    ¬ OnMatrix tokenGate 1 (customDb .owner (.obj [])) (carolReads true) := by
  have hladder : byRank.ByLadder := ⟨by decide, rfl⟩
  refine ⟨⟨_, rfl, rfl⟩, ⟨not_clears (by simp), not_clears (by simp), trivial⟩, ?_, ?_⟩
  · rintro ⟨-, hmatrix, -⟩
    exact hmatrix _ byRank rfl rfl (by decide +kernel) rfl hladder
  · intro hmatrix
    exact hmatrix _ byRank rfl rfl (by decide +kernel) rfl hladder

/-! ### Nobody gains -/

/-- What a request shows to be identified. -/
inductive AuthCredential where
  | token
  | key (hash : String)
  | admin (id : Uuid)

def presents (db : AuthDb) (h : Head) : Option AuthCredential :=
  match h.bearer with
  | some token =>
    if g.apiToken = some token then some .token
    else (db.apiKeys.find? (g.tokenHash token)).map fun k => .key k.keyHash
  | none => (h.cookieNamed "honey_session").bind fun token =>
    (db.sessions.find? (g.tokenHash token)).map fun s => .admin s.adminId

/-- The credential was created or changed between two states: its row, or the row of its custom role. -/
def Changed (db db' : AuthDb) : AuthCredential → Prop
  | .token => False
  | .key hash => db'.apiKeys.find? hash ≠ db.apiKeys.find? hash
  | .admin id => db'.admins.find? id ≠ db.admins.find? id ∨
      ∃ a r, db'.admins.find? id = some a ∧ a.customRoleId = some r ∧ db'.customRoles.find? r ≠ db.customRoles.find? r

/-- Whoever is identified by a credential that has changed, after any logins, is let do only what the identity was. -/
def AuthorityKept (db db' : AuthDb) : Prop :=
  ∀ sessions f now h j credential, identify g f now { db' with sessions := sessions } h = .ok j →
    presents g { db' with sessions := sessions } h = some credential → Changed db db' credential →
    ∀ m path, authorize j m path = .ok () → authorize i m path = .ok ()

/-- A request with the same token and cookie, let in and carried out; the lookup of the custom role ends
    as it did for the identity. -/
def AdmittedFor (f : Faults) (h : Head) (db : AuthDb) (e : Event) : Prop :=
  ∃ c i, e = .call c ∧ c.head.authorization = h.authorization ∧ c.head.cookie = h.cookie ∧
    c.faults.role = f.role ∧ requireAuth g c.faults c.now db c.request = .ok i ∧
    (answer g db c).2 = .ok ()

/-- The identity gains nothing by what it may do: it has no matrix in force, or one that does not write
    administrators, or one that writes everything. -/
def Contained : Prop :=
  ∀ p, i.permissions = some p → i.role = .reseller ∨ p.level .admin < 2 ∨ ∀ d, d ≠ .dashboard → 2 ≤ p.level d

/-- The identity may write administrators, custom roles and API keys. -/
def CanAdmin : Prop :=
  i.role ≠ .reseller ∧ match i.permissions with
    | some p => 2 ≤ p.level .admin
    | none => i.role = .owner

/-- The words under which they are written. -/
def adminWords : List (String × Domain) :=
  [("api-keys", .admin), ("admins", .admin), ("custom-roles", .admin)]

/-- Nothing that authority rests on has changed, and no session is new. -/
structure SameAuthority (db db' : AuthDb) : Prop where
  admins : db'.admins = db.admins
  apiKeys : db'.apiKeys = db.apiKeys
  customRoles : db'.customRoles = db.customRoles
  sessions : ∀ k s, db'.sessions.find? k = some s → db.sessions.find? k = some s

section

variable {g : Gate} {f f' : Faults} {now now' : ℤ} {db db' : AuthDb} {h h' : Head} {i j : Identity}
  {m : Method} {path : String} {w : String × Domain}

theorem pathDomain_of_adminWord (hw : w ∈ adminWords) (hopen : Opens path ("/" ++ w.1)) :
    Guarded path ∧ pathDomain path = .admin := by
  have hwords : ∀ w ∈ adminWords, w ∈ domainWords ∧ w.2 = .admin ∧ ∀ v ∈ domainWords,
      v.1.toList <+: w.1.toList ∨ w.1.toList <+: v.1.toList → v.2 = w.2 := by decide
  obtain ⟨hword, hadmin, hsame⟩ := hwords w hw
  exact ⟨⟨w, hword, unslashed_of_opens hword hopen⟩, (pathDomain_of_opens hword hopen hsame).trans hadmin⟩

theorem requiredRole_of_adminWord (hw : w ∈ adminWords) (hopen : Opens path ("/" ++ w.1)) :
    requiredRole m path = .owner := by
  have hwords : ∀ w ∈ adminWords, "/" ++ w.1 ∈ ownerPaths ∧ ∀ word ∈ ["/notifications", "/auth/", "/saved-views"],
        ¬ (("/" ++ w.1).toList <+: word.toList ∨ word.toList <+: ("/" ++ w.1).toList) := by decide
  obtain ⟨howner, hapart⟩ := hwords w hw
  have hnot := fun word hword => not_opens hopen (hapart word hword)
  have hsessions := not_sessions (hnot "/auth/" (by decide))
  rw [requiredRole, if_neg (hnot _ (by decide)), if_neg hsessions, if_neg (hnot _ (by decide)),
    if_pos ⟨_, howner, hopen⟩]

theorem authorize_adminWord (hw : w ∈ adminWords) (hopen : Opens path ("/" ++ w.1))
    (hm : m.reads = false) : authorize i m path = .ok () ↔ CanAdmin i := by
  have hrequired : requiredRole m path = .owner := requiredRole_of_adminWord hw hopen
  obtain ⟨hguard, hdomain⟩ := pathDomain_of_adminWord hw hopen
  rw [CanAdmin]
  by_cases hrole : i.role = .reseller
  · rw [authorize_reseller hrole]
    refine iff_of_false (fun hpermits => ?_) fun hcan => hcan.1 hrole
    have husers : ∀ w ∈ adminWords, ¬ (("/" ++ w.1).toList <+: "/users".toList ∨
        "/users".toList <+: ("/" ++ w.1).toList) := by decide
    rcases resellerPermits_cases hpermits with hplain | hown
    · exact hplain.2 hrequired
    · exact not_opens hopen (husers w hw) (opens_of_ownUsers hown)
  · rw [and_iff_right hrole]
    cases hp : i.permissions with
    | some p =>
      rw [authorize_matrix hrole hp, hdomain, or_iff_right (not_not.mpr hguard)]
      simp [Method.need, hm]
    | none =>
      rw [authorize_ladder hrole hp, hrequired]
      cases i.role <;> simp [Role.rank]

/-- Every handler that writes identities is reached by such a word. -/
theorem route_cases (op : Op) : (∃ m path ended adminIps nodeGroups, op = .other m path ended adminIps nodeGroups) ∨
      op.route.1.reads = false ∧ ∃ w ∈ adminWords, Opens op.route.2 ("/" ++ w.1) := by
  have hbelow : ∀ word text : String, Opens ("/" ++ word ++ "/" ++ text) ("/" ++ word) := by
    intro word text
    exact ⟨"/".toList ++ text.toList, by simp⟩
  cases op with
  | createAdmin id hash input => exact .inr ⟨rfl, ("admins", .admin), by decide, List.prefix_refl _⟩
  | updateAdmin id hash input =>
    exact .inr ⟨rfl, ("admins", .admin), by decide, hbelow "admins" id.text⟩
  | createCustomRole id input =>
    exact .inr ⟨rfl, ("custom-roles", .admin), by decide, List.prefix_refl _⟩
  | updateCustomRole id input | deleteCustomRole id =>
    exact .inr ⟨rfl, ("custom-roles", .admin), by decide, hbelow "custom-roles" id.text⟩
  | createApiKey id token input =>
    exact .inr ⟨rfl, ("api-keys", .admin), by decide, List.prefix_refl _⟩
  | revokeApiKey id =>
    exact .inr ⟨rfl, ("api-keys", .admin), by decide, hbelow "api-keys" id.text⟩
  | other m path ended adminIps nodeGroups => exact .inl ⟨m, path, ended, adminIps, nodeGroups, rfl⟩

theorem identify_stable (hauthorization : h'.authorization = h.authorization)
    (hcookie : h'.cookie = h.cookie) (hrole : f'.role = f.role) (hsame : SameAuthority db db')
    (hi : identify g f now db h = .ok i) (hj : identify g f' now' db' h' = .ok j) : j = i := by
  have hbearer' : h'.bearer = h.bearer := by rw [Head.bearer, Head.bearer, hauthorization]
  cases hbearer : h.bearer with
  | some token =>
    rw [hbearer] at hbearer'
    rcases identify_bearer hbearer hi with ⟨htoken, rfl⟩ | ⟨htoken, key, hkey, rfl⟩
    · rcases identify_bearer hbearer' hj with ⟨-, rfl⟩ | ⟨hne, -⟩
      · rfl
      · exact absurd htoken hne
    rcases identify_bearer hbearer' hj with ⟨heq, -⟩ | ⟨-, key', hkey', rfl⟩
    · exact absurd heq htoken
    · rw [hsame.apiKeys, hkey] at hkey'
      rw [some.inj hkey']
  | none =>
    rw [hbearer] at hbearer'
    obtain ⟨-, token, s, admin, htoken, hs, -, hadmin, -, rfl⟩ := (identify_session hbearer).mp hi
    obtain ⟨-, token', s', admin', htoken', hs', -, hadmin', -, rfl⟩ := (identify_session hbearer').mp hj
    rw [Head.cookieNamed, hcookie, ← Head.cookieNamed, htoken] at htoken'
    obtain rfl := some.inj htoken'
    obtain rfl := some.inj (hs.symm.trans (hsame.sessions _ _ hs'))
    rw [hsame.admins, hadmin] at hadmin'
    obtain rfl := some.inj hadmin'
    simp [sessionIdentity, customRolePermissions, hsame.customRoles, hrole]

/-- Who may not write identities changes nothing that authority rests on. -/
theorem sameAuthority_step {s : AuthDb} {e : Event} (hi : identify g f now db h = .ok i)
    (hno : ¬ CanAdmin i) (hsame : SameAuthority db s) (hadmitted : AdmittedFor g f h s e) :
    SameAuthority db (authStep g s e) := by
  obtain ⟨c, j, rfl, hauthorization, hcookie, hrole, hj, -⟩ := hadmitted
  obtain ⟨hidentify, -, hauthorize⟩ := requireAuth_eq_ok.mp hj
  obtain rfl := identify_stable hauthorization hcookie hrole hsame hi hidentify
  rcases route_cases c.op with ⟨m, path, ended, adminIps, nodeGroups, hop⟩ | ⟨hm, w, hw, hopen⟩
  · rw [authStep, answer, hj]
    simp only [hop]
    refine ⟨hsame.admins, hsame.apiKeys, hsame.customRoles, fun k x hx => hsame.sessions k x ?_⟩
    obtain ⟨hmem, hk⟩ := find?_eq_some.mp hx
    exact find?_eq_some.mpr ⟨(mem_keep.mp hmem).1, hk⟩
  · exact absurd ((authorize_adminWord hw hopen hm).mp hauthorize) hno

theorem not_changed (hsame : SameAuthority db db') (credential : AuthCredential) : ¬ Changed db db' credential := by
  cases credential with
  | token => exact id
  | key hash => exact fun hne => hne (by rw [hsame.apiKeys])
  | admin id =>
    rintro (hne | ⟨a, r, -, -, hne⟩)
    · exact hne (by rw [hsame.admins])
    · exact hne (by rw [hsame.customRoles])

theorem authorize_owner (hrole : i.role = .owner) (hp : i.permissions = none) : authorize i m path = .ok () := by
  rw [authorize_ladder (by rw [hrole]; decide) hp, hrole]
  cases requiredRole m path <;> decide

/-- Who is contained and may write identities may do everything. -/
theorem authorize_of_contained (hcontained : Contained i) (hcan : CanAdmin i) : authorize i m path = .ok () := by
  obtain ⟨hrole, hcan⟩ := hcan
  cases hp : i.permissions with
  | none =>
    rw [hp] at hcan
    exact authorize_owner hcan hp
  | some p =>
    rw [hp] at hcan
    have hall : ∀ d, d ≠ .dashboard → 2 ≤ p.level d := by
      rcases hcontained p hp with hreseller | hlow | hall
      · exact absurd hreseller hrole
      · exact absurd hcan (not_le.mpr hlow)
      · exact hall
    rw [authorize_matrix hrole hp, or_iff_not_imp_left, not_not]
    intro hguard
    have hneed : m.need ≤ 2 := by
      rw [Method.need]
      split <;> decide
    exact hneed.trans (hall _ fun hd => pathDomain_eq_dashboard.mp hd hguard)

/-- The body that makes its target an owner without a custom role. -/
def promotion : UpdateAdminInput := ⟨some "owner", none, none, none, none, none, none, none, .null⟩

/-- The call that sends it. -/
def promote (f : Faults) (now : ℤ) (h : Head) (id : Uuid) : ApiCall where
  now := now
  faults := { f with row := false, assign := false }
  head := { h with secFetchSite := none, origin := none, host := none }
  op := .updateAdmin id "" promotion

/-- What it makes of the target. -/
def Admin.promoted (a : Admin) : Admin := { promotion.apply none a with customRoleId := none }

theorem promotion_done {a : Admin} (ha : db.admins.find? a.id = some a) (hrow : f.row = false)
    (hassign : f.assign = false) : ∃ after, updateAdmin f i a.id "" promotion db = (after, .ok ()) ∧
      after.sessions = db.sessions ∧ after.admins.find? a.id = some a.promoted := by
  have hcheck : checkUpdate i a.id "" promotion = .ok none := by
    rw [checkUpdate, if_neg (by decide), if_neg (fun h => nomatch h.2)]
    rfl
  have hassigned : ∀ s : AuthDb, attempt f.assign (setAdminCustomRole a.id .null) s =
      .ok (s.assign a.id none nofun) := fun s => attempt_eq_ok.mpr ⟨hassign, rfl⟩
  have hafter : afterUpdate f a.id none promotion = [attempt f.assign (setAdminCustomRole a.id .null)] := rfl
  refine ⟨(db.updateAdmin a.id (promotion.apply none) fun _ => ⟨rfl, rfl⟩).assign a.id none nofun, ?_, rfl, ?_⟩
  · rw [updateAdmin, perform_ok hcheck, hafter]
    simp [statements, attempt_updateAdminRow hrow ha, hassigned]
  · rw [find?_assign, if_pos rfl, find?_updateAdmin ha, if_pos rfl]
    rfl

theorem promote_answered {a : Admin} {req : ApiRequest} (hi : requireAuth g f now db req = .ok i)
    (hbearer : req.head.bearer = none) (hcan : CanAdmin i) (ha : db.admins.find? a.id = some a) :
    ∃ after, AdmittedFor g f req.head db (.call (promote f now req.head a.id)) ∧
      authStep g db (.call (promote f now req.head a.id)) = after ∧
      after.sessions = db.sessions ∧ after.admins.find? a.id = some a.promoted := by
  set c := promote f now req.head a.id with hc
  obtain ⟨hid, hscreen, -⟩ := requireAuth_eq_ok.mp hi
  have hin : requireAuth g c.faults now db c.request = .ok i := by
    refine requireAuth_eq_ok.mpr ⟨?_, ?_, ?_⟩
    · exact (identify_session hbearer).mpr ((identify_session hbearer).mp hid)
    · exact screen_eq_ok.mpr ⟨(screen_eq_ok.mp hscreen).1, fun _ _ => ⟨nofun, rfl⟩⟩
    · rcases route_cases c.op with ⟨_, _, _, _, _, hop⟩ | ⟨hm, w, hw, hopen⟩
      · cases hop
      · exact (authorize_adminWord hw hopen hm).mpr hcan
  obtain ⟨after, hupdate, hsessions, hadmins⟩ := promotion_done (f := c.faults) ha rfl rfl
  have hanswer : answer g db c = (after, .ok ()) := by
    rw [answer, show c.now = now from rfl, hin]
    exact hupdate
  exact ⟨after, ⟨_, i, rfl, rfl, rfl, rfl, hin, by rw [hanswer]⟩, by rw [authStep, hanswer], hsessions, hadmins⟩

/-- A matrix that may write administrators but not everything is thrown off in one request. -/
theorem authority_raised {req : ApiRequest} {p : Matrix} {d : Domain}
    (hi : requireAuth g f now db req = .ok i) (hp : i.permissions = some p) (hcan : CanAdmin i)
    (hd : d ≠ .dashboard) (hlow : p.level d < 2) :
    ∃ e, AdmittedFor g f req.head db e ∧ ¬ AuthorityKept g i db (authStep g db e) := by
  have hid := (requireAuth_eq_ok.mp hi).1
  -- only a session has a matrix
  have hbearer : req.head.bearer = none := by
    by_contra hsome
    obtain ⟨token, htoken⟩ := ne_none_iff_exists'.mp hsome
    rcases identify_bearer htoken hid with ⟨-, rfl⟩ | ⟨-, key, -, rfl⟩
    · cases hp
    · cases hp
  obtain ⟨hsession, token, s, a, hcookie, hs, hlive, hfind, henabled, rfl⟩ := (identify_session hbearer).mp hid
  obtain ⟨-, haid⟩ := find?_eq_some.mp hfind
  have ha : db.admins.find? a.id = some a := haid ▸ hfind
  obtain ⟨after, hadmitted, hafter, hsessions, hadmins⟩ := promote_answered hi hbearer hcan ha
  refine ⟨_, hadmitted, fun hkept => ?_⟩
  rw [hafter] at hkept
  -- the same cookie now belongs to an owner without a matrix
  have howner : identify g f now after req.head = .ok (sessionIdentity f after a.promoted (g.tokenHash token)) :=
    (identify_session hbearer).mpr ⟨hsession, token, s, a.promoted, hcookie, by rw [hsessions, hs], hlive,
      haid ▸ hadmins, henabled, rfl⟩
  have hpresents : presents g after req.head = some (.admin a.id) := by
    simp [presents, hbearer, hcookie, hsessions, hs, haid]
  have hchanged : Changed db after (.admin a.id) := by
    refine .inl fun hsame => ?_
    rw [hadmins, ha] at hsame
    have hnone : a.customRoleId = none := by
      rw [← some.inj hsame]
      rfl
    simp [sessionIdentity, hnone] at hp
  -- and writes in the domain that the matrix kept closed
  have hwords : ∀ d, d ≠ .dashboard → ∃ w ∈ domainWords, pathDomain ("/" ++ w.1) = d := by
    intro d
    cases d <;> decide
  obtain ⟨w, -, hw⟩ := hwords d hd
  have hauthorized := hkept after.sessions f now req.head _ _ howner hpresents hchanged .post ("/" ++ w.1)
    (authorize_owner rfl rfl)
  rw [authorize_matrix hcan.1 hp, ← pathDomain_eq_dashboard, hw] at hauthorized
  rcases hauthorized with hdash | hneed
  · exact hd hdash
  · exact absurd hneed (not_le.mpr hlow)

end

/-- Nobody gains by any sequence of their own requests exactly if they are contained. -/
theorem authority_kept_iff (g : Gate) (f : Faults) (now : ℤ) (db : AuthDb) (req : ApiRequest) (i : Identity)
    (hi : requireAuth g f now db req = .ok i) : (∀ es, Always (authStep g) (AdmittedFor g f req.head) db es →
      AuthorityKept g i db (es.foldl (authStep g) db)) ↔ Contained i := by
  constructor
  · intro hkept p hp
    by_contra hno
    simp only [not_or, not_lt, not_forall, not_le] at hno
    obtain ⟨hrole, hadmin, d, hd, hlow⟩ := hno
    have hcan : CanAdmin i := ⟨hrole, by rw [hp]; exact hadmin⟩
    obtain ⟨e, hadmitted, hraised⟩ := authority_raised hi hp hcan hd hlow
    exact hraised (hkept [e] ⟨hadmitted, trivial⟩)
  · intro hcontained es hes sessions f' now' h j credential _ _ hchanged m path _
    by_cases hcan : CanAdmin i
    · exact authorize_of_contained hcontained hcan
    have hid := (requireAuth_eq_ok.mp hi).1
    have hstart : SameAuthority db db := ⟨rfl, rfl, rfl, fun _ _ hs => hs⟩
    have hsame := inv_run (fun _ _ => sameAuthority_step hid hcan) es db hstart hes
    exact absurd hchanged (not_changed hsame credential)

/-- Who writes users only. -/
theorem users_writer_contained : requireAuth plainGate .none 0
    (customDb .viewer (.obj [("users", .int 2)])) ⟨cookieHead, .post, "/users"⟩ = .ok (custom .viewer [("users", 2)]) ∧
    ∀ es, Always (authStep plainGate) (AdmittedFor plainGate .none cookieHead)
      (customDb .viewer (.obj [("users", .int 2)])) es →
        AuthorityKept plainGate (custom .viewer [("users", 2)]) (customDb .viewer (.obj [("users", .int 2)]))
          (es.foldl (authStep plainGate) (customDb .viewer (.obj [("users", .int 2)]))) := by
  have hin : requireAuth plainGate .none 0 (customDb .viewer (.obj [("users", .int 2)]))
      ⟨cookieHead, .post, "/users"⟩ = .ok (custom .viewer [("users", 2)]) := by decide +kernel
  refine ⟨hin, (authority_kept_iff plainGate .none 0 _ ⟨cookieHead, .post, "/users"⟩ _ hin).mpr ?_⟩
  rintro p hp
  obtain rfl := some.inj hp
  exact .inr (.inl (by decide))

/-- `carol` may write administrators and nothing else, and becomes an owner. -/
theorem self_promotion :
    (answer plainGate (customDb .viewer (.obj [("admin", .int 2)])) (promote .none 0 cookieHead 1)).2 = .ok () ∧
    authorize (custom .viewer [("admin", 2)]) .post "/nodes" ≠ .ok () ∧
    requireAuth plainGate .none 0 (authStep plainGate (customDb .viewer (.obj [("admin", .int 2)]))
      (.call (promote .none 0 cookieHead 1))) ⟨cookieHead, .post, "/nodes"⟩ = .ok byRank ∧
    ¬ AuthorityKept plainGate (custom .viewer [("admin", 2)]) (customDb .viewer (.obj [("admin", .int 2)]))
      (authStep plainGate (customDb .viewer (.obj [("admin", .int 2)])) (.call (promote .none 0 cookieHead 1))) := by
  have hclosed : authorize (custom .viewer [("admin", 2)]) .post "/nodes" ≠ .ok () := by decide +kernel
  have hopen : requireAuth plainGate .none 0 (authStep plainGate
      (customDb .viewer (.obj [("admin", .int 2)])) (.call (promote .none 0 cookieHead 1)))
        ⟨cookieHead, .post, "/nodes"⟩ = .ok byRank := by decide +kernel
  obtain ⟨hid, -, hauthorize⟩ := requireAuth_eq_ok.mp hopen
  refine ⟨by decide +kernel, hclosed, hopen, fun hkept => hclosed ?_⟩
  refine hkept _ .none 0 cookieHead byRank _ hid rfl (.inl ?_) .post "/nodes" hauthorize
  decide +kernel

end Honey.Master
