import Honey.Master.Resellers

/-! Restriction of the tables to a set of users.

        s -------- edit of a user of the set ------> s'
        | only the set                               | only the set
        v                                            v
        s₀ ------- the same edit ------------------> s₀'

    The restriction commutes with every edit of a user of the set, if the edit meets no name, alias or
    token outside it (`run_only`), and forgets every edit of another user (`run_only_other`). -/

namespace Honey.Master
open Honey.Schemes List Option Table UserDb Except

/-! ### Restriction to some users -/

/-- The rows about the users that pass. -/
def Db.only (p : Uuid → Bool) (db : Db) : Db :=
  { db with
    users := db.users.keep fun u => p u.id
    userGroupAccess := db.userGroupAccess.filter fun g => p g.1
    traffic := db.traffic.keep fun r => p r.userId
    hourly := db.hourly.keep fun r => p r.userId
    wgPeers := db.wgPeers.keep fun w => p w.userId }

def UserDb.only (p : Uuid → Bool) (s : UserDb) : UserDb where
  db := s.db.only p
  profiles := s.profiles.keep fun q => p q.id
  subscriptions := s.subscriptions.keep fun l => p l.userId
  usernames := (filter_sublist.map _).nodup s.usernames
  aliases := fun q hq => s.aliases q (mem_keep.mp hq).1

theorem UserDb.ext {s t : UserDb} (hdb : s.db = t.db) (hp : s.profiles = t.profiles)
    (hs : s.subscriptions = t.subscriptions) : s = t := by
  cases s
  cases t
  simp only [mk.injEq]
  exact ⟨hdb, hp, hs⟩

section

variable {p : Uuid → Bool} {s : UserDb} {id : Uuid}

theorem find?_only (s : UserDb) (p : Uuid → Bool) (id : Uuid) :
    (s.only p).db.users.find? id = (s.db.users.find? id).filter fun u => p u.id := find?_keep

theorem find?_only_of (hp : p id) : (s.only p).db.users.find? id = s.db.users.find? id :=
  find?_keep_of fun _ hu => (find?_eq_some.mp hu).2.symm ▸ hp

theorem profile_only (hp : p id) : (s.only p).profile id = s.profile id := by
  have hfind : (s.only p).profiles.find? id = s.profiles.find? id :=
    find?_keep_of fun _ hq => (find?_eq_some.mp hq).2.symm ▸ hp
  rw [profile, profile, hfind]

theorem row_only (hp : p id) : ((s.only p).db.users.find? id).map (s.only p).row = (s.db.users.find? id).map s.row := by
  rw [find?_only_of hp]
  cases hf : s.db.users.find? id with
  | none => rfl
  | some u =>
    obtain ⟨-, rfl⟩ := find?_eq_some.mp hf
    rw [map_some, map_some, row, row, profile_only hp]

theorem getUser_only (env : Env) (hp : p id) : getUser env (s.only p) id = getUser env s id := by
  rw [getUser, getUser, row_only hp]

theorem NameFree.only {name : String} (h : s.NameFree id name) : (s.only p).NameFree id name :=
  fun v hv => h v (mem_keep.mp hv).1

/-! ### Writes of single rows -/

theorem only_putUser {u : User} {h : s.NameFree u.id u.username} (hp : p u.id) :
    (s.putUser u h).only p = (s.only p).putUser u (NameFree.only h) := by
  simp [only, putUser, Db.only, keep_put p, if_pos hp]

theorem only_putUser_other {u : User} {h : s.NameFree u.id u.username} (hp : ¬ p u.id) :
    (s.putUser u h).only p = s.only p := by
  simp [only, putUser, Db.only, keep_put p, if_neg hp]

theorem only_putProfile {q : Profile} {h : ∀ a ∈ q.subscriptionAlias, plainAlias a} (hp : p q.id) :
    (s.putProfile q h).only p = (s.only p).putProfile q h := by
  simp [only, putProfile, keep_put p, if_pos hp]

theorem only_putProfile_other {q : Profile} {h : ∀ a ∈ q.subscriptionAlias, plainAlias a} (hp : ¬ p q.id) :
    (s.putProfile q h).only p = s.only p := by
  simp [only, putProfile, keep_put p, if_neg hp]

variable {now : ℤ} {f : Profile → Profile} {hf : ∀ q, (f q).id = q.id ∧ (f q).subscriptionAlias = q.subscriptionAlias}

theorem only_amend (hp : p id) : (s.amend id now f hf).only p = (s.only p).amend id now f hf := by
  have hid : (f (s.profile id)).id = id := (hf _).1.trans (s.profile_id id)
  rw [amend, only_putProfile (by rw [hid, hp])]
  simp [amend, profile_only hp]

theorem only_amend_other (hp : ¬ p id) : (s.amend id now f hf).only p = s.only p := by
  have hid : (f (s.profile id)).id = id := (hf _).1.trans (s.profile_id id)
  exact only_putProfile_other (by rw [hid]; exact hp)

variable {c : User → User} {hc : ∀ u, (c u).id = u.id ∧ (c u).username = u.username}

theorem only_changeUser : (s.changeUser id c hc).only p = (s.only p).changeUser id c hc := by
  have hrows : (s.db.users.rows.map fun u => if u.id = id then c u else u).filter (fun u => p u.id) =
      (s.db.users.rows.filter fun u => p u.id).map fun u => if u.id = id then c u else u := by
    rw [List.filter_map]
    congr 1
    refine filter_congr fun u _ => ?_
    by_cases hu : u.id = id <;> simp [hu, hc]
  simp [only, changeUser, withDb, Db.only, keep, alter, hrows]

theorem changeUser_absent (h : s.db.users.find? id = none) : s.changeUser id c hc = s := by
  have hrows : (s.db.users.rows.map fun u => if u.id = id then c u else u) = s.db.users.rows := by
    conv_rhs => rw [← map_id s.db.users.rows]
    refine map_congr_left fun u hu => if_neg fun hid => ?_
    exact find?_eq_none.mp h (hid ▸ mem_map_of_mem hu)
  simp [changeUser, withDb, alter, hrows]

theorem only_changeUser_other (hp : ¬ p id) : (s.changeUser id c hc).only p = s.only p := by
  rw [only_changeUser]
  refine changeUser_absent ?_
  rw [find?_only, filter_eq_none_iff]
  intro u hu
  obtain ⟨-, rfl⟩ := find?_eq_some.mp hu
  exact hp

theorem deleteUser_eq (s : UserDb) (id : Uuid) : s.deleteUser id = s.only (· ≠ id) := rfl

theorem only_only (s : UserDb) (p q : Uuid → Bool) : (s.only p).only q = s.only fun i => p i && q i := by
  have hfilter : ((s.db.userGroupAccess.filter fun g => p g.1).filter fun g => q g.1) =
      s.db.userGroupAccess.filter fun g => p g.1 && q g.1 :=
    filter_filter.trans (filter_congr fun g _ => Bool.and_comm _ _)
  simp [only, Db.only, keep_keep, hfilter]

theorem only_deleteUser : (s.deleteUser id).only p = (s.only p).deleteUser id := by
  rw [deleteUser_eq, deleteUser_eq, only_only, only_only]
  simp [Bool.and_comm]

theorem ne_and_other (hp : ¬ p id) (i : Uuid) : (decide (i ≠ id) && p i) = p i := by
  by_cases hi : i = id
  · simp [hi, hp]
  · simp [hi]

theorem only_deleteUser_other (hp : ¬ p id) : (s.deleteUser id).only p = s.only p := by
  rw [deleteUser_eq, only_only]
  exact congrArg s.only (funext (ne_and_other hp))

/-! ### Statements -/

theorem only_reset (hp : p id) : (resetTraffic now id s).map (·.only p) = resetTraffic now id (s.only p) := by
  rw [resetTraffic, resetTraffic, find?_only_of hp, Option.map_map]
  refine map_congr fun u hu => ?_
  obtain ⟨-, huid⟩ := find?_eq_some.mp hu
  rw [Function.comp_apply, only_amend hp]
  congr 1
  refine ext ?_ rfl rfl
  have hput := keep_put p s.db.users { u with usedTrafficBytes := 0 }
  rw [if_pos (huid ▸ hp)] at hput
  have hcomm : (s.db.traffic.keep (·.userId ≠ id)).keep (fun r => p r.userId) =
      (s.db.traffic.keep fun r => p r.userId).keep (·.userId ≠ id) := by
    simp [keep_keep, Bool.and_comm]
  simp only [only, withDb, resetUserTraffic, hu, Db.only, hput, hcomm]
  rw [show (s.db.users.keep fun u => p u.id).find? id = some u from (find?_only_of hp).trans hu]

theorem only_reset_other {s' : UserDb} (hp : ¬ p id) (h : resetTraffic now id s = some s') : s'.only p = s.only p := by
  obtain ⟨u, hu, rfl⟩ := map_eq_some_iff.mp h
  obtain ⟨-, huid⟩ := find?_eq_some.mp hu
  rw [only_amend_other hp]
  have hput := keep_put p s.db.users { u with usedTrafficBytes := 0 }
  rw [if_neg (huid ▸ hp)] at hput
  have htraffic : (s.db.traffic.keep (·.userId ≠ id)).keep (fun r => p r.userId) =
      s.db.traffic.keep fun r => p r.userId := by
    rw [keep_keep]
    exact congrArg _ (funext fun r => ne_and_other hp r.userId)
  simp only [only, withDb, resetUserTraffic, hu, Db.only, hput, htraffic]

theorem only_setUserGroups {known groups : List Uuid} (hp : p id) :
    (s.setUserGroups known id groups).map (·.only p) = (s.only p).setUserGroups known id groups := by
  rw [setUserGroups, setUserGroups]
  split
  · refine congrArg ok (ext ?_ rfl rfl)
    have hgroups : (s.db.userGroupAccess.filter (·.1 ≠ id) ++ groups.dedup.map (id, ·)).filter (fun g => p g.1) =
        (s.db.userGroupAccess.filter fun g => p g.1).filter (·.1 ≠ id) ++ groups.dedup.map (id, ·) := by
      rw [filter_append, List.filter_filter, List.filter_filter]
      congr 1
      · exact filter_congr fun g _ => Bool.and_comm _ _
      · refine filter_eq_self.mpr fun g hg => ?_
        obtain ⟨_, -, rfl⟩ := mem_map.mp hg
        exact hp
    simp only [only, Db.only, hgroups]
  · rfl

theorem only_setUserGroups_other {known groups : List Uuid} {s' : UserDb} (hp : ¬ p id)
    (h : s.setUserGroups known id groups = .ok s') : s'.only p = s.only p := by
  rw [setUserGroups] at h
  split at h
  · obtain rfl := ok.inj h
    have hgroups : (s.db.userGroupAccess.filter (·.1 ≠ id) ++ groups.dedup.map (id, ·)).filter
        (fun g => p g.1) = s.db.userGroupAccess.filter fun g => p g.1 := by
      have hnew : (groups.dedup.map (id, ·)).filter (fun g => p g.1) = [] := by
        refine filter_eq_nil_iff.mpr fun g hg => ?_
        obtain ⟨_, -, rfl⟩ := mem_map.mp hg
        exact hp
      rw [filter_append, List.filter_filter, hnew, append_nil]
      exact filter_congr fun g _ => (Bool.and_comm _ _).trans (ne_and_other hp g.1)
    simp only [only, Db.only, hgroups]
  · cases h

end

/-! ### Edits -/

/-- The name that an edit gives. -/
def Edit.newName : Edit → Option String
  | .update input => input.username
  | _ => none

/-- The alias that an edit gives. -/
def Edit.newAlias : Edit → Option String
  | .setAlias value => (value.map trim).filter (· ≠ "")
  | _ => none

/-- An edit meets no name, alias, token or link outside a set of users. -/
structure Edit.Clear (g : Gate) (x : EditDraw) (p : Uuid → Bool) (s : UserDb) (e : Edit) : Prop where
  names : ∀ n ∈ e.newName, ∀ v ∈ s.db.users.rows, ¬ p v.id → v.username ≠ n
  aliases : ∀ a ∈ e.newAlias, ∀ q ∈ s.profiles.rows, ¬ p q.id → ∀ b ∈ q.subscriptionAlias, g.lower b ≠ g.lower a
  tokens : ∀ q ∈ s.profiles.rows, ¬ p q.id → q.subscriptionTokenHash ≠ g.tokenHash x.token.text
  links : ∀ l ∈ s.subscriptions.rows, ¬ p l.userId → l.id ≠ x.sid ∧ l.tokenHash ≠ g.tokenHash x.token.text

section

variable {g : Gate} {env : Env} {m : Market} {now : ℤ} {x : EditDraw} {p : Uuid → Bool} {s s' : UserDb} {id : Uuid}

theorem bind_userFound_map {α β : Type} (f : α → β) (y : Except Refusal (Option α)) :
    (y.bind userFound).map f = (y.map (Option.map f)).bind userFound := by
  cases y with
  | error r => rfl
  | ok o => cases o <;> rfl

theorem userFound_map {α β : Type} (f : α → β) (o : Option α) : (userFound o).map f = userFound (o.map f) := by
  cases o <;> rfl

/-- A name is free if it is free in the set and no other user has it. -/
theorem nameFree_only (id : Uuid) {name : String} (hother : ∀ v ∈ s.db.users.rows, ¬ p v.id → v.username ≠ name) :
    (s.only p).NameFree id name ↔ s.NameFree id name := by
  refine ⟨fun h v hv hid => ?_, NameFree.only⟩
  by_cases hp : p v.id
  · exact h v (mem_keep.mpr ⟨hv, hp⟩) hid
  · exact hother v hv hp

theorem update_clear {input : UpdateUserInput} (password : Option String) {u : User}
    (hu : s.db.users.find? id = some u) (hp : p id)
    (hnames : ∀ n ∈ input.username, ∀ v ∈ s.db.users.rows, ¬ p v.id → v.username ≠ n) :
    ∀ v ∈ s.db.users.rows, ¬ p v.id →
      v.username ≠ ({ input.toUpdateUser with password := password }.apply u).username := by
  intro v hv hpv
  cases hn : input.username with
  | some n => simpa [UpdateUser.apply, hn] using hnames n (by rw [hn]; rfl) v hv hpv
  | none =>
    obtain ⟨hmem, rfl⟩ := find?_eq_some.mp hu
    simp only [hn]
    intro heq
    exact hpv (inj_on_of_nodup_map s.usernames hv hmem heq ▸ hp)

theorem only_update {input : UpdateUserInput} (hp : p id)
    (hnames : ∀ n ∈ input.username, ∀ v ∈ s.db.users.rows, ¬ p v.id → v.username ≠ n) :
    (updateUserRow env now id input s).map (Option.map (·.only p)) = updateUserRow env now id input (s.only p) := by
  simp only [updateUserRow, find?_only_of hp]
  rcases sealPassword env input.password with r | password
  · rfl
  rcases hu : s.db.users.find? id with _ | u
  · rfl
  obtain ⟨-, huid⟩ := find?_eq_some.mp hu
  have hclear := update_clear password hu hp hnames
  have hpu : p ({ input.toUpdateUser with password := password }.apply u).id := huid ▸ hp
  simp only [bind, Except.bind]
  generalize { input.toUpdateUser with password := password }.apply u = u' at hclear hpu ⊢
  have hfree := nameFree_only u'.id hclear
  split
  · rfl
  by_cases h : s.NameFree u'.id u'.username
  · rw [dif_pos h, dif_pos (hfree.mpr h)]
    simp [Except.map, pure, Except.pure, only_amend hp, only_putUser hpu]
  · rw [dif_neg h, dif_neg (mt hfree.mp h)]
    rfl

theorem only_rotate {uuid : Uuid} {password : String} (hp : p id) :
    (rotateCredentials env now id uuid password s).map (Option.map (·.only p)) =
      rotateCredentials env now id uuid password (s.only p) := by
  simp only [rotateCredentials, find?_only_of hp]
  rcases opened (env.encrypt password) with r | stored
  · rfl
  rcases opened (env.encrypt uuid.text) with r | uuidEnc
  · rfl
  cases s.db.users.find? id with
  | none => rfl
  | some u =>
    simp [bind, Except.bind, pure, Except.pure, Except.map, only_amend hp, only_changeUser]

theorem any_keep {ρ κ : Type} {key : ρ → κ} {t : Table key} {q test : ρ → Bool}
    (h : ∀ r ∈ t.rows, ¬ q r → ¬ test r) : (t.keep q).rows.any test = t.rows.any test := by
  rw [Bool.eq_iff_iff, List.any_eq_true, List.any_eq_true]
  constructor
  · rintro ⟨r, hr, ht⟩
    exact ⟨r, (mem_keep.mp hr).1, ht⟩
  · rintro ⟨r, hr, ht⟩
    exact ⟨r, mem_keep.mpr ⟨hr, by_contra fun hq => h r hr hq ht⟩, ht⟩

theorem only_rotateSubscription {token : Uuid} (hp : p id)
    (htokens : ∀ q ∈ s.profiles.rows, ¬ p q.id → q.subscriptionTokenHash ≠ g.tokenHash token.text) :
    (rotateSubscriptionToken g env now id token s).map (Option.map (·.only p)) =
      rotateSubscriptionToken g env now id token (s.only p) := by
  have hany : (s.only p).profiles.rows.any
      (fun q => decide (q.id ≠ id ∧ q.subscriptionTokenHash = g.tokenHash token.text)) =
      s.profiles.rows.any fun q => decide (q.id ≠ id ∧ q.subscriptionTokenHash = g.tokenHash token.text) :=
    any_keep fun q hq hpq => by simp [htokens q hq hpq]
  simp only [rotateSubscriptionToken, find?_only_of hp, hany]
  rcases opened (env.encrypt token.text) with r | tokenEnc
  · rfl
  rcases s.db.users.find? id with _ | u
  · rfl
  simp only [bind, Except.bind]
  split
  · rfl
  · simp [pure, Except.pure, Except.map, only_amend hp]

theorem only_setAlias {value : Option String} {h : ∀ a ∈ value, plainAlias a} (hp : p id)
    (haliases : ∀ a ∈ value, ∀ q ∈ s.profiles.rows, ¬ p q.id → ∀ b ∈ q.subscriptionAlias, g.lower b ≠ g.lower a) :
    (setUserAlias g now id value h s).map (Option.map (·.only p)) = setUserAlias g now id value h (s.only p) := by
  have htaken : (∃ a ∈ value, ∃ q ∈ (s.only p).profiles.rows, q.id ≠ id ∧
      ∃ b ∈ q.subscriptionAlias, g.lower b = g.lower a) ↔
      ∃ a ∈ value, ∃ q ∈ s.profiles.rows, q.id ≠ id ∧ ∃ b ∈ q.subscriptionAlias, g.lower b = g.lower a := by
    refine exists_congr fun a => and_congr_right fun ha => ?_
    constructor
    · rintro ⟨q, hq, hrest⟩
      exact ⟨q, (mem_keep.mp hq).1, hrest⟩
    · rintro ⟨q, hq, hid, b, hb, heq⟩
      refine ⟨q, mem_keep.mpr ⟨hq, ?_⟩, hid, b, hb, heq⟩
      exact by_contra fun hpq => haliases a ha q hq hpq b hb heq
  have hid : p (s.profile id).id := by rw [s.profile_id]; exact hp
  simp only [setUserAlias, find?_only_of hp, htaken, profile_only hp]
  rcases s.db.users.find? id with _ | u
  · rfl
  dsimp only
  split
  · rfl
  · exact congrArg (ok ∘ some) (only_putProfile hid)

theorem only_setLabels {labels : List String} (hp : p id) :
    (setUserLabels now id labels s).map (·.only p) = setUserLabels now id labels (s.only p) := by
  rw [setUserLabels, setUserLabels, find?_only_of hp, Option.map_map]
  exact congrArg (Option.map · _) (funext fun u => only_amend hp)

theorem only_addSubscription {sid token : Uuid} {name : String} (hp : p id)
    (hlinks : ∀ l ∈ s.subscriptions.rows, ¬ p l.userId → l.id ≠ sid ∧ l.tokenHash ≠ g.tokenHash token.text) :
    (createUserSubscription g env now id sid token name s).map (·.only p) =
      createUserSubscription g env now id sid token name (s.only p) := by
  have hany : (s.only p).subscriptions.rows.any (·.tokenHash = g.tokenHash token.text) =
      s.subscriptions.rows.any (·.tokenHash = g.tokenHash token.text) :=
    any_keep fun l hl hpl => by simp [(hlinks l hl hpl).2]
  have hfind : (s.only p).subscriptions.find? sid = s.subscriptions.find? sid := by
    refine find?_keep_of fun l hl => ?_
    obtain ⟨hmem, hid⟩ := find?_eq_some.mp hl
    exact by_contra fun hpl => (hlinks l hmem hpl).1 hid
  simp only [createUserSubscription, hany, hfind]
  rcases opened (env.encrypt token.text) with r | tokenEnc
  · rfl
  split
  · rfl
  rename_i hnew
  have hnone : s.subscriptions.find? sid = none := by
    simpa using fun h => hnew (.inl h)
  refine congrArg ok (ext rfl rfl (Table.ext ?_))
  simp only [only, keep]
  rw [rows_put_new hnone, rows_put_new (hfind.trans hnone), filter_append, filter_cons_of_pos (by exact hp)]
  rfl

theorem only_deleteSubscription {sid : Uuid} (hp : p id) :
    (deleteUserSubscription id sid s).map (·.only p) = deleteUserSubscription id sid (s.only p) := by
  have hfind : ((s.only p).subscriptions.find? sid).any (·.userId = id) =
      (s.subscriptions.find? sid).any (·.userId = id) := by
    rw [show (s.only p).subscriptions.find? sid = _ from find?_keep]
    rcases s.subscriptions.find? sid with _ | l
    · rfl
    by_cases hl : l.userId = id
    · simp [hl, hp]
    · by_cases hpl : p l.userId <;> simp [hl]
  rw [deleteUserSubscription, deleteUserSubscription, hfind]
  split
  · refine congrArg some (ext rfl rfl ?_)
    simp [only, keep_keep, Bool.and_comm]
  · rfl

/-- An edit of a user of the set, seen from the set. -/
theorem run_only {e : Edit} (hp : p id) (h : e.Clear m.gate x p s) :
    (e.run m now x id s).map (·.only p) = e.run m now x id (s.only p) := by
  cases e with
  | update input => rw [Edit.run, Edit.run, bind_userFound_map, only_update hp h.names]
  | delete =>
    rw [Edit.run, Edit.run, find?_only_of hp]
    split
    · exact congrArg ok only_deleteUser
    · rfl
  | rotate password => rw [Edit.run, Edit.run, bind_userFound_map, only_rotate hp]
  | reset => rw [Edit.run, Edit.run, userFound_map, only_reset hp]
  | rotateSubscription =>
    rw [Edit.run, Edit.run, bind_userFound_map, only_rotateSubscription hp h.tokens]
  | setAlias value =>
    simp only [Edit.run, writeAlias]
    split
    · rw [bind_userFound_map]
      exact congrArg (bind · userFound) (only_setAlias hp h.aliases)
    · rfl
  | setGroups groups =>
    simp only [Edit.run, writeGroups, find?_only_of hp]
    split
    · rfl
    · split
      · rfl
      · exact only_setUserGroups hp
  | setLabels labels =>
    rw [Edit.run, Edit.run]
    cases normalizeLabels labels with
    | error r => rfl
    | ok labels =>
      simp only [Except.bind]
      rw [userFound_map, only_setLabels hp]
  | addSubscription name =>
    simp only [Edit.run, writeSubscription, find?_only_of hp]
    split
    · rfl
    · split
      · rfl
      · exact only_addSubscription hp h.links
  | deleteSubscription sid =>
    rw [Edit.run, Edit.run, ← only_deleteSubscription hp]
    cases deleteUserSubscription id sid s <;> rfl

/-- An edit of another user, seen from the set. -/
theorem run_only_other {e : Edit} (hp : ¬ p id) (h : e.run m now x id s = .ok s') : s'.only p = s.only p := by
  cases run_edited h with
  | update password hu hfree =>
    obtain ⟨-, huid⟩ := find?_eq_some.mp hu
    rw [only_amend_other hp, only_putUser_other (huid ▸ hp)]
  | delete => exact only_deleteUser_other hp
  | rotate uuid stored => rw [only_amend_other hp, only_changeUser_other hp]
  | reset hu => exact only_reset_other hp (map_eq_some_iff.mpr ⟨_, hu, rfl⟩)
  | rotateSubscription hash token | setLabels stored => exact only_amend_other hp
  | setAlias hstored =>
    refine only_putProfile_other ?_
    rw [s.profile_id]
    exact hp
  | setGroups h => exact only_setUserGroups_other hp h
  | addSubscription hnew howner =>
    refine ext rfl rfl (Table.ext ?_)
    exact filter_put (fun old hold => absurd hold (by simp [hnew])) (by simp [howner, hp])
  | deleteSubscription hrow howner =>
    refine ext rfl rfl (Table.ext ?_)
    refine filter_keep_ne fun old hold => ?_
    rw [← some.inj (hrow.symm.trans hold), howner]
    simp [hp]

end

end Honey.Master
