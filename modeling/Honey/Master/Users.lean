import Honey.Master.Groups
import Honey.Master.Traffic

/-! Users with all their columns, and what `db/repo.rs` does with them.

        users      = `User` (what node specs read) and `Profile` (the rest), joined by id
        a token    is looked up as a hash in users, as the id of a user, as a hash in user_subscriptions
        a deletion takes links, grants, counters, history and peers along (ON DELETE CASCADE)

    Credentials and tokens are kept as they are at rest and opened on the way out. -/

namespace Honey.Master
open Honey.Schemes Table

/-! ### Rows -/

/-- The columns of `users` that node specs do not read. -/
structure Profile where
  id : Uuid
  createdBy : Option Uuid
  labels : List String
  (subscriptionAlias subscriptionTitle subscriptionDescription subscriptionGroup : Option String)
  subscriptionTrafficPolicy : String
  deviceLimit : ℤ
  routingProfileId : Option Uuid
  quotaInterval : String
  quotaResetAt : Option ℤ
  subscriptionTokenHash : String
  subscriptionTokenEnc : Option String
  (createdAt updatedAt : ℤ)
  deriving DecidableEq, Repr

/-- The defaults of the columns. -/
def Profile.blank (id : Uuid) : Profile where
  id := id
  createdBy := none
  labels := []
  subscriptionAlias := none
  subscriptionTitle := none
  subscriptionDescription := none
  subscriptionGroup := none
  subscriptionTrafficPolicy := "inherit"
  deviceLimit := 0
  routingProfileId := none
  quotaInterval := "none"
  quotaResetAt := none
  subscriptionTokenHash := ""
  subscriptionTokenEnc := none
  createdAt := 0
  updatedAt := 0

/-- `user_subscriptions`. -/
structure UserSubscription where
  (id userId : Uuid)
  (name tokenHash : String)
  tokenEnc : Option String
  createdAt : ℤ
  deriving DecidableEq, Repr

/-- What `set_alias` accepts. -/
def plainAlias (a : String) : Bool :=
  3 ≤ a.utf8ByteSize && a.utf8ByteSize ≤ 40 && a.toList.all fun c => c.isAlphanum || c = '-' || c = '_'

/-- The tables about users. Names are unique, and every alias is one that `set_alias` accepts. -/
structure UserDb where
  db : Db
  profiles : Table Profile.id
  subscriptions : Table UserSubscription.id
  usernames : (db.users.rows.map (·.username)).Nodup
  aliases : ∀ p ∈ profiles.rows, ∀ a ∈ p.subscriptionAlias, plainAlias a

theorem no_aliases : ∀ p ∈ (Table.empty : Table Profile.id).rows, ∀ a ∈ p.subscriptionAlias, plainAlias a :=
  fun _ h => absurd h List.not_mem_nil

/-- A row of `users`. -/
structure Subscriber where
  user : User
  profile : Profile

namespace UserDb

variable (s : UserDb)

def profile (id : Uuid) : Profile := (s.profiles.find? id).getD (.blank id)

def row (u : User) : Subscriber := ⟨u, s.profile u.id⟩

/-- `created_by = r`. -/
def owns (r : Uuid) (u : User) : Bool := (s.profile u.id).createdBy = some r

/-- No other user has the name. -/
def NameFree (id : Uuid) (name : String) : Prop := ∀ v ∈ s.db.users.rows, v.id ≠ id → v.username ≠ name

instance (id : Uuid) (name : String) : Decidable (s.NameFree id name) :=
  inferInstanceAs (Decidable (∀ v ∈ _, _))

/-! ### Writes of single rows -/

/-- Insert or replace a user under a name that is free. -/
def putUser (u : User) (h : s.NameFree u.id u.username) : UserDb :=
  { s with
    db := { s.db with users := s.db.users.put u }
    usernames := nodup_map_put s.usernames h }

def putProfile (p : Profile) (h : ∀ a ∈ p.subscriptionAlias, plainAlias a) : UserDb :=
  { s with
    profiles := s.profiles.put p
    aliases := by
      intro q hq a ha
      rcases mem_put.mp hq with rfl | ⟨hq, -⟩
      · exact h a ha
      · exact s.aliases q hq a ha }

theorem profile_aliases (id : Uuid) : ∀ a ∈ (s.profile id).subscriptionAlias, plainAlias a := by
  rw [profile]
  cases h : s.profiles.find? id with
  | none => exact nofun
  | some p => exact s.aliases p (find?_eq_some.mp h).1

theorem columns_kept (p : Profile) : p.id = p.id ∧ p.subscriptionAlias = p.subscriptionAlias := ⟨rfl, rfl⟩

/-- Change columns of the profile, all but the alias; the trigger stamps the row. -/
def amend (id : Uuid) (now : ℤ) (f : Profile → Profile)
    (hf : ∀ p, (f p).id = p.id ∧ (f p).subscriptionAlias = p.subscriptionAlias) : UserDb :=
  s.putProfile { f (s.profile id) with updatedAt := now } fun a ha =>
    s.profile_aliases id a ((hf (s.profile id)).2 ▸ ha)

/-- Other tables, and users of the same names. -/
def withDb (db : Db) (h : db.users.rows.map (·.username) = s.db.users.rows.map (·.username)) : UserDb :=
  { s with db := db, usernames := h.symm ▸ s.usernames }

/-- Change a user, but for the id and the name. -/
def changeUser (id : Uuid) (f : User → User) (hf : ∀ u, (f u).id = u.id ∧ (f u).username = u.username) : UserDb :=
  have hkeep : ∀ u, (if u.id = id then f u else u).id = u.id ∧
      (if u.id = id then f u else u).username = u.username := by
    intro u
    split
    · exact hf u
    · exact ⟨rfl, rfl⟩
  s.withDb { s.db with users := s.db.users.alter (fun u => if u.id = id then f u else u) fun u => (hkeep u).1 } (by
      rw [alter, List.map_map]
      exact List.map_congr_left fun u _ => (hkeep u).2)

def deleteUser (id : Uuid) : UserDb :=
  { db := { s.db with
      users := s.db.users.keep (·.id ≠ id)
      userGroupAccess := s.db.userGroupAccess.filter (·.1 ≠ id)
      traffic := s.db.traffic.keep (·.userId ≠ id)
      hourly := s.db.hourly.keep (·.userId ≠ id)
      wgPeers := s.db.wgPeers.keep (·.userId ≠ id) }
    profiles := s.profiles.keep (·.id ≠ id)
    subscriptions := s.subscriptions.keep (·.userId ≠ id)
    usernames := (List.filter_sublist.map _).nodup s.usernames
    aliases := fun p hp => s.aliases p (mem_keep.mp hp).1 }

/-- `set_user_groups`, for a user that is there; `known` are the groups. -/
def setUserGroups (known : List Uuid) (id : Uuid) (groups : List Uuid) : Except Refusal UserDb :=
  if groups.all (· ∈ known) then
    .ok { s with
      db := { s.db with
        userGroupAccess := s.db.userGroupAccess.filter (·.1 ≠ id) ++ groups.dedup.map (id, ·) } }
  else .error .reference

end UserDb

/-! ### Reads -/

/-- Errors of the secrets backend are internal. -/
def opened {α : Type} : Except String α → Except Refusal α
  | .ok a => .ok a
  | .error _ => .error .internal

variable (env : Env)

/-- `decrypt_user`. -/
def Env.open (a : Subscriber) : Except Refusal Subscriber :=
  (opened (env.decryptUser a.user)).map fun u => { a with user := u }

def Env.openOption : Option Subscriber → Except Refusal (Option Subscriber)
  | none => .ok none
  | some a => (env.open a).map some

variable (s : UserDb)

def getUser (id : Uuid) : Except Refusal (Option Subscriber) :=
  env.openOption ((s.db.users.find? id).map s.row)

/-- The users that pass, in the order of their names: `list_users`, `list_users_for_creator`. -/
def listUsers (p : User → Bool) : Except Refusal (List Subscriber) :=
  ((s.db.users.rows.filter p).insertionSort fun u v => env.usernameLe u.username v.username).mapM
    fun u => env.open (s.row u)

variable (g : Gate)

/-- The row that a token belongs to, as it is stored. -/
def tokenRow (s : UserDb) (token : Uuid) : Option Subscriber :=
  let hash := g.tokenHash token.text
  match s.db.users.rows.find? fun u => (s.profile u.id).subscriptionTokenHash = hash with
  | some u => some (s.row u)
  | none => match s.db.users.find? token with
    | some u => some (s.row u)
    | none => match s.subscriptions.rows.find? (·.tokenHash = hash) with
      | some sub => (s.db.users.find? sub.userId).map fun u =>
        ⟨u, { s.profile u.id with subscriptionTitle := some sub.name }⟩
      | none => none

def getUserBySubscriptionToken (env : Env) (s : UserDb) (token : Uuid) : Except Refusal (Option Subscriber) :=
  env.openOption (tokenRow g s token)

/-- The row that an alias belongs to. -/
def aliasRow (s : UserDb) (value : String) : Option Subscriber :=
  (s.db.users.rows.find? fun u =>
    (s.profile u.id).subscriptionAlias.any fun a => g.lower a = g.lower (trim value)).map s.row

def getUserByAlias (env : Env) (s : UserDb) (value : String) : Except Refusal (Option Subscriber) :=
  env.openOption (aliasRow g s value)

def resellerTrafficUsed (r : Uuid) : ℤ :=
  s.db.users.total fun u => if s.owns r u then u.usedTrafficBytes else 0

def countUsersForCreator (r : Uuid) : ℕ := (s.db.users.rows.filter (s.owns r)).length

/-! ### Statements -/

/-- The body of `POST /users`. -/
structure CreateUserInput extends NewUser where
  deviceLimit : ℤ

/-- The body of `PATCH /users/:id`. -/
structure UpdateUserInput extends UpdateUser where
  deviceLimit : Option ℤ

/-- What a creation draws. -/
structure UserDraw where
  (id uuid token : Uuid)

def Patch.apply {α : Type} : Patch α → Option α → Option α
  | .missing, old => old
  | .null, _ => none
  | .value a, _ => some a

/-- The `INSERT` of `create_user`, with its credentials sealed. -/
def insertUser (env : Env) (now : ℤ) (x : UserDraw) (createdBy : Option Uuid)
    (input : CreateUserInput) (s : UserDb) : Except Refusal UserDb := do
  let uuid ← opened (env.encrypt x.uuid.text)
  let password ← opened (env.encrypt input.password)
  let tokenEnc ← opened (env.encrypt x.token.text)
  let hash := g.tokenHash x.token.text
  if input.trafficLimitBytes < 0 then throw .constraint
  if (s.db.users.find? x.id).isSome ∨ s.profiles.rows.any (·.subscriptionTokenHash = hash) then
    throw .conflict
  if h : s.NameFree x.id input.username then
    return (s.putUser ⟨x.id, input.username, uuid, password, true, input.trafficLimitBytes, 0,
      input.expiresAt⟩ h).putProfile
        { Profile.blank x.id with
          createdBy := createdBy
          subscriptionTitle := input.subscriptionTitle
          subscriptionDescription := input.subscriptionDescription
          subscriptionGroup := input.subscriptionGroup
          subscriptionTrafficPolicy := input.subscriptionTrafficPolicy
          deviceLimit := max input.deviceLimit 0
          subscriptionTokenHash := hash
          subscriptionTokenEnc := some tokenEnc
          createdAt := now
          updatedAt := now } nofun
  else throw .conflict

/-- The profile after an update. -/
def UpdateUserInput.amend (input : UpdateUserInput) (p : Profile) : Profile :=
  { p with
    deviceLimit := (input.deviceLimit.map (max · 0)).getD p.deviceLimit
    subscriptionTitle := input.subscriptionTitle.apply p.subscriptionTitle
    subscriptionDescription := input.subscriptionDescription.apply p.subscriptionDescription
    subscriptionGroup := input.subscriptionGroup.apply p.subscriptionGroup
    subscriptionTrafficPolicy := input.subscriptionTrafficPolicy.getD p.subscriptionTrafficPolicy }

/-- A new password, sealed. -/
def sealPassword : Option String → Except Refusal (Option String)
  | none => .ok none
  | some p => (opened (env.encrypt p)).map some

variable (now : ℤ)

/-- The `UPDATE` of `update_user`; nothing if the user is not there. -/
def updateUserRow (id : Uuid) (input : UpdateUserInput) (s : UserDb) : Except Refusal (Option UserDb) := do
  let password ← sealPassword env input.password
  match s.db.users.find? id with
  | none => return none
  | some u =>
    let u' := { input.toUpdateUser with password := password }.apply u
    if u'.trafficLimitBytes < 0 then throw .constraint
    if h : s.NameFree u'.id u'.username then
      return some ((s.putUser u' h).amend id now input.amend fun _ => ⟨rfl, rfl⟩)
    else throw .conflict

theorem usernames_reset (db : Db) (id : Uuid) :
    (resetUserTraffic db id).users.rows.map (·.username) = db.users.rows.map (·.username) := by
  rcases h : db.users.find? id with _ | u
  · simp only [resetUserTraffic, h]
  simp only [resetUserTraffic, h]
  obtain ⟨-, rfl⟩ := find?_eq_some.mp h
  exact map_put_same h rfl

/-- `reset_user_traffic`; nothing if the user is not there. -/
def resetTraffic (id : Uuid) (s : UserDb) : Option UserDb :=
  (s.db.users.find? id).map fun _ =>
    (s.withDb (resetUserTraffic s.db id) (usernames_reset s.db id)).amend id now (fun p => p) UserDb.columns_kept

def rotateCredentials (id uuid : Uuid) (password : String) (s : UserDb) : Except Refusal (Option UserDb) := do
  let stored ← opened (env.encrypt password)
  let uuidEnc ← opened (env.encrypt uuid.text)
  return (s.db.users.find? id).map fun _ =>
    (s.changeUser id (fun u => { u with uuid := uuidEnc, password := stored })
      fun _ => ⟨rfl, rfl⟩).amend id now (fun p => p) UserDb.columns_kept

def rotateSubscriptionToken (env : Env) (now : ℤ) (id token : Uuid) (s : UserDb) : Except Refusal (Option UserDb) := do
  let hash := g.tokenHash token.text
  let tokenEnc ← opened (env.encrypt token.text)
  match s.db.users.find? id with
  | none => return none
  | some _ =>
    if s.profiles.rows.any fun p => p.id ≠ id ∧ p.subscriptionTokenHash = hash then throw .conflict
    return some (s.amend id now
      (fun p => { p with subscriptionTokenHash := hash, subscriptionTokenEnc := some tokenEnc })
      fun _ => ⟨rfl, rfl⟩)

def setUserLabels (id : Uuid) (labels : List String) (s : UserDb) : Option UserDb :=
  (s.db.users.find? id).map fun _ => s.amend id now (fun p => { p with labels := labels }) fun _ => ⟨rfl, rfl⟩

/-- `set_user_alias`, with the unique index on `lower(subscription_alias)`. -/
def setUserAlias (id : Uuid) (value : Option String)
    (h : ∀ a ∈ value, plainAlias a) (s : UserDb) : Except Refusal (Option UserDb) :=
  match s.db.users.find? id with
  | none => .ok none
  | some _ =>
    if ∃ a ∈ value, ∃ p ∈ s.profiles.rows, p.id ≠ id ∧ ∃ b ∈ p.subscriptionAlias, g.lower b = g.lower a then
      .error ⟨409, "that alias is already taken", "M1205"⟩
    else .ok (some (s.putProfile { s.profile id with subscriptionAlias := value, updatedAt := now } h))

/-- `create_user_subscription`, for a user that is there. -/
def createUserSubscription (env : Env) (now : ℤ) (id sid token : Uuid) (name : String)
    (s : UserDb) : Except Refusal UserDb := do
  let hash := g.tokenHash token.text
  let tokenEnc ← opened (env.encrypt token.text)
  if (s.subscriptions.find? sid).isSome ∨ s.subscriptions.rows.any (·.tokenHash = hash) then
    throw .conflict
  return { s with subscriptions := s.subscriptions.put ⟨sid, id, trim name, hash, some tokenEnc, now⟩ }

/-- `delete_user_subscription`; nothing if there is no such link of the user. -/
def deleteUserSubscription (id sid : Uuid) (s : UserDb) : Option UserDb :=
  if (s.subscriptions.find? sid).any (·.userId = id) then
    some { s with subscriptions := s.subscriptions.keep (·.id ≠ sid) }
  else none

end Honey.Master
