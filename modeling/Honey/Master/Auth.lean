import Honey.Master.Service
import Honey.Schemes.Split
import Honey.Schemes.Text

/-! Who may do what: `require_auth` of the API and the identities of `auth.rs`.

        request -- identify --> identity -- screen --> authorize
                   token           |        address     reseller   allowlist of paths
                   API key         |        origin      matrix     level on the domain of the path
                   session         + 401                otherwise  rank against the path

    A matrix that grants nothing still lets through every path that belongs to no domain, whatever the
    ladder asks for there: exactly the `Confined` requests are harmless. -/

namespace Honey.Master
open Honey.Schemes List Except Option

/-! ### Roles, methods and domains -/

/-- The fixed roles; a reseller stands beside the ladder. -/
inductive Role where | owner | admin | operator | viewer | reseller
  deriving DecidableEq, Repr

def Role.name : Role → String
  | .owner => "owner"
  | .admin => "admin"
  | .operator => "operator"
  | .viewer => "viewer"
  | .reseller => "reseller"

/-- `valid_role`: the role of a name, if there is one. -/
def Role.ofName? (name : String) : Option Role :=
  [Role.owner, .admin, .operator, .viewer, .reseller].find? (·.name = name)

/-- `role_rank`. -/
def Role.rank : Role → ℕ
  | .owner => 3
  | .admin => 2
  | .operator => 1
  | .viewer | .reseller => 0

inductive Method where | get | head | options | post | put | patch | delete | other
  deriving DecidableEq, Repr

/-- `GET`, `HEAD` and `OPTIONS`. -/
def Method.reads : Method → Bool
  | .get | .head | .options => true
  | _ => false

inductive Domain where
  | nodes | inbounds | users | groups | routing | domains | config | notifications | audit | admin
  | dashboard
  deriving DecidableEq, Repr

def Domain.name : Domain → String
  | .nodes => "nodes"
  | .inbounds => "inbounds"
  | .users => "users"
  | .groups => "groups"
  | .routing => "routing"
  | .domains => "domains"
  | .config => "config"
  | .notifications => "notifications"
  | .audit => "audit"
  | .admin => "admin"
  | .dashboard => "dashboard"

variable (path : String)

/-- `path.starts_with(word)`. -/
def Opens (word : String) : Prop := word.toList <+: path.toList

instance (path word : String) : Decidable (Opens path word) :=
  inferInstanceAs (Decidable (word.toList <+: path.toList))

/-- `path.contains("/enrollments")`. -/
def Enrolls : Prop := "/enrollments".toList <:+: path.toList

instance (path : String) : Decidable (Enrolls path) :=
  inferInstanceAs (Decidable ("/enrollments".toList <:+: path.toList))

/-- The words that put a path into a domain, in the order they are tried. -/
def domainWords : List (String × Domain) :=
  [("nodes", .nodes), ("certificates", .nodes), ("enrollments", .nodes), ("reality", .nodes),
    ("wireguard", .nodes), ("services", .nodes), ("inbounds", .inbounds), ("users", .users),
    ("import", .users), ("groups", .groups), ("routing-profiles", .routing), ("domains", .domains),
    ("config", .config), ("scheduled-ops", .config), ("notify-channels", .notifications),
    ("telegram", .notifications), ("announcements", .notifications), ("audit", .audit),
    ("settings", .admin), ("branding", .admin), ("api-keys", .admin), ("admins", .admin),
    ("custom-roles", .admin), ("admin-ips", .admin)]

/-- The path without its leading slashes. -/
def unslashed : List Char := path.toList.dropWhile (· = '/')

def pathDomain : Domain :=
  match domainWords.find? fun w => w.1.toList <+: unslashed path with
  | some w => w.2
  | none => .dashboard

def ownerPaths : List String :=
  ["/admins", "/settings", "/api-keys", "/branding", "/update", "/config", "/custom-roles"]

def operatorEnds : List String := ["/push", "/rotate", "/rotate-sub", "/reset-traffic", "/labels"]

variable (m : Method)

def requiredRole (path : String) : Role :=
  if Opens path "/notifications" then .viewer
  else if Opens path "/auth/sessions" ∨ path = "/auth/login-history" then .viewer
  else if Opens path "/saved-views" then .viewer
  else if ∃ word ∈ ownerPaths, Opens path word then .owner
  else if Opens path "/audit" ∨ Enrolls path then .admin
  else if m.reads ∨ path = "/auth/logout" then .viewer
  else if ∃ word ∈ operatorEnds, word.toList <:+ path.toList then .operator
  else .admin

/-- The paths a reseller has to itself, with their methods. -/
def resellerPaths : List (String × List Method) :=
  [("/auth/me", [.get]), ("/auth/logout", [.post]), ("/auth/sessions", [.get]),
    ("/auth/sessions/revoke-others", [.post]), ("/auth/login-history", [.get]), ("/groups", [.get]),
    ("/labels", [.get]), ("/analytics/traffic", [.get]), ("/analytics/traffic.csv", [.get]),
    ("/reports/period", [.get]), ("/analytics/geo", [.get]), ("/live-connections", [.get]),
    ("/onboarding", [.get]), ("/saved-views", [.get, .post]), ("/users", [.get, .post])]

/-- What a reseller may reach below one of its users. -/
def resellerUserPaths : List (String × List Method) :=
  [("rotate", [.post]), ("reset-traffic", [.post]), ("rotate-sub", [.post]), ("subscription", [.get]),
    ("subscriptions", [.get, .post]), ("alias", [.put]), ("groups", [.get, .put]), ("labels", [.put])]

def resellerSubPermits (sub : List Char) : Bool :=
  match resellerUserPaths.find? (·.1.toList = sub) with
  | some w => m ∈ w.2
  | none => "subscriptions/".toList <+: sub && m ∈ [.get, .delete]

/-- The path below `/users/`: a user, or something of a user. -/
def resellerUserPermits (rest : List Char) : Bool :=
  match splitOnce '/' rest with
  | none => m ∈ [.get, .patch, .delete]
  | some (_, sub) => resellerSubPermits m sub

def resellerPermits (path : String) : Bool :=
  match resellerPaths.find? (·.1 = path) with
  | some w => m ∈ w.2
  | none =>
    if Opens path "/saved-views/" then m ∈ [.patch, .delete]
    else if Opens path "/auth/sessions/" then m = .delete
    else match path.toList.dropPrefix? "/users/".toList with
      | some rest => resellerUserPermits m rest
      | none => false

/-! ### Identities -/

/-- A permission matrix, by the name of the domain. -/
abbrev Matrix := List (String × ℤ)

def Matrix.level (p : Matrix) (d : Domain) : ℤ := ((p.find? (·.1 = d.name)).map (·.2)).getD 0

structure Identity where
  adminId : Option Uuid
  username : String
  role : Role
  sessionHash : Option String
  permissions : Option Matrix
  deriving DecidableEq, Repr

def Identity.legacy : Identity := ⟨none, "legacy-api-token", .owner, none, none⟩

variable (i : Identity) (role : Role)

def Identity.permits : Bool := role.rank ≤ i.role.rank

def Identity.permitsDomain (d : Domain) (need : ℤ) : Bool :=
  d = .dashboard || need ≤ (i.permissions.map (·.level d)).getD 0

def Identity.isReseller : Bool := i.role = .reseller

/-- An answer other than success. -/
structure Refusal where
  status : ℕ
  (message code : String)
  deriving DecidableEq, Repr

def Refusal.internal : Refusal := ⟨500, "internal server error", "M1202"⟩

def Refusal.unauthorized : Refusal := ⟨401, "unauthorized", "M1207"⟩

/-- The level a method needs on a domain. -/
def Method.need : ℤ := if m.reads then 1 else 2

/-- The last part of `require_auth`. -/
def authorize (m : Method) (path : String) : Except Refusal Unit :=
  if i.isReseller then
    if resellerPermits m path then .ok ()
    else .error ⟨403, "reseller scope does not allow this", "M1211"⟩
  else if i.permissions.isSome then
    if i.permitsDomain (pathDomain path) m.need then .ok ()
    else .error ⟨403, "custom role lacks " ++ (pathDomain path).name ++ " access", "M1210"⟩
  else if i.permits (requiredRole m path) then .ok ()
  else .error ⟨403, (requiredRole m path).name ++ " role required", "M1210"⟩

/-! ### Tables -/

/-- `admins`. -/
structure Admin where
  id : Uuid
  (username passwordHash : String)
  role : Role
  enabled : Bool
  (maxUsers userTrafficCeilingBytes trafficLimitBytes commissionPercent : ℤ)
  customRoleId : Option Uuid
  deriving DecidableEq, Repr

/-- `admin_sessions`. -/
structure Session where
  tokenHash : String
  adminId : Uuid
  expiresAt : ℤ
  deriving DecidableEq, Repr

/-- `api_keys`. -/
structure ApiKey where
  id : Uuid
  (name keyHash : String)
  role : Role
  createdBy : Option Uuid
  (expiresAt revokedAt : Option ℤ)
  deriving DecidableEq, Repr

/-- `custom_roles`. -/
structure CustomRole where
  id : Uuid
  name : String
  permissions : Json

/-- The tables behind identities. An assigned custom role is there. -/
structure AuthDb where
  admins : Table Admin.id
  sessions : Table Session.tokenHash
  apiKeys : Table ApiKey.keyHash
  customRoles : Table CustomRole.id
  adminIps : List String
  nodeGroups : List Uuid
  resellerGroups : List (Uuid × Uuid)
  assigned : ∀ a ∈ admins.rows, ∀ r ∈ a.customRoleId, (customRoles.find? r).isSome

def adminForSession (db : AuthDb) (now : ℤ) (hash : String) : Option Admin :=
  (db.sessions.find? hash).bind fun s =>
    if now < s.expiresAt then (db.admins.find? s.adminId).filter (·.enabled) else none

def authenticateApiKey (db : AuthDb) (now : ℤ) (hash : String) : Option ApiKey :=
  (db.apiKeys.find? hash).filter fun k => k.revokedAt = none ∧ k.expiresAt.all (now < ·)

/-- The matrix that a JSON value spells; anything but an object of integers is the empty one. -/
def matrixOf : Json → Matrix
  | .obj fields =>
    if fields.all (·.2.asI64?.isSome) then fields.map fun f => (f.1, f.2.asI64?.getD 0) else []
  | _ => []

def customRolePermissions (db : AuthDb) (id : Uuid) : Option Matrix :=
  (db.customRoles.find? id).map fun r => matrixOf r.permissions

/-! ### Requests -/

/-- The headers that are looked at. -/
structure Head where
  (authorization cookie secFetchSite origin host forwardedFor : Option String)

structure ApiRequest where
  head : Head
  method : Method
  path : String

/-- The configuration of the master, and what it takes from libraries: SHA-256, addresses and networks,
    and `lower` of the database. -/
structure Gate where
  apiToken : Option String
  tokenHash : String → String
  isIp : String → Bool
  contains : String → String → Bool
  lower : String → String

/-- The statements that fail. -/
structure Faults where
  (apiKey session role ips row groups assign sessions : Bool)
  deriving DecidableEq, Repr

def Faults.none : Faults := ⟨false, false, false, false, false, false, false, false⟩

def Head.bearer (h : Head) : Option String :=
  h.authorization.bind fun v => (v.toList.dropPrefix? "Bearer ".toList).map String.ofList

/-- The value of a cookie. -/
def Head.cookieNamed (h : Head) (name : String) : Option String :=
  h.cookie.bind fun header => (split [';'] header.toList).findSome? fun part =>
    (splitOnce '=' (trim (String.ofList part)).toList).bind fun p =>
      if String.ofList p.1 = name then some (String.ofList p.2) else none

def Head.forwardedRemote (h : Head) : Option String :=
  (h.forwardedFor.map fun v => trim (String.ofList (v.toList.takeWhile (· ≠ ',')))).filter (· ≠ "")

def Head.originMatchesHost (h : Head) : Bool :=
  match h.origin, h.host with
  | none, _ => true
  | some _, none => false
  | some origin, some host =>
    ((origin.toList.dropPrefix? "https://".toList).or (origin.toList.dropPrefix? "http://".toList)).any
      fun name => name.map Char.toLower = host.toList.map Char.toLower

variable (g : Gate)

def ipAllowed (db : AuthDb) (remote : Option String) : Bool :=
  db.adminIps.isEmpty || remote.any fun ip => g.isIp ip && db.adminIps.any (g.contains · ip)

def keyIdentity (key : ApiKey) : Identity :=
  ⟨key.createdBy, "apikey:" ++ key.name, key.role, none, none⟩

variable (f : Faults)

/-- A failed lookup of the custom role counts as having none. -/
def sessionIdentity (db : AuthDb) (admin : Admin) (hash : String) : Identity where
  adminId := some admin.id
  username := admin.username
  role := admin.role
  sessionHash := some hash
  permissions := admin.customRoleId.bind fun r => if f.role then none else customRolePermissions db r

/-- The first part of `require_auth`. -/
def identify (now : ℤ) (db : AuthDb) (h : Head) : Except Refusal Identity :=
  match h.bearer with
  | some token =>
    if g.apiToken = some token then .ok .legacy
    else if ¬ Opens token "hny_" then .error .unauthorized
    else if f.apiKey then .error .internal
    else match authenticateApiKey db now (g.tokenHash token) with
      | some key => .ok (keyIdentity key)
      | none => .error .unauthorized
  | none => match h.cookieNamed "honey_session" with
    | some token =>
      if f.session then .error .internal
      else match adminForSession db now (g.tokenHash token) with
        | some admin => .ok (sessionIdentity f db admin (g.tokenHash token))
        | none => .error .unauthorized
    | none => .error .unauthorized

/-- The checks of the address and, for writes under a cookie, of the origin. A failed lookup of the
    allowlist lets everybody in. -/
def screen (db : AuthDb) (req : ApiRequest) : Except Refusal Unit :=
  if ¬ (f.ips ∨ ipAllowed g db req.head.forwardedRemote) then
    .error ⟨403, "address not allowed", "M1210"⟩
  else if req.head.bearer = none ∧ ¬ req.method.reads then
    if req.head.secFetchSite = some "cross-site" then
      .error ⟨403, "cross-site request rejected", "M1209"⟩
    else if ¬ req.head.originMatchesHost then .error ⟨403, "origin does not match host", "M1209"⟩
    else .ok ()
  else .ok ()

def requireAuth (now : ℤ) (db : AuthDb) (req : ApiRequest) : Except Refusal Identity := do
  let i ← identify g f now db req.head
  screen g f db req
  authorize i req.method req.path
  return i

theorem requireAuth_eq_ok {g : Gate} {f : Faults} {now : ℤ} {db : AuthDb} {req : ApiRequest}
    {i : Identity} : requireAuth g f now db req = .ok i ↔ identify g f now db req.head = .ok i ∧
      screen g f db req = .ok () ∧ authorize i req.method req.path = .ok () := by
  rw [requireAuth, bind_eq_ok]
  constructor
  · rintro ⟨j, hj, h⟩
    obtain ⟨hscreen, h⟩ := then_eq_ok.mp h
    obtain ⟨hauth, h⟩ := then_eq_ok.mp h
    obtain rfl := ok.inj h
    exact ⟨hj, hscreen, hauth⟩
  · rintro ⟨hi, hscreen, hauth⟩
    exact ⟨i, hi, then_eq_ok.mpr ⟨hscreen, then_eq_ok.mpr ⟨hauth, rfl⟩⟩⟩

theorem screen_eq_ok {g : Gate} {f : Faults} {db : AuthDb} {req : ApiRequest} :
    screen g f db req = .ok () ↔ (f.ips ∨ ipAllowed g db req.head.forwardedRemote) ∧
      (req.head.bearer = none → req.method.reads = false →
        req.head.secFetchSite ≠ some "cross-site" ∧ req.head.originMatchesHost) := by
  rw [screen]
  by_cases haddress : f.ips ∨ ipAllowed g db req.head.forwardedRemote
  · rw [if_neg (not_not.mpr haddress), and_iff_right haddress]
    by_cases hwrites : req.head.bearer = none ∧ ¬ req.method.reads
    · have hreads : req.method.reads = false := by simpa using hwrites.2
      rw [if_pos hwrites]
      by_cases hsite : req.head.secFetchSite = some "cross-site"
      · rw [if_pos hsite]
        exact iff_of_false nofun fun h => (h hwrites.1 hreads).1 hsite
      rw [if_neg hsite]
      by_cases horigin : req.head.originMatchesHost
      · rw [if_neg (not_not.mpr horigin)]
        exact iff_of_true rfl fun _ _ => ⟨hsite, horigin⟩
      · rw [if_pos horigin]
        exact iff_of_false nofun fun h => horigin (h hwrites.1 hreads).2
    · rw [if_neg hwrites]
      exact iff_of_true rfl fun hbearer hreads => absurd ⟨hbearer, by simp [hreads]⟩ hwrites
  · rw [if_pos haddress]
    exact iff_of_false nofun fun h => haddress h.1

section

variable {g : Gate} {f : Faults} {now : ℤ} {db : AuthDb} {h : Head} {i : Identity}

theorem identify_bearer {token : String} (hbearer : h.bearer = some token)
    (hid : identify g f now db h = .ok i) : g.apiToken = some token ∧ i = .legacy ∨
      g.apiToken ≠ some token ∧ ∃ key, db.apiKeys.find? (g.tokenHash token) = some key ∧ i = keyIdentity key := by
  rw [identify, hbearer] at hid
  dsimp only at hid
  split at hid
  · rename_i htoken
    exact .inl ⟨htoken, (ok.inj hid).symm⟩
  rename_i htoken
  refine .inr ⟨htoken, ?_⟩
  split at hid
  · cases hid
  split at hid
  · cases hid
  split at hid
  · rename_i key hkey
    exact ⟨key, (filter_eq_some_iff.mp hkey).1, (ok.inj hid).symm⟩
  · cases hid

theorem adminForSession_eq_some {hash : String} {admin : Admin} :
    adminForSession db now hash = some admin ↔ ∃ s, db.sessions.find? hash = some s ∧
      now < s.expiresAt ∧ db.admins.find? s.adminId = some admin ∧ admin.enabled := by
  rw [adminForSession, bind_eq_some_iff]
  refine exists_congr fun s => and_congr_right fun _ => ?_
  by_cases hlive : now < s.expiresAt
  · rw [if_pos hlive, and_iff_right hlive, filter_eq_some_iff]
  · rw [if_neg hlive]
    exact iff_of_false nofun fun h => hlive h.1

theorem identify_session (hbearer : h.bearer = none) : identify g f now db h = .ok i ↔
    f.session = false ∧ ∃ token s admin, h.cookieNamed "honey_session" = some token ∧
      db.sessions.find? (g.tokenHash token) = some s ∧ now < s.expiresAt ∧
      db.admins.find? s.adminId = some admin ∧ admin.enabled ∧ i = sessionIdentity f db admin (g.tokenHash token) := by
  rw [identify, hbearer]
  dsimp only
  constructor
  · intro hid
    split at hid
    · rename_i token hcookie
      split at hid
      · cases hid
      rename_i hsession
      split at hid
      · rename_i admin hadmin
        obtain ⟨s, hs, hlive, hfind, henabled⟩ := adminForSession_eq_some.mp hadmin
        exact ⟨by simpa using hsession, token, s, admin, hcookie, hs, hlive, hfind, henabled, (ok.inj hid).symm⟩
      · cases hid
    · cases hid
  · rintro ⟨hsession, token, s, admin, hcookie, hs, hlive, hfind, henabled, rfl⟩
    have hadmin := adminForSession_eq_some.mpr ⟨s, hs, hlive, hfind, henabled⟩
    simp [hcookie, hsession, hadmin]

end

/-! ### Paths -/

/-- The path belongs to a domain. -/
def Guarded : Prop := ∃ w ∈ domainWords, w.1.toList <+: unslashed path

section

variable {m : Method} {path a b : String}

theorem not_opens (ha : Opens path a) (h : ¬ (a.toList <+: b.toList ∨ b.toList <+: a.toList)) :
    ¬ Opens path b := fun hb => h <| prefix_or_prefix_of_prefix ha hb

theorem pathDomain_eq_dashboard : pathDomain path = .dashboard ↔ ¬ Guarded path := by
  have hwords : ∀ w ∈ domainWords, w.2 ≠ .dashboard := by decide
  rw [pathDomain, Guarded]
  cases hfind : domainWords.find? fun w => w.1.toList <+: unslashed path with
  | none => simpa using hfind
  | some w =>
    have hw := mem_of_find?_eq_some hfind
    have hopen : w.1.toList <+: unslashed path := by simpa using find?_some hfind
    exact iff_of_false (hwords w hw) (not_not.mpr ⟨w, hw, hopen⟩)

theorem unslashed_of_opens {w : String × Domain} (hw : w ∈ domainWords) (h : Opens path ("/" ++ w.1)) :
    w.1.toList <+: unslashed path := by
  have hhead : ∀ w ∈ domainWords, w.1.toList ≠ [] ∧ w.1.toList.head? ≠ some '/' := by decide
  obtain ⟨rest, hrest⟩ := h
  obtain ⟨c, cs, hcs⟩ := exists_cons_of_ne_nil (hhead w hw).1
  have hc : c ≠ '/' := by simpa [hcs] using (hhead w hw).2
  rw [unslashed, ← hrest, String.toList_append, hcs]
  simp [hc]

/-- The domain of a word, where every word that could stand in its way is of the same. -/
theorem pathDomain_of_opens {w : String × Domain} (hw : w ∈ domainWords) (h : Opens path ("/" ++ w.1))
    (hsame : ∀ v ∈ domainWords, v.1.toList <+: w.1.toList ∨ w.1.toList <+: v.1.toList → v.2 = w.2) :
    pathDomain path = w.2 := by
  have hopen := unslashed_of_opens hw h
  rw [pathDomain]
  cases hfind : domainWords.find? fun w => w.1.toList <+: unslashed path with
  | none =>
    have hnot := find?_eq_none.mp hfind w hw
    exact absurd (decide_eq_true hopen) hnot
  | some v =>
    have hv : v.1.toList <+: unslashed path := by simpa using find?_some hfind
    exact hsame v (mem_of_find?_eq_some hfind) <| prefix_or_prefix_of_prefix hv hopen

theorem requiredRole_of_auth (h : Opens path "/auth/") : requiredRole m path ≠ .owner := by
  have howner : ¬ ∃ word ∈ ownerPaths, Opens path word := by
    rintro ⟨word, hword, hopen⟩
    exact not_opens h ((by decide : ∀ word ∈ ownerPaths, ¬ ("/auth/".toList <+: word.toList ∨
      word.toList <+: "/auth/".toList)) word hword) hopen
  rw [requiredRole]
  split_ifs <;> decide

theorem not_sessions (hauth : ¬ Opens path "/auth/") :
    ¬ (Opens path "/auth/sessions" ∨ path = "/auth/login-history") := by
  rintro (hopen | rfl)
  · exact hauth (IsPrefix.trans (by decide) hopen)
  · exact hauth (by decide)

section

variable (hnotifications : ¬ Opens path "/notifications") (hauth : ¬ Opens path "/auth/")
  (hviews : ¬ Opens path "/saved-views")
include hnotifications hauth hviews

/-- Where no word decides, the ladder asks for more than a viewer exactly if something is written. -/
theorem requiredRole_of_plain (howner : ∀ word ∈ ownerPaths, ¬ Opens path word) (haudit : ¬ Opens path "/audit") :
    requiredRole m path = .viewer ↔ m.reads ∧ ¬ Enrolls path := by
  have hlogout : path ≠ "/auth/logout" := by
    rintro rfl
    exact hauth (by decide)
  have hnone : ¬ ∃ word ∈ ownerPaths, Opens path word := fun ⟨word, hword, h⟩ => howner word hword h
  rw [requiredRole, if_neg hnotifications, if_neg (not_sessions hauth), if_neg hviews, if_neg hnone]
  by_cases henrolls : Enrolls path
  · rw [if_pos (.inr henrolls)]
    exact iff_of_false (by decide) fun h => h.2 henrolls
  rw [if_neg (not_or.mpr ⟨haudit, henrolls⟩)]
  by_cases hreads : m.reads
  · rw [if_pos (.inl hreads)]
    exact iff_of_true rfl ⟨hreads, henrolls⟩
  · rw [if_neg (not_or.mpr ⟨hreads, hlogout⟩)]
    exact iff_of_false (by split_ifs <;> decide) fun h => hreads h.1

theorem requiredRole_of_unguarded (h : ¬ Guarded path) :
    requiredRole m path = .viewer ↔ m.reads ∧ ¬ Opens path "/update" ∧ ¬ Enrolls path := by
  -- all the owner's paths but one lie in a domain, and so does the audit
  have hwords : ∀ word ∈ ownerPaths, word ≠ "/update" → ∃ w ∈ domainWords, word = "/" ++ w.1 := by
    decide
  by_cases hupdate : Opens path "/update"
  · refine iff_of_false ?_ fun h => h.2.1 hupdate
    rw [requiredRole, if_neg hnotifications, if_neg (not_sessions hauth), if_neg hviews,
      if_pos ⟨"/update", by decide, hupdate⟩]
    decide
  have howner : ∀ word ∈ ownerPaths, ¬ Opens path word := by
    intro word hword hopen
    by_cases heq : word = "/update"
    · exact hupdate (heq ▸ hopen)
    · obtain ⟨w, hw, rfl⟩ := hwords word hword heq
      exact h ⟨w, hw, unslashed_of_opens hw hopen⟩
  have hword : ("audit", Domain.audit) ∈ domainWords := by decide
  have haudit : ¬ Opens path "/audit" := fun hopen => h ⟨_, hword, unslashed_of_opens hword hopen⟩
  rw [requiredRole_of_plain hnotifications hauth hviews howner haudit]
  simp [hupdate]

end

theorem requiredRole_of_users (h : Opens path "/users") : ¬ Opens path "/auth/" ∧
    (requiredRole m path = .viewer ↔ m.reads ∧ ¬ Enrolls path) := by
  have hwords : ∀ word ∈ "/notifications" :: "/auth/" :: "/saved-views" :: "/audit" :: ownerPaths,
      ¬ ("/users".toList <+: word.toList ∨ word.toList <+: "/users".toList) := by decide
  have hnot := fun word hword => not_opens h (hwords word hword)
  exact ⟨hnot _ (by decide), requiredRole_of_plain (hnot _ (by decide)) (hnot _ (by decide))
    (hnot _ (by decide)) (fun word hword => hnot word (by simp [hword])) (hnot _ (by decide))⟩

end

/-! ### A matrix that grants nothing -/

/-- What the allowlist of resellers has on users. -/
def OwnUsers (path : String) : Prop :=
  path = "/users" ∧ m ∈ [Method.get, .post] ∨ ∃ rest, path.toList = "/users/".toList ++ rest ∧
    ('/' ∉ rest ∧ m ∈ [Method.get, .patch, .delete] ∨ ∃ id sub, rest = id ++ '/' :: sub ∧ '/' ∉ id ∧
      ((∃ w ∈ resellerUserPaths, w.1.toList = sub ∧ m ∈ w.2) ∨
        "subscriptions/".toList <+: sub ∧ m ∈ [Method.get, .delete]))

/-- The request is safe under a matrix that grants nothing: it belongs to a domain, to the caller's own
    account or views, or it reads something that is neither the update nor an enrollment. A reseller
    keeps its users, whatever the matrix says. -/
def Confined (m : Method) (path : String) : Prop :=
  if role = .reseller then OwnUsers m path → m.reads ∧ ¬ Enrolls path
  else Guarded path ∨ Opens path "/auth/" ∨ Opens path "/notifications" ∨ Opens path "/saved-views" ∨
    m.reads ∧ ¬ Opens path "/update" ∧ ¬ Enrolls path

/-- The request is a viewer's or concerns the caller's account, and never an owner's. -/
def Unprivileged (path : String) : Prop :=
  (requiredRole m path = .viewer ∨ Opens path "/auth/") ∧ requiredRole m path ≠ .owner

section

variable {m : Method} {path : String} {i : Identity} {p : Matrix}

theorem unprivileged_of_viewer (h : requiredRole m path = .viewer) : Unprivileged m path := ⟨.inl h, by rw [h]; decide⟩

theorem unprivileged_of_auth (h : Opens path "/auth/") : Unprivileged m path := ⟨.inr h, requiredRole_of_auth h⟩

theorem authorize_reseller (h : i.role = .reseller) : authorize i m path = .ok () ↔ resellerPermits m path := by
  simp [authorize, Identity.isReseller, h]

theorem authorize_matrix (hrole : i.role ≠ .reseller) (hp : i.permissions = some p) :
    authorize i m path = .ok () ↔ ¬ Guarded path ∨ m.need ≤ p.level (pathDomain path) := by
  rw [← pathDomain_eq_dashboard]
  simp [authorize, Identity.isReseller, hrole, hp, Identity.permitsDomain, or_iff_not_imp_left]

theorem authorize_ladder (hrole : i.role ≠ .reseller) (hp : i.permissions = none) :
    authorize i m path = .ok () ↔ (requiredRole m path).rank ≤ i.role.rank := by
  simp [authorize, Identity.isReseller, hrole, hp, Identity.permits]

theorem resellerSubPermits_iff {sub : List Char} : resellerSubPermits m sub ↔
    (∃ w ∈ resellerUserPaths, w.1.toList = sub ∧ m ∈ w.2) ∨
      "subscriptions/".toList <+: sub ∧ m ∈ [Method.get, .delete] := by
  have hnd : (resellerUserPaths.map (·.1.toList)).Nodup := by decide
  have hno : ∀ w ∈ resellerUserPaths, ¬ "subscriptions/".toList <+: w.1.toList := by decide
  rw [resellerSubPermits]
  cases hfind : resellerUserPaths.find? (·.1.toList = sub) with
  | none =>
    have hnone : ¬ ∃ w ∈ resellerUserPaths, w.1.toList = sub ∧ m ∈ w.2 := by
      rintro ⟨w, hw, rfl, -⟩
      exact find?_eq_none.mp hfind w hw (decide_eq_true rfl)
    rw [or_iff_right hnone, Bool.and_eq_true, decide_eq_true_eq, decide_eq_true_eq]
  | some w =>
    have hw := mem_of_find?_eq_some hfind
    obtain rfl : w.1.toList = sub := by simpa using find?_some hfind
    rw [or_iff_left fun h => hno w hw h.1, decide_eq_true_eq]
    constructor
    · exact fun hm => ⟨w, hw, rfl, hm⟩
    · rintro ⟨w', hw', heq, hm⟩
      exact inj_on_of_nodup_map hnd hw' hw heq ▸ hm

theorem resellerUserPermits_iff {rest : List Char} : resellerUserPermits m rest ↔
    '/' ∉ rest ∧ m ∈ [Method.get, .patch, .delete] ∨ ∃ id sub, rest = id ++ '/' :: sub ∧ '/' ∉ id ∧
      ((∃ w ∈ resellerUserPaths, w.1.toList = sub ∧ m ∈ w.2) ∨
        "subscriptions/".toList <+: sub ∧ m ∈ [Method.get, .delete]) := by
  rw [resellerUserPermits]
  cases hsplit : splitOnce '/' rest with
  | none =>
    have hno := splitOnce_eq_none.mp hsplit
    rw [or_iff_left, and_iff_right hno, decide_eq_true_eq]
    rintro ⟨id, sub, rfl, -⟩
    exact hno (by simp)
  | some parts =>
    obtain ⟨hrest, hid⟩ := splitOnce_eq_some.mp hsplit
    rw [or_iff_right fun h => h.1 (by simp [hrest])]
    constructor
    · exact fun h => ⟨parts.1, parts.2, hrest, hid, resellerSubPermits_iff.mp h⟩
    · rintro ⟨id, sub, heq, hid', h⟩
      rw [splitOnce_eq_some.mpr ⟨heq, hid'⟩] at hsplit
      rw [← hsplit]
      exact resellerSubPermits_iff.mpr h

theorem dropPrefix?_eq_some_iff {l w rest : List Char} : l.dropPrefix? w = some rest ↔ l = w ++ rest := by
  rw [List.dropPrefix?_eq_some_iff]
  simp

/-- Every entry of the allowlist is harmless or about users. -/
theorem resellerPermits_cases (h : resellerPermits m path) : Unprivileged m path ∨ OwnUsers m path := by
  have hwords : ∀ w ∈ resellerPaths, ∀ m ∈ w.2, w.1 = "/users" ∨ requiredRole m w.1 = .viewer ∨
      Opens w.1 "/auth/" := by decide
  rw [resellerPermits] at h
  split at h
  · rename_i w hw
    have hmem := mem_of_find?_eq_some hw
    obtain rfl : w.1 = path := by simpa using find?_some hw
    rcases hwords w hmem m (of_decide_eq_true h) with husers | hviewer | hauth
    · have hm := (by decide : ∀ w ∈ resellerPaths, w.1 = "/users" → w.2 = [Method.get, .post]) w hmem husers
      exact .inr (.inl ⟨husers, hm ▸ of_decide_eq_true h⟩)
    · exact .inl (unprivileged_of_viewer hviewer)
    · exact .inl (unprivileged_of_auth hauth)
  · split at h
    · rename_i hviews
      have hopen : Opens path "/saved-views" := IsPrefix.trans (by decide) hviews
      refine .inl (unprivileged_of_viewer ?_)
      rw [requiredRole]
      split_ifs <;> rfl
    · split at h
      · rename_i hsessions
        exact .inl (unprivileged_of_auth (IsPrefix.trans (by decide) hsessions))
      · split at h
        · rename_i rest hrest
          exact .inr (.inr ⟨rest, dropPrefix?_eq_some_iff.mp hrest, resellerUserPermits_iff.mp h⟩)
        · cases h

theorem resellerPermits_of_ownUsers (h : OwnUsers m path) : resellerPermits m path := by
  rcases h with ⟨rfl, hm⟩ | ⟨rest, hrest, h⟩
  · rw [resellerPermits]
    simpa [resellerPaths] using hm
  have hopen : Opens path "/users/" := ⟨rest, hrest.symm⟩
  have hnone : resellerPaths.find? (·.1 = path) = none := by
    rw [find?_eq_none]
    intro w hw heq
    have : ¬ Opens w.1 "/users/" := (by decide : ∀ w ∈ resellerPaths, ¬ Opens w.1 "/users/") w hw
    exact this (of_decide_eq_true heq ▸ hopen)
  rw [resellerPermits, hnone]
  rw [if_neg (not_opens hopen (by decide)), if_neg (not_opens hopen (by decide)), dropPrefix?_eq_some_iff.mpr hrest]
  exact resellerUserPermits_iff.mpr h

theorem opens_of_ownUsers (h : OwnUsers m path) : Opens path "/users" := by
  rcases h with ⟨rfl, -⟩ | ⟨rest, hrest, -⟩
  · exact prefix_refl _
  · exact IsPrefix.trans (by decide) ⟨rest, hrest.symm⟩

theorem reseller_confined_iff : (resellerPermits m path → Unprivileged m path) ↔ Confined .reseller m path := by
  constructor
  · intro h hown
    obtain ⟨hauth, hviewer⟩ := requiredRole_of_users (opens_of_ownUsers hown)
    rcases (h (resellerPermits_of_ownUsers hown)).1 with hview | hopen
    · exact hviewer.mp hview
    · exact absurd hopen hauth
  · intro h hpermits
    rcases resellerPermits_cases hpermits with hplain | hown
    · exact hplain
    · exact unprivileged_of_viewer ((requiredRole_of_users (opens_of_ownUsers hown)).2.mpr (h hown))

theorem unguarded_confined_iff {role : Role} (hrole : role ≠ .reseller) :
    (¬ Guarded path → Unprivileged m path) ↔ Confined role m path := by
  rw [Confined, if_neg hrole, or_iff_not_imp_left]
  refine imp_congr_right fun hguard => ?_
  by_cases hauth : Opens path "/auth/"
  · exact iff_of_true (unprivileged_of_auth hauth) (.inl hauth)
  by_cases hnotifications : Opens path "/notifications"
  · refine iff_of_true (unprivileged_of_viewer ?_) (.inr (.inl hnotifications))
    rw [requiredRole, if_pos hnotifications]
  by_cases hviews : Opens path "/saved-views"
  · refine iff_of_true (unprivileged_of_viewer ?_) (.inr (.inr (.inl hviews)))
    rw [requiredRole]
    split_ifs <;> rfl
  simp only [hauth, hnotifications, hviews, false_or]
  rw [← requiredRole_of_unguarded hnotifications hauth hviews hguard]
  exact ⟨fun h => h.1.resolve_right hauth, unprivileged_of_viewer⟩

end

/-- Under a matrix that grants nothing, what passes is a viewer's or the caller's own business exactly
    if the request is confined. -/
theorem empty_matrix_iff (g : Gate) (f : Faults) (now : ℤ) (db : AuthDb) (req : ApiRequest) (i : Identity)
    (p : Matrix) (hid : identify g f now db req.head = .ok i) (hscreen : screen g f db req = .ok ())
    (hp : i.permissions = some p) (hnothing : ∀ d, p.level d ≤ 0) :
    (requireAuth g f now db req = .ok i → Unprivileged req.method req.path) ↔ Confined i.role req.method req.path := by
  have hauth : requireAuth g f now db req = .ok i ↔ authorize i req.method req.path = .ok () := by
    rw [requireAuth_eq_ok]
    exact ⟨fun h => h.2.2, fun h => ⟨hid, hscreen, h⟩⟩
  rw [hauth]
  by_cases hrole : i.role = .reseller
  · rw [authorize_reseller hrole, hrole, reseller_confined_iff]
  have hneed : ∀ d, ¬ req.method.need ≤ p.level d := by
    intro d hle
    have hpos : 0 < req.method.need := by
      rw [Method.need]
      split <;> decide
    have := hnothing d
    omega
  rw [authorize_matrix hrole hp, or_iff_left (hneed _), unguarded_confined_iff hrole]

/-- A master without a shared token. -/
def plainGate : Gate := ⟨none, id, fun _ => true, fun _ _ => true, id⟩

/-- A session cookie and nothing else. -/
def cookieHead : Head := ⟨none, some "honey_session=t", none, none, none, none⟩

/-- `carol` has a session and the custom role 5. -/
def customDb (permissions : Json) : AuthDb where
  admins := Table.empty.put ⟨1, "carol", "h", role, true, 0, 0, 0, 0, some 5⟩
  sessions := Table.empty.put ⟨"t", 1, 10⟩
  apiKeys := Table.empty
  customRoles := Table.empty.put ⟨5, "custom", permissions⟩
  adminIps := []
  nodeGroups := []
  resellerGroups := []
  assigned := by
    intro a ha r hr
    obtain rfl := mem_singleton.mp ha
    obtain rfl := some.inj hr
    rfl

/-- What `carol` is then. -/
def custom (p : Matrix) : Identity := ⟨some 1, "carol", role, some "t", some p⟩

theorem issues_unprivileged : requireAuth plainGate .none 0 (customDb .viewer (.obj [])) ⟨cookieHead, .get, "/issues"⟩ =
      .ok (custom .viewer []) ∧ Unprivileged .get "/issues" := by
  have hin : requireAuth plainGate .none 0 (customDb .viewer (.obj [])) ⟨cookieHead, .get, "/issues"⟩ =
      .ok (custom .viewer []) := by decide +kernel
  refine ⟨hin, (empty_matrix_iff plainGate .none 0 _
    ⟨cookieHead, .get, "/issues"⟩ _ [] (requireAuth_eq_ok.mp hin).1
    (requireAuth_eq_ok.mp hin).2.1 rfl (fun d => by cases d <;> decide)).mpr ?_ hin⟩
  exact .inr (.inr (.inr (.inr ⟨rfl, by decide, by decide⟩)))

/-- The update of the master is an owner's business and nobody's domain. -/
theorem update_reachable :
    requireAuth plainGate .none 0 (customDb .viewer (.obj [])) ⟨cookieHead, .post, "/update/apply"⟩ =
      .ok (custom .viewer []) ∧ requiredRole .post "/update/apply" = .owner ∧ ¬ Opens "/update/apply" "/auth/" := by
  decide +kernel

end Honey.Master
