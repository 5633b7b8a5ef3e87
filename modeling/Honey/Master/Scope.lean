import Honey.Master.Office
import Honey.Master.Public

/-! Everything that `reseller_permits` admits, from the path to the reply.

        /users/:id/…      owned_user - one statement - the row as it is then
        /users            created_by = r
        /analytics/…      traffic_usage_hourly JOIN users, created_by = r
        /live-connections every user opened - connections whose name belongs to a user of r
        the rest          accounts and groups

    Each handler enforces the scope on its own; together they are the function `Panel.answer`. -/

namespace Honey.Master
open Honey.Schemes

/-! ### The panel -/

/-- A connection as an agent reports it. -/
structure Connection where
  (user sourceIp destination network : String)
  (upBytes downBytes : ℕ)
  startedAt : ℤ
  chain : String

/-- The tables, and what the connected nodes answer when asked for their connections. -/
structure Panel where
  users : UserDb
  office : Office
  groups : Table NodeGroup.id
  settings : List (String × String)
  brand : Option String
  fleet : List (Uuid × Option (List Connection))

/-- What the handlers take from outside: secrets and texts, the table of countries, and formatting. -/
structure Toolkit where
  gate : Gate
  env : Env
  texts : Texts
  geo : String → String
  countryRanges : ℕ
  (rfc3339 minute bytes : ℤ → String)
  percent : ℚ → String
  page : List (String × String) → String

/-- The identity of a reseller. -/
structure Seat where
  account : Uuid
  username : String
  sessionHash : Option String
  permissions : Option Matrix

def Seat.identity (i : Seat) : Identity := ⟨some i.account, i.username, .reseller, i.sessionHash, i.permissions⟩

def settingI64 (settings : List (String × String)) (key : String) (default : ℤ) : ℤ :=
  ((settings.lookup key).bind fun v => parseI64 (trim v)).getD default

/-! ### Users -/

/-- A user without what `serde` skips. -/
def Subscriber.serialized (a : Subscriber) : Subscriber where
  user := { a.user with password := "" }
  profile := { a.profile with subscriptionTokenHash := "", subscriptionTokenEnc := none }

structure UserView where
  user : Subscriber
  active : Bool
  suppressedReason : Option String

def Subscriber.view (now : ℤ) (a : Subscriber) : UserView :=
  ⟨a.serialized, (a.user.suppressedReason now).isNone, a.user.suppressedReason now⟩

structure Revealed where
  (token path permanent revocable : Option String)
  deriving DecidableEq, Repr

variable (env : Env) (s : UserDb)

/-- `reveal_subscription` after the lookup. -/
def revealSubscription (id : Uuid) : Except Refusal Revealed := do
  let u ← userFound (s.db.users.find? id)
  let permanent := some ("/sub/" ++ id.text)
  match (s.profile u.id).subscriptionTokenEnc with
  | none => return ⟨none, permanent, permanent, none⟩
  | some enc =>
    let token ← opened (env.decrypt enc)
    return ⟨some token, permanent, permanent, some ("/sub/" ++ token)⟩

/-- `reveal_user_subscription` after the lookup. -/
def revealUserSubscription (id sid : Uuid) : Except Refusal Revealed :=
  match (s.subscriptions.find? sid).filter (·.userId = id) with
  | none => .error (.notFound "subscription not found")
  | some sub => match sub.tokenEnc with
    | none => .ok ⟨none, none, none, none⟩
    | some enc => (opened (env.decrypt enc)).map fun token =>
      ⟨some token, some ("/sub/" ++ token), none, some ("/sub/" ++ token)⟩

/-- A named link without what `serde` skips. -/
def UserSubscription.serialized (sub : UserSubscription) : UserSubscription :=
  { sub with tokenHash := "", tokenEnc := none }

def listUserSubscriptions (id : Uuid) : List UserSubscription :=
  (s.subscriptions.rows.filter (·.userId = id)).insertionSort fun a b => a.createdAt ≤ b.createdAt

def userGroupIds (id : Uuid) : List Uuid :=
  (s.db.userGroupAccess.filter (·.1 = id)).map (·.2)

/-- `list_user_labels_for_creator`, in the order of the collation. -/
def userLabels (t : Texts) (s : UserDb) (r : Uuid) : List String :=
  (((s.db.users.rows.filter (s.owns r)).flatMap fun u => (s.profile u.id).labels).dedup).insertionSort
    fun a b => t.le a b

def listLabels (t : Texts) (s : UserDb) (r : Uuid) (resource : String) : Except Refusal (List String) :=
  if resource ∉ viewResources then .error (.badRequest "unsupported label resource")
  else if resource ∉ ["users", "issues"] then .error (.forbidden "label resource is outside your scope")
  else .ok (userLabels t s r)

structure OnboardingStep where
  (key label description : String)
  complete : Bool
  route : String
  action : Option String
  deriving DecidableEq, Repr

/-- `onboarding`; the view counts the steps and those that are complete. -/
def onboarding (r : Uuid) : List OnboardingStep :=
  let shared := s.db.users.rows.filter fun u => s.owns r u && (s.profile u.id).subscriptionTokenEnc.isSome
  [⟨"user", "Create a user", "Set access, quota and expiry for a subscriber.",
      0 < countUsersForCreator s r, "users", some "add-user"⟩,
    ⟨"subscription", "Share a subscription", "Reveal the current link and import it into a client.",
      0 < shared.length, "subscriptions", none⟩]

/-! ### Live connections -/

structure LiveConn where
  nodeId : Uuid
  (node user : String)
  userId : Option Uuid
  (sourceIp destination network : String)
  (upBytes downBytes : ℤ)
  startedAt : Option ℤ
  chain : String
  deriving DecidableEq, Repr

/-- `as i64`. -/
def asI64 (n : ℕ) : ℤ := (n : ℤ).bmod (2 ^ 64)

def Connection.view (c : Connection) (nodeId : Uuid) (node : String) (userId : Uuid) : LiveConn where
  nodeId := nodeId
  node := node
  user := c.user
  userId := some userId
  sourceIp := c.sourceIp
  destination := c.destination
  network := c.network
  upBytes := asI64 c.upBytes
  downBytes := asI64 c.downBytes
  startedAt := if 0 < c.startedAt then some c.startedAt else none
  chain := c.chain

/-- The name of a node that is still in the table. -/
def nodeName (id : Uuid) : String := ((s.db.nodes.find? id).map (·.name)).getD ""

/-- The user of the reseller that a connection belongs to, by its name. -/
def connOwner (users : List Subscriber) (r : Uuid) (name : String) : Option Uuid :=
  ((users.find? (·.user.username = name)).filter (·.profile.createdBy = some r)).map (·.user.id)

/-- The connections of the reseller's users, node by node; a node that does not answer is skipped. -/
def scopedConnections (p : Panel) (r : Uuid) (users : List Subscriber) : List LiveConn :=
  p.fleet.flatMap fun n => (n.2.getD []).filterMap fun c =>
    (connOwner users r c.user).map (c.view n.1 (nodeName p.users n.1))

/-- `collect_live_connections`: the users are listed, and opened, without a filter. -/
def collectLiveConnections (p : Panel) (r : Uuid) : Except Refusal (List LiveConn) :=
  (listUsers env p.users fun _ => true).map (scopedConnections p r)

structure GeoBucket where
  code : String
  (connections users : ℕ)
  (upBytes downBytes : ℤ)
  deriving DecidableEq, Repr

structure GeoDistribution where
  (countryRanges total : ℕ)
  buckets : List GeoBucket
  deriving DecidableEq, Repr

/-- The connections from one country. -/
def geoBucket (geo : String → String) (conns : List LiveConn) (code : String) : GeoBucket :=
  let here := conns.filter (geo ·.sourceIp = code)
  ⟨code, here.length, ((here.map (·.user)).filter (· ≠ "")).dedup.length,
    ((here.map LiveConn.upBytes).sum).bmod (2 ^ 64), ((here.map LiveConn.downBytes).sum).bmod (2 ^ 64)⟩

variable (t : Toolkit)

/-- `geo_distribution` of the connections. -/
def geoDistribution (conns : List LiveConn) : GeoDistribution :=
  let codes := (conns.map (t.geo ·.sourceIp)).dedup
  ⟨t.countryRanges, conns.length, (codes.map (geoBucket t.geo conns)).insertionSort fun a b =>
    b.connections < a.connections ∨ b.connections = a.connections ∧ a.code ≤ b.code⟩

/-! ### Traffic -/

structure TrafficQuery where
  (start stop : Option ℤ)
  bucket : Option String
  (nodeId userId : Option Uuid)
  core : Option String

inductive BucketSize where | hour | day
  deriving DecidableEq, Repr

/-- In microseconds. -/
def BucketSize.span : BucketSize → ℤ
  | .hour => 3600000000
  | .day => 86400000000

def BucketSize.name : BucketSize → String
  | .hour => "hour"
  | .day => "day"

structure TrafficRange where
  (start stop : ℤ)
  bucket : BucketSize

def bucketSize (span : ℤ) : Option String → Except Refusal BucketSize
  | none => .ok (if span ≤ 7 * BucketSize.day.span then .hour else .day)
  | some "hour" => .ok .hour
  | some "day" => .ok .day
  | some _ => .error (.badRequest "bucket must be hour or day")

def validateTrafficQuery (q : TrafficQuery) (now : ℤ) : Except Refusal TrafficRange := do
  if q.core.any (· ∉ ["singbox", "xray"]) then throw (.badRequest "core must be singbox or xray")
  let stop := q.stop.getD now
  let start := q.start.getD (stop - BucketSize.day.span)
  if stop - start ≤ 0 then throw (.badRequest "traffic range must be positive")
  if 366 * BucketSize.day.span < stop - start then
    throw (.badRequest "traffic range must not exceed 366 days")
  let bucket ← bucketSize (stop - start) q.bucket
  if bucket = .hour ∧ 31 * BucketSize.day.span < stop - start then
    throw (.badRequest "hour buckets are limited to a 31-day range")
  return ⟨start, stop, bucket⟩

def Core.text : Core → String
  | .singbox => "singbox"
  | .xray => "xray"

/-- The rows behind the aggregates: `traffic_usage_hourly h JOIN users u ON u.id = h.user_id`, with the
    filters of the query. -/
def trafficRows (r : Uuid) (q : TrafficQuery) (start stop : ℤ) : List (HourlyRow × User) :=
  s.db.hourly.rows.filterMap fun h =>
    if start ≤ h.bucket ∧ h.bucket < stop ∧ q.nodeId.all (h.nodeId = ·) ∧ q.userId.all (h.userId = ·) ∧
        q.core.all (h.core.text = ·) then
      ((s.db.users.find? h.userId).filter (s.owns r)).map (h, ·)
    else none

/-- A `bigint`, or the error of the database. -/
def dbInt (x : ℤ) : Except Refusal ℤ :=
  match bigint x with
  | .ok x => .ok x
  | .error _ => .error .internal

/-- The two sums of a group of rows. -/
def upDown (rows : List (HourlyRow × User)) : Except Refusal (ℤ × ℤ) := do
  let up ← dbInt (rows.map (·.1.upBytes)).sum
  let down ← dbInt (rows.map (·.1.downBytes)).sum
  return (up, down)

/-- `date_trunc`. -/
def BucketSize.trunc (b : BucketSize) (t : ℤ) : ℤ := t / b.span * b.span

def trafficSeries (b : BucketSize) (rows : List (HourlyRow × User)) : Except Refusal (List (ℤ × ℤ × ℤ)) :=
  ((rows.map (b.trunc ·.1.bucket)).dedup.insertionSort (· ≤ ·)).mapM fun t =>
    (upDown (rows.filter (b.trunc ·.1.bucket = t))).map (t, ·)

structure TrafficRank where
  id : Uuid
  name : String
  (upBytes downBytes : ℤ)
  deriving DecidableEq, Repr

/-- A user's group of rows, with the sum it is ranked by. -/
def rankOf (rows : List (HourlyRow × User)) (u : Uuid × String) : Except Refusal (ℤ × TrafficRank) := do
  let own := rows.filter fun x => x.2.id = u.1 ∧ x.2.username = u.2
  let sums ← upDown own
  let both ← own.mapM fun x => dbInt (x.1.upBytes + x.1.downBytes)
  return (both.sum, ⟨u.1, u.2, sums.1, sums.2⟩)

def trafficTopUsers (le : String → String → Bool) (rows : List (HourlyRow × User)) :
    Except Refusal (List TrafficRank) := do
  let ranks ← ((rows.map fun x => (x.2.id, x.2.username)).dedup).mapM (rankOf rows)
  return ((ranks.insertionSort fun a b => b.1 < a.1 ∨ b.1 = a.1 ∧ le a.2.name b.2.name).map (·.2)).take 10

def trafficByCore (rows : List (HourlyRow × User)) : Except Refusal (List (Core × ℤ × ℤ)) :=
  ([Core.singbox, Core.xray].filter fun c => rows.any (·.1.core = c)).mapM fun c =>
    (upDown (rows.filter (·.1.core = c))).map (c, ·)

def saturatingAdd (a b : ℤ) : ℤ := max (-2 ^ 63) (min (a + b) (2 ^ 63 - 1))

/-- What a reseller gets of the analytics: no nodes, and no health of the fleet. -/
structure TrafficView where
  scope : String
  range : TrafficRange
  (retentionDays upBytes downBytes totalBytes previousTotalBytes : ℤ)
  changePercent : Option ℚ
  series : List (ℤ × ℤ × ℤ)
  (topUsers topNodes : List TrafficRank)
  cores : List (Core × ℤ × ℤ)

def trafficChangePercent (current previous : ℤ) : Option ℚ :=
  if previous ≤ 0 then none else some ((current - previous : ℚ) / previous * 100)

/-- The user that a query is about is the reseller's. -/
def queryUser (r : Uuid) : Option Uuid → Except Refusal Unit
  | none => .ok ()
  | some id => (ownedUser env r s id).map fun _ => ()

def buildTrafficAnalytics (s : UserDb) (settings : List (String × String)) (r : Uuid) (now : ℤ)
    (q : TrafficQuery) : Except Refusal TrafficView := do
  let range ← validateTrafficQuery q now
  if q.nodeId.isSome then throw (.forbidden "node filters are outside reseller scope")
  queryUser t.env s r q.userId
  let rows := trafficRows s r q range.start range.stop
  let current ← upDown rows
  let previous ← upDown (trafficRows s r q (range.start - (range.stop - range.start)) range.start)
  let series ← trafficSeries range.bucket rows
  let topUsers ← trafficTopUsers t.env.usernameLe rows
  let cores ← trafficByCore rows
  let total := saturatingAdd current.1 current.2
  let previousTotal := saturatingAdd previous.1 previous.2
  return {
    scope := "reseller"
    range := range
    retentionDays := max 7 (min (settingI64 settings "traffic_history_days" 180) 3650)
    upBytes := current.1
    downBytes := current.2
    totalBytes := total
    previousTotalBytes := previousTotal
    changePercent := trafficChangePercent total previousTotal
    series := series
    topUsers := topUsers
    topNodes := []
    cores := cores }

/-- `traffic_analytics_csv` of the view. -/
def trafficCsv (view : TrafficView) : String :=
  "bucket,upload_bytes,download_bytes,total_bytes\n" ++ String.join (view.series.map fun p =>
      s!"{t.rfc3339 p.1},{p.2.1},{p.2.2},{saturatingAdd p.2.1 p.2.2}\n")

/-- One row of a table of the report. -/
def reportRow (name : String) (up down : ℤ) : String :=
  "<tr><td>" ++ escapeHtml name ++ "</td><td class=\"n\">" ++ t.bytes (up + down) ++
    "</td><td class=\"n\">" ++ t.bytes up ++ "</td><td class=\"n\">" ++ t.bytes down ++ "</td></tr>"

def emptyRow (text : String) : String := "<tr><td colspan=\"4\" class=\"muted\">" ++ text ++ "</td></tr>"

def reportRows (rows : List TrafficRank) : String :=
  if rows = [] then emptyRow "no traffic in this period"
  else String.join (rows.map fun r => reportRow t r.name r.upBytes r.downBytes)

/-- `period_report` of the view: what is filled into the page. -/
def reportValues (brand : Option String) (now : ℤ) (view : TrafficView) : List (String × String) :=
  [("brand", escapeHtml (brand.getD "honey")), ("from", t.minute view.range.start),
    ("to", t.minute view.range.stop), ("bucket", view.range.bucket.name), ("scope", view.scope),
    ("now", t.minute now), ("health", ""), ("total", t.bytes view.totalBytes),
    ("up", t.bytes view.upBytes), ("down", t.bytes view.downBytes),
    ("change", match view.changePercent with
      | some p => t.percent p ++ "% vs previous period"
      | none => "no comparable previous period"),
    ("users", reportRows t view.topUsers), ("nodes", reportRows t view.topNodes),
    ("cores", if view.cores = [] then emptyRow "no core traffic in this period"
      else String.join (view.cores.map fun c => reportRow t c.1.text c.2.1 c.2.2))]

/-! ### Requests -/

/-- A request that has reached its handler. -/
inductive ResellerCall where
  | office (call : OfficeCall)
  | groups
  | labels (resource : String)
  | onboarding
  | live
  | geo
  | traffic (q : TrafficQuery)
  | trafficCsv (q : TrafficQuery)
  | report (q : TrafficQuery)
  | users
  | create (input : CreateUserInput)
  | user (id : Uuid)
  | edit (id : Uuid) (e : Edit)
  | reveal (id : Uuid)
  | subscriptions (id : Uuid)
  | revealSubscription (id sid : Uuid)
  | userGroups (id : Uuid)

inductive ScopeReply where
  | office (reply : OfficeReply)
  | groups (rows : List NodeGroup)
  | labels (labels : List String)
  | onboarding (steps : List OnboardingStep)
  | connections (rows : List LiveConn)
  | geo (distribution : GeoDistribution)
  | traffic (view : TrafficView)
  | csv (text : String)
  | html (text : String)
  | users (rows : List UserView)
  | user (view : UserView)
  | created (view : UserView) (token : Uuid) (path revocable : String)
  | credentials (uuid : Uuid) (password : String)
  | token (token : Uuid) (path : String)
  | newSubscription (sid : Uuid) (name : String) (token : Uuid) (path : String)
  | revealed (r : Revealed)
  | subscriptions (rows : List UserSubscription)
  | userGroups (ids : List Uuid)
  | noContent

/-- The rejections and the deserialisers of the framework. -/
structure Extractors where
  (unrouted badPath : Refusal)
  adminQuery : String → Except Refusal (Option Uuid)
  historyQuery : String → Except Refusal (Option Uuid × Bool × Option ℤ)
  labelQuery : String → Except Refusal String
  trafficQuery : String → Except Refusal TrafficQuery
  newView : String → Except Refusal NewSavedView
  updateView : String → Except Refusal UpdateSavedView
  newUser : String → Except Refusal CreateUserInput
  updateUser : String → Except Refusal UpdateUserInput
  rotate : String → Except Refusal (Option String)
  subName : String → Except Refusal String
  subAlias : String → Except Refusal (Option String)
  groupIds : String → Except Refusal (List Uuid)
  labels : String → Except Refusal (List String)

structure ScopedRequest where
  method : Method
  (path query body : String)

/-- `Path<Uuid>`; a parameter of a route is not empty. -/
def Extractors.id (x : Extractors) (segment : String) : Except Refusal Uuid :=
  if segment = "" then .error x.unrouted
  else match pathUuid segment with
    | some id => .ok id
    | none => .error x.badPath

/-- The routes below `/users/:id`. -/
def userRoute (x : Extractors) (q : ScopedRequest) (id : Uuid) : List String → Except Refusal ResellerCall
  | [] => match q.method with
    | .get => .ok (.user id)
    | .patch => (x.updateUser q.body).map fun input => .edit id (.update input)
    | .delete => .ok (.edit id .delete)
    | _ => .error x.unrouted
  | ["rotate"] => (x.rotate q.body).map fun password => .edit id (.rotate password)
  | ["reset-traffic"] => .ok (.edit id .reset)
  | ["rotate-sub"] => .ok (.edit id .rotateSubscription)
  | ["subscription"] => .ok (.reveal id)
  | ["subscriptions"] => match q.method with
    | .get => .ok (.subscriptions id)
    | .post => (x.subName q.body).map fun name => .edit id (.addSubscription name)
    | _ => .error x.unrouted
  | ["subscriptions", sid] => match q.method with
    | .get => (x.id sid).map (.revealSubscription id)
    | .delete => (x.id sid).map fun sid => .edit id (.deleteSubscription sid)
    | _ => .error x.unrouted
  | ["alias"] => (x.subAlias q.body).map fun value => .edit id (.setAlias value)
  | ["groups"] => match q.method with
    | .get => .ok (.userGroups id)
    | .put => (x.groupIds q.body).map fun groups => .edit id (.setGroups groups)
    | _ => .error x.unrouted
  | ["labels"] => (x.labels q.body).map fun labels => .edit id (.setLabels labels)
  | _ => .error x.unrouted

/-- The routes of what `reseller_permits` admits. -/
def route (x : Extractors) (q : ScopedRequest) : Except Refusal ResellerCall :=
  match segments q.path with
  | ["", "auth", "me"] => .ok (.office .me)
  | ["", "auth", "logout"] => .ok (.office .logout)
  | ["", "auth", "sessions"] => (x.adminQuery q.query).map fun id => .office (.sessions id)
  | ["", "auth", "sessions", "revoke-others"] => .ok (.office .revokeOthers)
  | ["", "auth", "sessions", id] => (x.id id).map fun id => .office (.revokeSession id)
  | ["", "auth", "login-history"] => (x.historyQuery q.query).map fun h =>
    .office (.loginHistory h.1 h.2.1 h.2.2)
  | ["", "groups"] => .ok .groups
  | ["", "labels"] => (x.labelQuery q.query).map .labels
  | ["", "analytics", "traffic"] => (x.trafficQuery q.query).map .traffic
  | ["", "analytics", "traffic.csv"] => (x.trafficQuery q.query).map .trafficCsv
  | ["", "reports", "period"] => (x.trafficQuery q.query).map .report
  | ["", "analytics", "geo"] => .ok .geo
  | ["", "live-connections"] => .ok .live
  | ["", "onboarding"] => .ok .onboarding
  | ["", "saved-views"] => match q.method with
    | .get => .ok (.office .views)
    | _ => (x.newView q.body).map fun input => .office (.createView input)
  | ["", "saved-views", id] => match q.method with
    | .patch => do return .office (.updateView (← x.id id) (← x.updateView q.body))
    | _ => (x.id id).map fun id => .office (.deleteView id)
  | ["", "users"] => match q.method with
    | .get => .ok .users
    | _ => (x.newUser q.body).map .create
  | "" :: "users" :: id :: rest => (x.id id).bind fun id => userRoute x q id rest
  | _ => .error x.unrouted

/-- What a request draws. -/
structure ScopeDraws extends Draws where
  view : Uuid

/-! ### Handlers -/

/-- The row of the reseller. -/
def Office.account (o : Office) (r : Uuid) : Option Admin := o.auth.admins.find? r

/-- `reseller_group_ids`. -/
def Office.entitled (o : Office) (r : Uuid) : List Uuid :=
  (o.auth.resellerGroups.filter (·.1 = r)).map (·.2)

/-- What a statement about a user of the account reads besides users. -/
def Panel.market (p : Panel) (account : Admin) : Market :=
  ⟨t.gate, t.env, account, p.office.entitled account.id, p.groups.rows.map (·.id)⟩

/-- An account of which only the id is known. -/
def Admin.idOnly (id : Uuid) : Admin := ⟨id, "", "", .reseller, true, 0, 0, 0, 0, none⟩

/-- The row of a user as it is now, for the reply. -/
def replyUser (now : ℤ) (s : UserDb) (id : Uuid) : Except Refusal UserView := do
  return (← userFound (← getUser env s id)).view now

/-- What an edit that was made is answered with. -/
def Edit.reply (now : ℤ) (x : EditDraw) (id : Uuid) (s : UserDb) : Edit → Except Refusal ScopeReply
  | .update _ | .reset | .setAlias _ | .setLabels _ => (replyUser env now s id).map .user
  | .delete | .setGroups _ | .deleteSubscription _ => .ok .noContent
  | .rotate password => .ok (.credentials x.uuid (password.getD x.password))
  | .rotateSubscription => .ok (.token x.token ("/sub/" ++ x.token.text))
  | .addSubscription name => .ok (.newSubscription x.sid (trim name) x.token ("/sub/" ++ x.token.text))

section

variable (t : Toolkit) (now : ℤ) (i : Seat)

variable (p : Panel)

/-- An edit, from its checks to the reply. -/
def Panel.edit (x : EditDraw) (id : Uuid) (e : Edit) : UserDb × Except Refusal ScopeReply :=
  match editForReseller (p.market t (.idOnly i.account)) now x id e p.users with
  | .error r => (p.users, .error r)
  | .ok s => (s, e.reply t.env now x id s)

/-- `create_user`. -/
def Panel.create (x : UserDraw) (input : CreateUserInput) : UserDb × Except Refusal ScopeReply :=
  match validated (validateUser input.toNewUser), p.office.account i.account with
  | .error r, _ => (p.users, .error r)
  | .ok _, none => (p.users, .error (.forbidden "reseller account not found"))
  | .ok _, some account => match createForReseller (p.market t account) now x input p.users with
    | (s, .error r) => (s, .error r)
    | (s, .ok _) => (s, (replyUser t.env now s x.id).map fun view =>
      .created view x.token ("/sub/" ++ x.id.text) ("/sub/" ++ x.token.text))

/-- What the handlers that only read answer; the other calls are in `handle`. -/
def Panel.read : ResellerCall → Except Refusal ScopeReply
  | .groups => .ok (.groups (listNodeGroups t.texts ⟨p.users.db, p.groups⟩))
  | .labels resource => (listLabels t.texts p.users i.account resource).map .labels
  | .onboarding => .ok (.onboarding (Master.onboarding p.users i.account))
  | .live => (collectLiveConnections t.env p i.account).map .connections
  | .geo => (collectLiveConnections t.env p i.account).map fun conns => .geo (geoDistribution t conns)
  | .traffic q => (buildTrafficAnalytics t p.users p.settings i.account now q).map .traffic
  | .trafficCsv q => (buildTrafficAnalytics t p.users p.settings i.account now q).map fun view =>
    .csv (Master.trafficCsv t view)
  | .report q => (buildTrafficAnalytics t p.users p.settings i.account now q).map fun view =>
    .html (t.page (reportValues t p.brand now view))
  | .users => (listUsers t.env p.users (p.users.owns i.account)).map fun rows =>
    .users (rows.map (·.view now))
  | .user id => (ownedUser t.env i.account p.users id).map fun a => .user (a.view now)
  | .reveal id => do
      let _ ← ownedUser t.env i.account p.users id
      return .revealed (← Master.revealSubscription t.env p.users id)
  | .subscriptions id => (ownedUser t.env i.account p.users id).map fun _ =>
    .subscriptions ((listUserSubscriptions p.users id).map (·.serialized))
  | .revealSubscription id sid => do
      let _ ← ownedUser t.env i.account p.users id
      return .revealed (← revealUserSubscription t.env p.users id sid)
  | .userGroups id => (ownedUser t.env i.account p.users id).map fun _ =>
    .userGroups (userGroupIds p.users id)
  | .office _ | .create _ | .edit _ _ => .ok .noContent

/-- A handler: the tables, and the reply. -/
def Panel.handle (x : ScopeDraws) : ResellerCall → Panel × Except Refusal ScopeReply
  | .office call => match p.office.handle t.gate t.texts.le now i.identity x.view call with
    | .error r => (p, .error r)
    | .ok (o, reply) => ({ p with office := o }, .ok (.office reply))
  | .create input => ({ p with users := (p.create t now i x.user input).1 }, (p.create t now i x.user input).2)
  | .edit id e => ({ p with users := (p.edit t now i x.edit id e).1 }, (p.edit t now i x.edit id e).2)
  | call => (p, p.read t now i call)

/-- A request of the reseller, from `require_auth` to the reply. -/
def Panel.answer (x : Extractors) (p : Panel) (d : ScopeDraws) (q : ScopedRequest) :
    Panel × Except Refusal ScopeReply :=
  match authorize i.identity q.method q.path, route x q with
  | .error r, _ => (p, .error r)
  | .ok _, .error r => (p, .error r)
  | .ok _, .ok call => p.handle t now i d call

end

end Honey.Master
