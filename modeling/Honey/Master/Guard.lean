import Honey.Master.Users
import Honey.Schemes.Percent

/-! Public subscription links: the handler that a path leads to, whom it serves, and in whose name the
    guard counts the request.

        /sub/%31…  -- router --> segment decoded --> uuid --> user
             +------ guard ---> segment as it is --> uuid? --> subject

    Both look the same names up in the same tables, so they agree exactly where the segment is spelled
    without a `%` (`guard_subject_iff`). -/

namespace Honey.Master
open Honey.Schemes List Option Table

/-! ### Uuids as text -/

/-- 32 hexadecimal digits. -/
def parseSimple (l : List Char) : Option Uuid :=
  if l.length = 32 then
    (l.mapM hexDigit?).map fun digits => BitVec.ofNat 128 (digits.foldl (fun n d => 16 * n + d) 0)
  else none

/-- Groups of 8, 4, 4, 4 and 12 digits. -/
def parseHyphenated (l : List Char) : Option Uuid :=
  if (l.splitOn '-').map List.length = [8, 4, 4, 4, 12] then parseSimple (l.splitOn '-').flatten else none

/-- `Uuid::parse_str`: simple, hyphenated, braced, or a URN. -/
def parseUuid (s : String) : Option Uuid :=
  let l := s.toList
  if l.length = 32 then parseSimple l
  else if l.length = 36 then parseHyphenated l
  else if l.length = 38 ∧ l.head? = some '\x7b' ∧ l.getLast? = some '\x7d' then
    parseHyphenated (l.drop 1).dropLast
  else if l.length = 45 ∧ l.take 9 = "urn:uuid:".toList then parseHyphenated (l.drop 9)
  else none

/-! ### The router -/

/-- What a path under `/sub/:token` asks for. -/
inductive Page where
  | document
  | links
  | v2ray
  | clientProfile (client : String)
  | singbox
  | singboxTun
  | clash
  | qrAll
  | qr (inbound : Uuid)
  | speedtest
  | services
  | wgList
  | wgConfig (iface : Uuid)
  | wgQr (iface : Uuid)
  deriving DecidableEq, Repr

/-- What a path names its user by. -/
inductive PathKind where | token | named
  deriving DecidableEq, Repr

/-- A request to a handler, its parameters decoded and parsed. -/
inductive SubCall where
  | token (token : Uuid) (page : Page)
  | named (name : String)
  deriving DecidableEq, Repr

/-- `Path<Uuid>`. -/
def pathUuid (segment : String) : Option Uuid := (percentDecode segment).bind parseUuid

/-- `Path<String>`; a parameter is not empty. -/
def pathText (segment : String) : Option String := if segment = "" then none else percentDecode segment

/-- The segments after the token. -/
def pageOf : List String → Option Page
  | [] => some .document
  | ["links"] => some .links
  | ["v2ray"] => some .v2ray
  | ["profile", client] => (pathText client).map .clientProfile
  | ["sing-box"] => some .singbox
  | ["sing-box-tun"] => some .singboxTun
  | ["clash"] => some .clash
  | ["qr"] => some .qrAll
  | ["qr", inbound] => (pathUuid inbound).map .qr
  | ["speedtest"] => some .speedtest
  | ["services"] => some .services
  | ["wireguard"] => some .wgList
  | ["wireguard", iface] => (pathUuid iface).map .wgConfig
  | ["wireguard", iface, "qr"] => (pathUuid iface).map .wgQr
  | _ => none

variable (path : String)

def segments : List String := (path.toList.splitOn '/').map String.ofList

/-- The router and the extractors: none where no handler is reached. -/
def dispatch : Option SubCall :=
  match segments path with
  | "" :: "sub" :: token :: rest => (pathUuid token).bind fun t => (pageOf rest).map (.token t)
  | ["", "s", name] => (pathText name).map .named
  | _ => none

variable (g : Gate) (env : Env)

/-- The lookup that every handler begins with. -/
def SubCall.lookup (s : UserDb) : SubCall → Except Refusal (Option Subscriber)
  | .token t _ => getUserBySubscriptionToken g env s t
  | .named name => getUserByAlias g env s name

/-- The segment that the call was read from. -/
def SubCall.Spelled (v : String) (kind : PathKind) (call : SubCall) : Prop :=
  match kind, call with
  | .token, .token t _ => pathUuid v = some t
  | .named, .named name => pathText v = some name
  | _, _ => False

/-- The path leads to a handler, and the handler finds the user. -/
def Serves (s : UserDb) (path : String) (a : Subscriber) : Prop :=
  ∃ call, dispatch path = some call ∧ call.lookup g env s = .ok (some a)

/-! ### The guard -/

def subscriptionPathIdentity : Option (PathKind × String) :=
  match ((path.toList.dropWhile (· = '/')).splitOn '/').map String.ofList with
  | "sub" :: value :: _ => if value = "" then none else some (.token, value)
  | "s" :: value :: _ => if value = "" then none else some (.named, value)
  | _ => none

/-- The guard's own lookup; an error counts as nobody. -/
def guardLookup (fails : Bool) (s : UserDb) (kind : PathKind) (value : String) : Option Subscriber :=
  if fails then none
  else match kind with
    | .token => (parseUuid value).bind fun t => (getUserBySubscriptionToken g env s t).toOption.join
    | .named => (getUserByAlias g env s value).toOption.join

/-- `subscription_guard_subject`; `specHash` is SHA-256. -/
def guardSubject (specHash : String → String) (fails : Bool) (s : UserDb) (path : String) : String :=
  match subscriptionPathIdentity path with
  | none => "unknown"
  | some (kind, value) => match guardLookup g env fails s kind value with
    | some a => a.user.id.text
    | none => "invalid:" ++ specHash value

/-- The token or the name in the path, as it is spelled there. -/
def spelled : Option String := (segments path)[2]?

/-! ### What the two see -/

section

variable {g : Gate} {env : Env} {s : UserDb} {path : String}

theorem mem_splitOn {c x : Char} : ∀ {l : List Char}, c ∈ l → c ≠ x → ∃ piece ∈ l.splitOn x, c ∈ piece
  | y :: l, hc, hx => by
    rw [splitOn, splitOnP_cons_eq_if_modifyHead]
    split_ifs with hy
    · rcases mem_cons.mp hc with rfl | hc
      · exact absurd (by simpa using hy) hx
      · obtain ⟨piece, hpiece, hmem⟩ := mem_splitOn hc hx
        exact ⟨piece, mem_cons_of_mem _ hpiece, hmem⟩
    obtain ⟨p, ps, hps⟩ := exists_cons_of_ne_nil (splitOnP_ne_nil _ l)
    rw [hps]
    rcases mem_cons.mp hc with rfl | hc
    · exact ⟨_, mem_cons_self, mem_cons_self⟩
    obtain ⟨piece, hpiece, hmem⟩ := mem_splitOn hc hx
    rw [splitOn, hps] at hpiece
    rcases mem_cons.mp hpiece with rfl | hpiece
    · exact ⟨_, mem_cons_self, mem_cons_of_mem _ hmem⟩
    · exact ⟨piece, mem_cons_of_mem _ hpiece, hmem⟩

theorem splitOn_rooted {x : Char} {p : List Char} {ps : List (List Char)} :
    ∀ {l : List Char}, l.splitOn x = [] :: p :: ps → ∃ l', l = x :: l' ∧ l'.splitOn x = p :: ps
  | [], h => by simp at h
  | y :: l, h => by
    rw [splitOn, splitOnP_cons_eq_if_modifyHead] at h
    split_ifs at h with hy
    · exact ⟨l, by rw [beq_iff_eq.mp hy], (cons.inj h).2⟩
    · obtain ⟨q, qs, hqs⟩ := exists_cons_of_ne_nil (splitOnP_ne_nil _ l)
      rw [hqs] at h
      exact absurd (cons.inj h).1 (cons_ne_nil y q)

theorem hexDigit_of_mapM : ∀ {l : List Char} {ds : List ℕ}, l.mapM hexDigit? = some ds → ∀ c ∈ l, (hexDigit? c).isSome
  | d :: l, ds, h, c, hc => by
    rw [mapM_cons] at h
    obtain ⟨n, hn, h⟩ := bind_eq_some_iff.mp h
    obtain ⟨ns, hns, -⟩ := bind_eq_some_iff.mp h
    rcases mem_cons.mp hc with rfl | hc
    · exact hn ▸ rfl
    · exact hexDigit_of_mapM hns c hc

variable {u : Uuid} {v : String} {kind : PathKind}

theorem parseSimple_plain {l : List Char} (h : parseSimple l = some u) : '%' ∉ l := by
  intro hmem
  rw [parseSimple] at h
  split at h
  · obtain ⟨digits, hdigits, -⟩ := map_eq_some_iff.mp h
    exact absurd (hexDigit_of_mapM hdigits '%' hmem) (by decide)
  · cases h

theorem parseHyphenated_plain {l : List Char} (h : parseHyphenated l = some u) : '%' ∉ l := by
  intro hmem
  rw [parseHyphenated] at h
  split at h
  · obtain ⟨piece, hpiece, hin⟩ := mem_splitOn (x := '-') hmem (by decide)
    exact parseSimple_plain h (mem_flatten.mpr ⟨piece, hpiece, hin⟩)
  · cases h

theorem parseUuid_plain {t : String} (h : parseUuid t = some u) : '%' ∉ t.toList := by
  intro hmem
  rw [parseUuid] at h
  split_ifs at h with h32 h36 h38 h45
  · exact parseSimple_plain h hmem
  · exact parseHyphenated_plain h hmem
  · -- the braces are the only characters that are cut off
    obtain ⟨-, hhead, hlast⟩ := h38
    obtain ⟨l, hl⟩ := head?_eq_some_iff.mp hhead
    rw [hl] at hmem hlast h
    obtain ⟨m, hm⟩ := getLast?_eq_some_iff.mp hlast
    rcases m with _ | ⟨c, m⟩
    · cases hm
    obtain ⟨rfl, rfl⟩ := cons.inj hm
    refine parseHyphenated_plain h ?_
    simpa using hmem
  · obtain ⟨-, hurn⟩ := h45
    rw [← take_append_drop 9 t.toList, hurn, mem_append] at hmem
    rcases hmem with hmem | hmem
    · exact absurd hmem (by decide)
    · exact parseHyphenated_plain h hmem

theorem pathUuid_ne_empty {t : Uuid} (h : pathUuid v = some t) : v ≠ "" := by
  rintro rfl
  cases h

theorem pathText_ne_empty {name : String} (h : pathText v = some name) : v ≠ "" := by
  rintro rfl
  cases h

theorem dropWhile_of_splitOn {x c : Char} {p : List Char} {ps : List (List Char)} :
    ∀ {l : List Char}, l.splitOn x = (c :: p) :: ps → l.dropWhile (· = x) = l
  | [], _ => rfl
  | y :: l, h => by
    rw [splitOn, splitOnP_cons_eq_if_modifyHead] at h
    split_ifs at h with hy
    · cases (cons.inj h).1
    · exact dropWhile_cons_of_neg (hy)

theorem guard_segments (c : Char) (first : List Char) {value : String} {rest : List String}
    (h : segments path = "" :: String.ofList (c :: first) :: value :: rest) :
    ((path.toList.dropWhile (· = '/')).splitOn '/').map String.ofList =
      String.ofList (c :: first) :: value :: rest := by
  obtain ⟨p0, tail, hsplit, hp0, htail⟩ := map_eq_cons_iff.mp h
  obtain ⟨p1, tail, rfl, hp1, -⟩ := map_eq_cons_iff.mp htail
  obtain rfl : p0 = [] := String.ofList_injective hp0
  obtain rfl : p1 = c :: first := String.ofList_injective hp1
  obtain ⟨l, hl, hsplit⟩ := splitOn_rooted hsplit
  have hdrop : path.toList.dropWhile (· = '/') = l := by
    rw [hl, dropWhile_cons_of_pos (by simp), dropWhile_of_splitOn hsplit]
  rw [hdrop, hsplit, htail]

/-- What the router dispatches, the guard identifies by the segment as it is spelled. -/
theorem identity_of_dispatch {call : SubCall} (h : dispatch path = some call) :
    ∃ kind v, spelled path = some v ∧ subscriptionPathIdentity path = some (kind, v) ∧ call.Spelled v kind := by
  rw [dispatch] at h
  split at h
  case h_1 v rest hseg =>
    obtain ⟨t, ht, h⟩ := bind_eq_some_iff.mp h
    obtain ⟨page, -, rfl⟩ := map_eq_some_iff.mp h
    have hids := guard_segments 's' ['u', 'b'] hseg
    refine ⟨.token, v, by rw [spelled, hseg]; rfl, ?_, ht⟩
    rw [subscriptionPathIdentity, hids]
    exact if_neg (pathUuid_ne_empty ht)
  case h_2 v hseg =>
    obtain ⟨name, hname, rfl⟩ := map_eq_some_iff.mp h
    have hids := guard_segments 's' [] hseg
    refine ⟨.named, v, by rw [spelled, hseg]; rfl, ?_, hname⟩
    rw [subscriptionPathIdentity, hids]
    exact if_neg (pathText_ne_empty hname)
  case h_3 => cases h

theorem aliasRow_encoded (hlower : ∀ t, '%' ∈ (g.lower t).toList ↔ '%' ∈ t.toList) (h : '%' ∈ v.toList) :
    aliasRow g s v = none := by
  rw [aliasRow, map_eq_none_iff, find?_eq_none]
  intro u _ hany
  rcases ha : (s.profile u.id).subscriptionAlias with _ | a
  · simp [ha] at hany
  have hplain : '%' ∉ a.toList := by
    intro hmem
    have hchars := (Bool.and_eq_true_iff.mp (s.profile_aliases u.id a ha)).2
    exact absurd (all_eq_true.mp hchars '%' hmem) (by decide)
  have heq : g.lower a = g.lower (trim v) := by simpa [ha] using hany
  have hmem := (hlower _).mpr (mem_trim (by decide) h)
  exact hplain ((hlower a).mp (heq ▸ hmem))

/-- The guard's lookup of a segment without a `%` is the handler's. -/
theorem guardLookup_plain {call : SubCall} {a : Subscriber} (hv : '%' ∉ v.toList) (hcall : call.Spelled v kind)
    (h : call.lookup g env s = .ok (some a)) : guardLookup g env false s kind v = some a := by
  cases kind <;> cases call
  case token.token t page =>
    have ht : parseUuid v = some t := by
      simpa only [SubCall.Spelled, pathUuid, percentDecode_plain hv, bind_some] using hcall
    have hfound : getUserBySubscriptionToken g env s t = .ok (some a) := h
    simp [guardLookup, ht, hfound, Except.toOption]
  case named.named name =>
    have hname : v = name := by
      rw [SubCall.Spelled, pathText, percentDecode_plain hv] at hcall
      split at hcall
      · cases hcall
      · exact some.inj hcall
    have hfound : getUserByAlias g env s v = .ok (some a) := hname ▸ h
    simp [guardLookup, hfound, Except.toOption]
  all_goals exact hcall.elim

/-- A segment with a `%` is nobody's to the guard. -/
theorem guardLookup_encoded (hlower : ∀ t, '%' ∈ (g.lower t).toList ↔ '%' ∈ t.toList) (hv : '%' ∈ v.toList)
    (fails : Bool) : guardLookup g env fails s kind v = none := by
  cases fails with
  | true => rfl
  | false =>
    cases kind with
    | token =>
      have hparse : parseUuid v = none := eq_none_iff_forall_ne_some.mpr fun u hu => parseUuid_plain hu hv
      simp [guardLookup, hparse]
    | named =>
      simp [guardLookup, getUserByAlias, aliasRow_encoded hlower hv, Env.openOption, Except.toOption]

/-- The text of a uuid begins with a digit, and the subject of nobody with an `i`. -/
theorem invalid_ne_text (hash : String) (u : Uuid) : "invalid:" ++ hash ≠ u.text := by
  intro h
  have hhead := congrArg (fun t => t.toList.head?) h
  simp only [String.toList_append, Uuid.text, String.toList_ofList] at hhead
  have hdigit : ∀ n < 16, Nat.digitChar n ≠ 'i' := by decide
  exact hdigit _ (Nat.mod_lt _ (by decide)) (some.inj hhead).symm

theorem guardSubject_eq_text {specHash : String → String} {fails : Bool}
    (h : subscriptionPathIdentity path = some (kind, v)) : guardSubject g env specHash fails s path = u.text ↔
      ∃ a, guardLookup g env fails s kind v = some a ∧ a.user.id.text = u.text := by
  simp only [guardSubject, h]
  cases guardLookup g env fails s kind v with
  | none => simpa using invalid_ne_text _ u
  | some a => simp

end

/-- The guard counts a request in the name of the user it serves exactly if its own lookup does not fail
    and the token or alias is spelled without percent-encoding. -/
theorem guard_subject_iff (g : Gate) (env : Env) (specHash : String → String) (fails : Bool) (s : UserDb)
    (path : String) (a : Subscriber) (hlower : ∀ t, '%' ∈ (g.lower t).toList ↔ '%' ∈ t.toList)
    (h : Serves g env s path a) : guardSubject g env specHash fails s path = a.user.id.text ↔
      fails = false ∧ ∀ v ∈ spelled path, '%' ∉ v.toList := by
  obtain ⟨call, hcall, hlookup⟩ := h
  obtain ⟨kind, v, hv, hid, hspelled⟩ := identity_of_dispatch hcall
  rw [guardSubject_eq_text hid, hv]
  constructor
  · rintro ⟨b, hb, -⟩
    refine ⟨?_, ?_⟩
    · by_contra hfails
      simp [guardLookup, hfails] at hb
    · rintro w ⟨⟩ hmem
      rw [guardLookup_encoded hlower hmem] at hb
      cases hb
  · rintro ⟨rfl, hplain⟩
    exact ⟨a, guardLookup_plain (hplain v rfl) hspelled hlookup, rfl⟩

/-- One user, who calls the link `ann-home`. -/
def annDb : UserDb where
  db := { Db.initial with users := empty.put ⟨1, "ann", "u", "p", true, 0, 0, none⟩ }
  profiles := empty.put { Profile.blank 1 with subscriptionAlias := some "ann-home" }
  subscriptions := empty
  usernames := nodup_singleton _
  aliases := by decide

def annRow : Subscriber :=
  ⟨⟨1, "ann", "u", "p", true, 0, 0, none⟩, { Profile.blank 1 with subscriptionAlias := some "ann-home" }⟩

def clearEnv : Env := ⟨.ok, .ok, fun a b => decide (a ≤ b)⟩

theorem annDb_serves_token : Serves plainGate clearEnv annDb
    "/sub/urn:uuid:00000000-0000-0000-0000-000000000001/clash" annRow :=
  ⟨.token 1 .clash, by decide +kernel, rfl⟩

theorem guard_counts_urn : guardSubject plainGate clearEnv id false annDb
    "/sub/urn:uuid:00000000-0000-0000-0000-000000000001/clash" = annRow.user.id.text :=
  (guard_subject_iff plainGate clearEnv id false annDb _ annRow (fun _ => Iff.rfl) annDb_serves_token).mpr
    ⟨rfl, by decide +kernel⟩

/-- With one digit of the id, or one letter of the alias, percent-encoded the same user is served, but
    counted under another subject each time. -/
theorem encoded_digit_is_nobody :
    (Serves plainGate clearEnv annDb "/sub/%300000000-0000-0000-0000-000000000001" annRow ∧
      guardSubject plainGate clearEnv id false annDb "/sub/%300000000-0000-0000-0000-000000000001" =
        "invalid:%300000000-0000-0000-0000-000000000001") ∧ Serves plainGate clearEnv annDb "/s/%61nn-home" annRow ∧
      guardSubject plainGate clearEnv id false annDb "/s/%61nn-home" = "invalid:%61nn-home" ∧ annRow.user.id.text ∉
          ["invalid:%300000000-0000-0000-0000-000000000001", "invalid:%61nn-home"] :=
  ⟨⟨⟨.token 1 .document, by decide +kernel, rfl⟩, by decide +kernel⟩,
    ⟨.named "ann-home", by decide +kernel, rfl⟩, by decide +kernel, by decide +kernel⟩

end Honey.Master
