import Honey.Master.Service
import Honey.Master.Spec
import Honey.Schemes.GoMap

/-! The managed services of the agent (`svc.go`): what it reads from the config of a service, and the files it writes.

        master  validate_service_config -- exact keys
                     | config_json, keys in order
        agent   json.Unmarshal ----------- keys up to case, the last one counts --> Caddyfile, mtg toml

    The two readers differ: a text reaches the Caddyfile unchecked exactly if its key is spelled with
    other capitals and comes last (`written_safely_iff`). -/

namespace Honey.Agent
open Honey.Master Honey.Schemes Json

/-! ### `encoding/json` -/

/-- The smallest character of the same letter. Beyond ASCII only the long s and the Kelvin sign have one
    in ASCII, and only those matter for the names of the fields. -/
def foldRune (c : Char) : Char :=
  if c.isLower then c.toUpper
  else if c.toNat = 0x17F then 'S'
  else if c.toNat = 0x212A then 'K'
  else c

/-- The key of an object names a field of the struct. -/
def namesField (name key : String) : Bool :=
  key.toList.map foldRune = name.toList.map foldRune

/-- What a field of the object writes into a field of the struct; `null` and a value of another type write nothing. -/
def fieldValue {α : Type} (name : String) (read : Json → Option α) (f : String × Json) : Option α :=
  if namesField name f.1 then read f.2 else none

/-- `json.Unmarshal`, as it fills one field of the struct. -/
def unmarshalField {α : Type} (name : String) (read : Json → Option α) (zero : α) : Json → α
  | .obj fields => lastWrite (fieldValue name read) zero fields
  | _ => zero

/-! ### The files -/

/-- A file as the format strings write it. -/
inductive Piece where
  | lit (s : String)
  | text (s : String)
  | quoted (s : String)
  | number (n : ℤ)

/-- The texts among the arguments. -/
def texts (pieces : List Piece) : List String :=
  pieces.filterMap fun
    | .text s => some s
    | .quoted s => some s
    | _ => none

variable (parse : String → Json) (s : SpecService)

/-- The toml of `applyMtproto`. -/
def applyMtproto : List Piece :=
  let cfg := parse s.configJson
  let concurrency := unmarshalField "concurrency" asI64? 0 cfg
  let preferIp := unmarshalField "prefer_ip" asStr? "" cfg
  let domainFrontingPort := unmarshalField "domain_fronting_port" asI64? 0 cfg
  let antiReplay := unmarshalField "anti_replay" asBool? false cfg
  let lines : List (List Piece) :=
    [[.lit "secret = ", .quoted s.secret, .lit "\nbind-to = \"0.0.0.0:", .number s.listenPort, .lit "\"\n"],
      if concurrency > 0 then [.lit "concurrency = ", .number concurrency, .lit "\n"] else [],
      if preferIp ∈ ipPreferences then [.lit "prefer-ip = ", .quoted preferIp, .lit "\n"] else [],
      if domainFrontingPort > 0 then
        [.lit "domain-fronting-port = ", .number domainFrontingPort, .lit "\n"] else [],
      if antiReplay then [.lit "\n[defense.anti-replay]\nenabled = true\n"] else []]
  lines.flatten

/-- The Caddyfile of `applyNaive`. -/
def applyNaive : List Piece :=
  let cfg := parse s.configJson
  let username := unmarshalField "username" asStr? "" cfg
  let domain := unmarshalField "domain" asStr? "" cfg
  [.lit "\x7b\n  order forward_proxy before reverse_proxy\n\x7d\n:", .number s.listenPort, .lit ", ",
    .text domain, .lit " \x7b\n  tls internal\n  forward_proxy \x7b\n    basic_auth ",
    .text (if username = "" then "user" else username), .lit " ", .text s.secret,
    .lit "\n    hide_ip\n    hide_via\n    probe_resistance\n  \x7d\n\x7d\n"]

/-- `applyOne`, where the binaries are installed: the file it writes. -/
def applyOne : Except (List Piece) (List Piece) :=
  match s.kind with
  | "mtproto" => .ok (applyMtproto parse s)
  | "naive" => .ok (applyNaive parse s)
  | kind => .error [.lit "unknown service kind ", .quoted kind]

/-- The built-in default, nothing, or a text that can end no word and no line. -/
def Harmless (t : String) : Prop := t = "user" ∨ t = "" ∨ ∀ c ∈ t.toList, safeChar c

def WrittenSafely : Prop :=
  ∀ pieces, applyOne parse s = .ok pieces → ∀ t ∈ texts pieces, Harmless t

/-- A text under a key that is the name only up to case has safe characters if it is the last that counts. -/
def Unshadowed (name : String) : Json → Prop
  | .obj fields => ∀ before key value after, fields = before ++ (key, .str value) :: after →
      namesField name key → key ≠ name →
      (∀ f ∈ after, namesField name f.1 → f.2.asStr? = none) → ∀ c ∈ value.toList, safeChar c
  | _ => True

/-! ### The texts of a checked config -/

variable {name : String}

theorem fieldValue_str {key value : String} (h : namesField name key) :
    fieldValue name asStr? (key, .str value) = some value := if_pos h

theorem fieldValue_eq_some {f : String × Json} {x : String} (h : fieldValue name asStr? f = some x) :
    namesField name f.1 ∧ f.2 = .str x := by
  obtain ⟨key, v⟩ := f
  rw [fieldValue] at h
  split at h
  · rename_i hname
    cases v with
    | str value => exact ⟨hname, by rw [← Option.some.inj h]⟩
    | null | bool b | int n | float t | arr l | obj l => cases h
  · cases h

theorem fieldValue_eq_none {f : String × Json} :
    fieldValue name asStr? f = none ↔ (namesField name f.1 → f.2.asStr? = none) := by
  rw [fieldValue]
  split
  · rename_i hname
    exact ⟨fun h _ => h, fun h => h hname⟩
  · rename_i hname
    exact ⟨fun _ h => absurd h hname, fun _ => rfl⟩

theorem unmarshal_safe_iff {config : Json} (hord : config.Ordered)
    (hfield : ∀ c ∈ (config.field name).toList, safeChar c) :
    (∀ c ∈ (unmarshalField name asStr? "" config).toList, safeChar c) ↔ Unshadowed name config := by
  have hnil : ∀ c ∈ ("" : String).toList, safeChar c := fun c hc => by cases hc
  cases config with
  | obj fields =>
    rw [unmarshalField]
    constructor
    · intro hsafe before key value after hsplit hname _ hafter
      rw [hsplit, lastWrite_eq_last (fieldValue_str hname) fun f hf =>
        fieldValue_eq_none.mpr (hafter f hf)] at hsafe
      exact hsafe
    · intro hshadow
      rcases exists_last (fieldValue name asStr?) fields with
        hnone | ⟨before, ⟨key, v⟩, x, after, rfl, hx, hafter⟩
      · rw [lastWrite_eq_zero hnone]
        exact hnil
      rw [lastWrite_eq_last hx hafter]
      obtain ⟨hname, rfl⟩ := fieldValue_eq_some hx
      by_cases hkey : key = name
      · -- the key the master has checked
        subst hkey
        rw [field, get?_of_ordered hord] at hfield
        exact hfield
      · exact hshadow before key x after rfl hname hkey fun f hf =>
          fieldValue_eq_none.mp (hafter f hf)
  | null | bool b | int n | float t | str t | arr l => exact ⟨fun _ => trivial, fun _ => hnil⟩

theorem harmless_iff {t : String} : Harmless t ↔ ∀ c ∈ t.toList, safeChar c := by
  constructor
  · rintro (rfl | rfl | h)
    · exact List.all_eq_true.mp (by decide)
    · exact List.all_eq_true.mp (by decide)
    · exact h
  · exact fun h => .inr (.inr h)

theorem ipPreferences_safe : ∀ t ∈ ipPreferences, ∀ c ∈ t.toList, safeChar c := by
  have hall : ∀ t ∈ ipPreferences, t.toList.all safeChar := by decide
  exact fun t ht => List.all_eq_true.mp (hall t ht)

/-- The mtg config holds the secret and at most one of four texts. -/
theorem texts_applyMtproto : texts (applyMtproto parse s) =
      let preferIp := unmarshalField "prefer_ip" asStr? "" (parse s.configJson)
      s.secret :: if preferIp ∈ ipPreferences then [preferIp] else [] := by
  simp only [applyMtproto]
  split_ifs <;> rfl

theorem username_safe_iff {username : String} :
    (∀ c ∈ (if username = "" then "user" else username).toList, safeChar c) ↔ ∀ c ∈ username.toList, safeChar c := by
  split
  · rename_i h
    subst h
    exact ⟨fun _ _ hc => (List.not_mem_nil hc).elim, fun _ => List.all_eq_true.mp (by decide)⟩
  · exact Iff.rfl

theorem writtenSafely_naive {parse : String → Json} {s : SpecService} (hkind : s.kind = "naive")
    (hsecret : ∀ c ∈ s.secret.toList, safeChar c) :
    WrittenSafely parse s ↔ (∀ c ∈ (unmarshalField "username" asStr? "" (parse s.configJson)).toList, safeChar c) ∧
        ∀ c ∈ (unmarshalField "domain" asStr? "" (parse s.configJson)).toList, safeChar c := by
  have htexts : texts (applyNaive parse s) = [unmarshalField "domain" asStr? "" (parse s.configJson),
        if unmarshalField "username" asStr? "" (parse s.configJson) = "" then "user"
        else unmarshalField "username" asStr? "" (parse s.configJson), s.secret] := rfl
  have hone : applyOne parse s = .ok (applyNaive parse s) := by
    rw [applyOne, hkind]
    rfl
  rw [WrittenSafely, hone]
  simp only [Except.ok.injEq, forall_eq', htexts, List.mem_cons, List.not_mem_nil, or_false,
    forall_eq_or_imp, forall_eq, harmless_iff, username_safe_iff]
  exact ⟨fun h => ⟨h.2.1, h.1⟩, fun h => ⟨h.2, h.1, hsecret⟩⟩

/-- Every accepted config of every service: what the agent writes is safe exactly if, for a naive
    service, neither text is shadowed by a key with other capitals. -/
theorem written_safely_iff (parse : String → Json) (created config : Json) (raw : Vector UInt8 16)
    (s : SpecService) (hsecret : s.secret = (serviceSecret s.kind created raw).getD "")
    (hconfig : s.configJson = config.render) (hparse : parse config.render = config)
    (hord : config.Ordered) (hvalid : validateServiceConfig s.kind config = .ok ()) :
    WrittenSafely parse s ↔ (s.kind = "naive" → Unshadowed "username" config ∧ Unshadowed "domain" config) := by
  have hsafe : ∀ c ∈ s.secret.toList, safeChar c := hsecret ▸ safeChar_serviceSecret
  have hread : parse s.configJson = config := by rw [hconfig, hparse]
  by_cases hnaive : s.kind = "naive"
  · rw [hnaive] at hvalid
    obtain ⟨huser, hdomain⟩ := validateNaive_ok hvalid
    rw [writtenSafely_naive hnaive hsafe, hread, unmarshal_safe_iff hord huser, unmarshal_safe_iff hord hdomain]
    exact ⟨fun h _ => h, fun h => h hnaive⟩
  refine ⟨fun _ h => absurd h hnaive, fun _ pieces hpieces t ht => harmless_iff.mpr ?_⟩
  unfold applyOne at hpieces
  split at hpieces
  · obtain rfl := Except.ok.inj hpieces
    rw [texts_applyMtproto] at ht
    rcases List.mem_cons.mp ht with rfl | ht
    · exact hsafe
    split at ht
    · rename_i hmem
      exact ipPreferences_safe t (List.mem_singleton.mp ht ▸ hmem)
    · cases ht
  · rename_i hkind
    exact absurd hkind hnaive
  · cases hpieces

theorem unshadowed_of_spelled {fields : List (String × Json)} (h : ∀ f ∈ fields, namesField name f.1 → f.1 = name) :
    Unshadowed name (.obj fields) := by
  intro before key value after hsplit hname hkey
  have hmem : (key, str value) ∈ fields := by
    rw [hsplit]
    exact List.mem_append_right _ List.mem_cons_self
  exact absurd (h _ hmem hname) hkey

/-- A naive service with the given config and a secret of zeros. -/
def naiveService (config : Json) : SpecService :=
  ⟨"naive", "proxy", 443, (serviceSecret "naive" config (Vector.replicate 16 0)).getD "", config.render⟩

/-- A config with the keys the agent has in mind. -/
def plainConfig : Json := .obj [("domain", .str "example.com"), ("username", .str "bob")]

theorem plainConfig_written_safely : WrittenSafely (fun _ => plainConfig) (naiveService plainConfig) := by
  refine (written_safely_iff _ plainConfig plainConfig (Vector.replicate 16 0) _ rfl rfl rfl ?_ ?_).mpr
    fun _ => ⟨unshadowed_of_spelled ?_, unshadowed_of_spelled ?_⟩
  · rw [plainConfig, Json.Ordered]
    decide
  · decide
  · decide
  · decide

/-- `Username` ends its line and opens a site of its own. -/
def capitalConfig : Json := .obj [("Username", .str "a b\n  \x7d\n\x7d\n:80 \x7b\n  basic \x7b\n    x")]

theorem capitalConfig_not_written_safely : capitalConfig.Ordered ∧
    validateServiceConfig "naive" capitalConfig = .ok () ∧
    ¬ WrittenSafely (fun _ => capitalConfig) (naiveService capitalConfig) := by
  refine ⟨by simp [capitalConfig, Json.Ordered], by decide, fun h => ?_⟩
  have huser := (writtenSafely_naive rfl safeChar_serviceSecret).mp h
  have hspace := huser.1 ' ' (by decide)
  cases hspace

end Honey.Agent
