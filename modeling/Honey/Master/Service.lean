import Honey.Master.Db

/-! What the API accepts as the config of a managed service (`api/mod.rs`), and the secret that a
    service gets when it is created (`db/repo.rs`). -/

namespace Honey.Master
open Honey.Schemes

/-- The characters of `safe_config_value`. -/
def safeChar (c : Char) : Bool := c.isAlphanum || c == '.' || c == '-' || c == '_'

def safeConfigValue (value : String) (max : ℕ) : Bool :=
  value ≠ "" && value.utf8ByteSize ≤ max && value.toList.all safeChar

/-- `config.get(name).and_then(as_str).unwrap_or("")`. -/
def Json.field (config : Json) (name : String) : String :=
  ((config.get? name).bind Json.asStr?).getD ""

/-- `Value::as_i64`. -/
def Json.asI64? : Json → Option ℤ
  | .int n => if InI64 n then some n else none
  | _ => none

def reject (bad : Bool) (message : String) : Except String Unit :=
  if bad then .error message else .ok ()

def ipPreferences : List String := ["prefer-ipv4", "prefer-ipv6", "only-ipv4", "only-ipv6"]

def validateMtproto (config : Json) : Except String Unit := do
  let host := config.field "host"
  reject (host ≠ "" && !safeConfigValue host 253) "fake-TLS host must be a bare hostname (letters, digits, . - _)"
  reject (((config.get? "concurrency").bind Json.asI64?).any fun c => !(0 ≤ c && c ≤ 1000000))
    "concurrency out of range (0..1000000)"
  reject (((config.get? "domain_fronting_port").bind Json.asI64?).any fun p =>
      p ≠ 0 && !(1 ≤ p && p ≤ 65535))
    "domain_fronting_port out of range"
  let prefer := config.field "prefer_ip"
  reject (prefer ≠ "" && prefer ∉ ipPreferences) "prefer_ip must be prefer-ipv4|prefer-ipv6|only-ipv4|only-ipv6"

def validateNaive (config : Json) : Except String Unit := do
  let user := config.field "username"
  reject (user ≠ "" && !safeConfigValue user 64) "username must be letters, digits, . - _"
  let domain := config.field "domain"
  reject (domain ≠ "" && !safeConfigValue domain 253) "TLS domain must be a bare hostname"

def validateServiceConfig (kind : String) (config : Json) : Except String Unit :=
  match kind with
  | "mtproto" => validateMtproto config
  | "naive" => validateNaive config
  | _ => .ok ()

/-- `\x7bb:02x\x7d`. -/
def hexByte (b : UInt8) : List Char :=
  [Nat.digitChar (b.toNat / 16), Nat.digitChar (b.toNat % 16)]

/-- `service_secret`, before its encryption; `raw` are the random bytes. -/
def serviceSecret (kind : String) (config : Json) (raw : Vector UInt8 16) : Option String :=
  match kind with
  | "mtproto" =>
    let host := ((config.get? "host").bind Json.asStr?).getD "www.cloudflare.com"
    some (String.ofList ('e' :: 'e' :: raw.toList.flatMap hexByte ++ host.toUTF8.toList.flatMap hexByte))
  | "naive" => some (String.ofList (raw.toList.flatMap hexByte))
  | _ => none

/-! ### What was accepted -/

theorem reject_eq_ok {bad : Bool} {message : String} : reject bad message = .ok () ↔ bad = false := by
  cases bad <;> simp [reject]

theorem safeChar_of_safeConfigValue {value : String} {max : ℕ} (h : safeConfigValue value max) :
    ∀ c ∈ value.toList, safeChar c := by
  simp only [safeConfigValue, Bool.and_eq_true, List.all_eq_true] at h
  exact h.2

theorem safeChar_of_checked {value : String} {max : ℕ}
    (h : (value ≠ "" && !safeConfigValue value max) = false) : ∀ c ∈ value.toList, safeChar c := by
  rcases Bool.and_eq_false_iff.mp h with hempty | hsafe
  · obtain rfl : value = "" := by simpa using hempty
    intro c hc
    cases hc
  · exact safeChar_of_safeConfigValue (by simpa using hsafe)

theorem validateNaive_ok {config : Json} (h : validateNaive config = .ok ()) :
    (∀ c ∈ (config.field "username").toList, safeChar c) ∧ ∀ c ∈ (config.field "domain").toList, safeChar c := by
  obtain ⟨_, huser, hdomain⟩ := bind_eq_ok.mp h
  exact ⟨safeChar_of_checked (reject_eq_ok.mp huser), safeChar_of_checked (reject_eq_ok.mp hdomain)⟩

theorem safeChar_hexByte (b : UInt8) : ∀ c ∈ hexByte b, safeChar c := by
  have hdigit : ∀ n < 16, safeChar (Nat.digitChar n) := by decide
  have hb := b.toNat_lt
  intro c hc
  rcases List.mem_pair.mp hc with rfl | rfl
  · exact hdigit _ (by omega)
  · exact hdigit _ (by omega)

theorem safeChar_serviceSecret {kind : String} {config : Json} {raw : Vector UInt8 16} :
    ∀ c ∈ ((serviceSecret kind config raw).getD "").toList, safeChar c := by
  have hbytes : ∀ (bytes : List UInt8), ∀ c ∈ bytes.flatMap hexByte, safeChar c := by
    intro bytes c hc
    obtain ⟨b, -, hc⟩ := List.mem_flatMap.mp hc
    exact safeChar_hexByte b c hc
  intro c hc
  unfold serviceSecret at hc
  split at hc
  · simp only [Option.getD_some, String.toList_ofList, List.cons_append, List.mem_cons, List.mem_append] at hc
    rcases hc with rfl | rfl | hc | hc
    · decide
    · decide
    · exact hbytes _ c hc
    · exact hbytes _ c hc
  · rw [Option.getD_some, String.toList_ofList] at hc
    exact hbytes _ c hc
  · cases hc

end Honey.Master
