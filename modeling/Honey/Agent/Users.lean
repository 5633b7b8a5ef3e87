import Honey.Master.Spec
import Honey.Schemes.GoMap

/-! The users of an inbound in the configs that the agent builds (`singbox/config.go`,
    `xray/config.go`, `hysteria/manager.go`), and how the servers look up a client.

        spec -+- sing-box   users: list, whole credentials are compared
              +- xray       clients: list
              +- hysteria   userpass: map name ↦ password, the text is cut at its first colon -/

namespace Honey.Agent
open Honey.Master Honey.Schemes

/-- The server process behind an inbound. -/
inductive ServerCore where | singbox | xray | hysteria
  deriving DecidableEq, Repr

variable (type : String)

def coreOfInbound (core : String) : ServerCore :=
  if type = "hysteria2" ∧ (core = "" ∨ core = "singbox") then .hysteria
  else if core = "xray" then .xray
  else if core = "hysteria" then .hysteria
  else .singbox

/-- An entry of `users` or `clients` with the keys that are there: `name` or `email`, `uuid` or `id`,
    `password`, `flow`, `auth`. -/
structure ServerUser where
  (name id password flow auth : Option String)

def nonempty (s : String) : Option String := if s = "" then none else some s

/-- The body of the loop of `buildUsers` of sing-box. -/
def singboxUser (u : InboundUser) : ServerUser :=
  match type with
  | "vless" => ⟨nonempty u.name, some u.uuid, none, nonempty u.flow, none⟩
  | "vmess" => ⟨nonempty u.name, some u.uuid, none, none, none⟩
  | "hysteria2" => ⟨nonempty u.name, none, some (u.name ++ ":" ++ u.password), none, none⟩
  | "trojan" | "shadowsocks" | "anytls" | "shadowtls" =>
    ⟨nonempty u.name, none, some u.password, none, none⟩
  | "tuic" => ⟨nonempty u.name, some u.uuid, some u.password, none, none⟩
  | _ => ⟨nonempty u.name, nonempty u.uuid, nonempty u.password, nonempty u.flow, none⟩

/-- The bodies of the loops of `buildSettings` of xray. -/
def xrayClient (u : InboundUser) : ServerUser :=
  match type with
  | "hysteria2" => ⟨nonempty u.name, none, none, none, some (u.name ++ ":" ++ u.password)⟩
  | "vless" => ⟨nonempty u.name, some u.uuid, none, nonempty u.flow, none⟩
  | "vmess" => ⟨nonempty u.name, some u.uuid, none, none, none⟩
  | "trojan" | "shadowsocks" => ⟨nonempty u.name, none, some u.password, none, none⟩
  | _ => ⟨nonempty u.name, nonempty u.uuid, nonempty u.password, none, none⟩

/-- `userpass`: a later entry of the same name replaces an earlier one. -/
def userpass (users : List InboundUser) : GoMap String String :=
  users.foldl (fun out u => if u.name ≠ "" ∧ u.password ≠ "" then out.set u.name u.password else out)
    GoMap.empty

/-- What a client presents. -/
inductive Credential where
  | uuid (id : String)
  | password (p : String)
  | uuidPassword (id p : String)
  | auth (text : String)

/-- sing-box and xray compare whole texts. -/
def ServerUser.Accepts (s : ServerUser) : Credential → Prop
  | .uuid id => s.id = some id
  | .password p => s.password = some p
  | .uuidPassword id p => s.id = some id ∧ s.password = some p
  | .auth text => s.password = some text ∨ s.auth = some text

/-- The name and the password that the Hysteria server finds. -/
def userpassLookup (m : GoMap String String) (text : String) : Option (String × String) :=
  match splitOnce ':' text.toList with
  | none => none
  | some (n, p) =>
    if String.ofList n ∈ m.keys ∧ m.get (String.ofList n) = String.ofList p then
      some (String.ofList n, String.ofList p)
    else none

def UserpassAccepts (m : GoMap String String) (e : InboundUser) : Credential → Prop
  | .auth text => userpassLookup m text = some (e.name, e.password)
  | _ => False

/-- The config built from `users` accepts the credential as the entry `e`. -/
def AcceptsAs (core : String) (users : List InboundUser) (c : Credential) (e : InboundUser) : Prop :=
  match coreOfInbound type core with
  | .singbox => (singboxUser type e).Accepts c
  | .xray => (xrayClient type e).Accepts c
  | .hysteria => UserpassAccepts (userpass users) e c

/-! ### The map of the Hysteria server -/

/-- What an entry writes under a name. -/
def passwordFor (n : String) (u : InboundUser) : Option String :=
  if u.name ≠ "" ∧ u.password ≠ "" ∧ u.name = n then some u.password else none

theorem passwordFor_eq_some {n p : String} {u : InboundUser} :
    passwordFor n u = some p ↔ u.name = n ∧ u.password = p ∧ n ≠ "" ∧ p ≠ "" := by
  rw [passwordFor]
  split
  · rename_i h
    obtain ⟨hname, hpass, rfl⟩ := h
    constructor
    · intro h
      obtain rfl := Option.some.inj h
      exact ⟨rfl, rfl, hname, hpass⟩
    · rintro ⟨-, rfl, -, -⟩
      rfl
  · rename_i h
    constructor
    · exact fun h => by cases h
    · rintro ⟨rfl, rfl, hname, hpass⟩
      exact absurd ⟨hname, hpass, rfl⟩ h

theorem passwordFor_eq_none {n : String} {u : InboundUser} (h : u.password = "" ∨ u.name ≠ n) :
    passwordFor n u = none := by
  rw [passwordFor, if_neg]
  rintro ⟨-, hpass, hname⟩
  exact h.elim hpass (absurd hname)

theorem get_userpass (users : List InboundUser) (n : String) :
    (userpass users).get n = lastWrite (passwordFor n) "" users := by
  have hgen : ∀ (us : List InboundUser) (m : GoMap String String),
      (us.foldl (fun out u => if u.name ≠ "" ∧ u.password ≠ "" then out.set u.name u.password else out)
        m).get n = lastWrite (passwordFor n) (m.get n) us := by
    intro us
    induction us with
    | nil => exact fun _ => rfl
    | cons u us ih =>
      intro m
      rw [List.foldl_cons, ih, lastWrite_cons, passwordFor]
      by_cases hu : u.name ≠ "" ∧ u.password ≠ ""
      · rw [if_pos hu, GoMap.get_set]
        by_cases hn : u.name = n
        · rw [if_pos hn.symm, if_pos ⟨hu.1, hu.2, hn⟩]
          rfl
        · rw [if_neg (Ne.symm hn), if_neg fun h => hn h.2.2]
          rfl
      · rw [if_neg hu, if_neg fun h => hu ⟨h.1, h.2.1⟩]
        rfl
  exact hgen users GoMap.empty

end Honey.Agent
