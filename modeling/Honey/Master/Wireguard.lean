import Honey.Schemes.Split
import Honey.Schemes.Text

/-! Address pools of the WireGuard interfaces (`wg.rs`): an IPv4 network, the server on its first host,
    and the lowest free address for a new peer. -/

namespace Honey.Master
open Honey.Schemes BitVec

abbrev Ipv4 := BitVec 32

/-- One number of a dotted address: at most three digits and no leading zero. -/
def parseOctet (l : List Char) : Option (BitVec 8) :=
  if 3 < l.length ∨ (1 < l.length ∧ l.head? = some '0') then none
  else (decimal l).bind fun n => if n < 256 then some (BitVec.ofNat 8 n) else none

/-- `Ipv4Addr::from_str`. -/
def parseIpv4 (l : List Char) : Option Ipv4 :=
  match split ['.'] l with
  | [a, b, c, d] => do
      let a ← parseOctet a
      let b ← parseOctet b
      let c ← parseOctet c
      let d ← parseOctet d
      return a ++ b ++ c ++ d
  | _ => none

variable (ip : Ipv4)

/-- `Ipv4Addr::to_string`. -/
def Ipv4.text : String :=
  let octet (i : ℕ) : String := toString ((ip >>> i) &&& 255#32).toNat
  octet 24 ++ "." ++ octet 16 ++ "." ++ octet 8 ++ "." ++ octet 0

/-- `u8::from_str`, which takes a sign. -/
def parseU8 (l : List Char) : Option ℕ :=
  let digits := match l with
    | '+' :: l => l
    | l => l
  (decimal digits).filter (· < 256)

def parseCidr (cidr : String) : Except String (Ipv4 × ℕ) := do
  let some (addr, len) := splitOnce '/' cidr.toList | throw "cidr must be a.b.c.d/nn"
  let some ip := parseIpv4 (trim (String.ofList addr)).toList | throw "bad cidr address"
  let some len := parseU8 (trim (String.ofList len)).toList | throw "bad cidr prefix"
  if 32 < len then throw "cidr prefix out of range"
  return (ip, len)

/-- `server_address`: the first host of the network. -/
def serverAddress (cidr : String) : Except String Ipv4 := do
  let (base, len) ← parseCidr cidr
  let mask : Ipv4 := if len = 0 then 0 else allOnes 32 <<< (32 - len)
  return (base &&& mask) + 1

/-- The first of `n` addresses from `host` on that is not taken. -/
def firstFree (taken : List Ipv4) : ℕ → Ipv4 → Option Ipv4
  | 0, _ => none
  | n + 1, host => if host ∈ taken then firstFree taken n (host + 1) else some host

/-- `allocate_ip`. The shift of a `/0` pool wraps, as it does in a release build. -/
def allocateIp (cidr : String) (taken : List Ipv4) : Except String Ipv4 := do
  let (base, len) ← parseCidr cidr
  if 31 ≤ len then throw "wg pool too small (need /30 or larger)"
  let mask : Ipv4 := BitVec.allOnes 32 <<< ((32 - len) % 32)
  let net := base &&& mask
  let broadcast := net ||| ~~~mask
  let some ip := firstFree taken (broadcast.toNat - (net + 2).toNat) (net + 2)
    | throw "wg address pool exhausted"
  return ip

/-! ### Texts of addresses -/

theorem parseOctet_toString : ∀ n < 256, parseOctet (toString n).toList = some (BitVec.ofNat 8 n) ∧
    '.' ∉ (toString n).toList := by
  decide +kernel

theorem octet_lt (i : ℕ) : ((ip >>> i) &&& 255#32).toNat < 256 := by
  exact Nat.lt_of_le_of_lt Nat.and_le_right (by decide)

theorem octets_append :
    BitVec.ofNat 8 ((ip >>> 24) &&& 255#32).toNat ++ BitVec.ofNat 8 ((ip >>> 16) &&& 255#32).toNat ++
      BitVec.ofNat 8 ((ip >>> 8) &&& 255#32).toNat ++ BitVec.ofNat 8 ((ip >>> 0) &&& 255#32).toNat = ip := by
  have hoctet : ∀ i : ℕ, BitVec.ofNat 8 ((ip >>> i) &&& 255#32).toNat = ip.extractLsb' i 8 := by
    intro i
    refine eq_of_toNat_eq ?_
    have hlow : ((ip >>> i) &&& 255#32).toNat = ip.toNat >>> i % 256 := by
      exact Nat.and_two_pow_sub_one_eq_mod _ 8
    rw [toNat_ofNat, extractLsb'_toNat]
    omega
  simp only [hoctet]
  refine eq_of_getElem_eq fun i hi => ?_
  simp only [getElem_append, getElem_extractLsb']
  repeat' split
  all_goals
    rw [BitVec.getLsbD_eq_getElem (by omega)]
    congr 1
    omega

theorem parseIpv4_text : parseIpv4 ip.text.toList = some ip := by
  let octet (i : ℕ) : List Char := (toString ((ip >>> i) &&& 255#32).toNat).toList
  have hread : ∀ i, parseOctet (octet i) = some (BitVec.ofNat 8 ((ip >>> i) &&& 255#32).toNat) :=
    fun i => (parseOctet_toString _ (octet_lt ip i)).1
  have hplain : ∀ i, ¬ ['.'] <:+: octet i := fun i h =>
    (parseOctet_toString _ (octet_lt ip i)).2 (h.subset List.mem_cons_self)
  have hlist : ip.text.toList = octet 24 ++ (['.'] ++ (octet 16 ++ (['.'] ++ (octet 8 ++ (['.'] ++ octet 0))))) := by
    simp [Ipv4.text, octet]
  have hsplit : split ['.'] ip.text.toList = [octet 24, octet 16, octet 8, octet 0] := by
    have hpiece : ∀ i (b : List Char), split ['.'] (octet i ++ (['.'] ++ b)) = octet i :: split ['.'] b :=
      fun i b => split_append (by decide) (by simpa using hplain i) b
    rw [hlist, hpiece, hpiece, hpiece, split_plain (hplain 0)]
  rw [parseIpv4, hsplit]
  simp only [hread]
  exact congrArg some (octets_append ip)

theorem text_injective {a b : Ipv4} (h : a.text = b.text) : a = b := by
  have hread := parseIpv4_text a
  rw [h, parseIpv4_text] at hread
  exact (Option.some.inj hread).symm

end Honey.Master
