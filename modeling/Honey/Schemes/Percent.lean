import Mathlib

/-! Percent-encoding of text: `%` and two hexadecimal digits stand for a byte, every other character for
    its own bytes, and the bytes are read as UTF-8. -/

namespace Honey.Schemes

/-- The value of a hexadecimal digit, of either case. -/
def hexDigit? (c : Char) : Option ℕ :=
  if '0' ≤ c ∧ c ≤ '9' then some (c.toNat - 48)
  else if 'a' ≤ c ∧ c ≤ 'f' then some (c.toNat - 87)
  else if 'A' ≤ c ∧ c ≤ 'F' then some (c.toNat - 55)
  else none

/-- The byte that two hexadecimal digits spell. -/
def hexPair? (h l : Char) : Option UInt8 :=
  (hexDigit? h).bind fun x => (hexDigit? l).map fun y => UInt8.ofNat (16 * x + y)

/-- The bytes; a `%` that two digits do not follow stands for itself. -/
def percentBytes : List Char → List UInt8
  | c :: h :: l :: rest =>
    match if c = '%' then hexPair? h l else none with
    | some b => b :: percentBytes rest
    | none => String.utf8EncodeChar c ++ percentBytes (h :: l :: rest)
  | [c, d] => String.utf8EncodeChar c ++ String.utf8EncodeChar d
  | [c] => String.utf8EncodeChar c
  | [] => []

/-- The text, unless the bytes are not UTF-8. -/
def percentDecode (s : String) : Option String := String.fromUTF8? (percentBytes s.toList).toByteArray

theorem percentBytes_plain : ∀ {l : List Char}, '%' ∉ l → percentBytes l = l.flatMap String.utf8EncodeChar
  | c :: h :: l :: rest, hp => by
    rw [List.mem_cons, not_or] at hp
    rw [percentBytes, if_neg (Ne.symm hp.1), List.flatMap_cons, percentBytes_plain hp.2]
  | [c, d], _ => by simp [percentBytes]
  | [c], _ => by simp [percentBytes]
  | [], _ => rfl

theorem percentDecode_plain {s : String} (h : '%' ∉ s.toList) : percentDecode s = some s := by
  have hbytes : (percentBytes s.toList).toByteArray = s.toByteArray := by
    rw [percentBytes_plain h]
    exact (congrArg String.toByteArray (String.ofList_toList))
  rw [percentDecode, hbytes, String.fromUTF8?, dif_pos s.isValidUTF8]
  rfl

end Honey.Schemes
