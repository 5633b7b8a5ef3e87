import Mathlib

/-! Text as the standard libraries of Rust and Go cut it up: white space, trimming, decimal
    numbers, and the bytes of a text. -/

namespace Honey.Schemes
open List

/-- The Unicode property `White_Space`. -/
def isWhitespace (c : Char) : Bool :=
  let n := c.toNat
  (9 ≤ n && n ≤ 13) || n == 0x20 || n == 0x85 || n == 0xA0 || n == 0x1680 ||
    (0x2000 ≤ n && n ≤ 0x200A) || n == 0x2028 || n == 0x2029 || n == 0x202F || n == 0x205F || n == 0x3000

/-- Without the white space at both ends. -/
def trim (s : String) : String :=
  String.ofList ((s.toList.dropWhile isWhitespace).reverse.dropWhile isWhitespace).reverse

variable {c : Char}

theorem mem_dropWhile {p : Char → Bool} (hc : p c = false) {l : List Char} (h : c ∈ l) : c ∈ l.dropWhile p := by
  rw [← takeWhile_append_dropWhile (p := p) (l := l), mem_append] at h
  rcases h with h | h
  · exact absurd (mem_takeWhile_imp h) (by simp [hc])
  · exact h

theorem mem_trim {s : String} (hc : isWhitespace c = false) (h : c ∈ s.toList) : c ∈ (trim s).toList := by
  rw [trim, String.toList_ofList, mem_reverse]
  exact mem_dropWhile hc (mem_reverse.mpr (mem_dropWhile hc h))

theorem trim_eq_self {s : String} (h : ∀ c ∈ s.toList, isWhitespace c = false) : trim s = s := by
  have hdrop : ∀ l : List Char, (∀ c ∈ l, isWhitespace c = false) → l.dropWhile isWhitespace = l := by
    rintro (_ | ⟨c, l⟩) hl
    · rfl
    · rw [dropWhile_cons, hl c mem_cons_self]
      rfl
  rw [trim, hdrop _ h, hdrop _ fun c hc => h c (mem_reverse.mp hc), reverse_reverse, String.ofList_toList]

theorem isWhitespace_of_isDigit (h : c.isDigit = true) : isWhitespace c = false := by
  simp only [Char.isDigit, Bool.and_eq_true, decide_eq_true_eq, UInt32.le_iff_toNat_le] at h
  have hlow : 48 ≤ c.toNat := h.1
  have hhigh : c.toNat ≤ 57 := h.2
  simp only [isWhitespace]
  interval_cases c.toNat <;> rfl

/-- The text before and after the first `c`. -/
def splitOnce (c : Char) : List Char → Option (List Char × List Char)
  | [] => none
  | x :: xs => if x = c then some ([], xs) else (splitOnce c xs).map fun p => (x :: p.1, p.2)

theorem splitOnce_append : ∀ {n : List Char} (p : List Char), c ∉ n → splitOnce c (n ++ c :: p) = some (n, p)
  | [], p, _ => by simp [splitOnce]
  | x :: n, p, h => by
    rw [mem_cons, not_or] at h
    rw [cons_append, splitOnce, if_neg (Ne.symm h.1), splitOnce_append p h.2]
    rfl

theorem splitOnce_eq_some {l n p : List Char} : splitOnce c l = some (n, p) ↔ l = n ++ c :: p ∧ c ∉ n := by
  constructor
  · induction l generalizing n with
    | nil => intro h; cases h
    | cons x l ih =>
      intro h
      rw [splitOnce] at h
      split at h
      · rename_i hx
        obtain ⟨rfl, rfl⟩ := Prod.mk.inj (Option.some.inj h)
        exact ⟨by rw [hx]; rfl, not_mem_nil⟩
      rename_i hx
      obtain ⟨⟨n', p'⟩, hl, hn⟩ := Option.map_eq_some_iff.mp h
      obtain ⟨rfl, rfl⟩ := Prod.mk.inj hn
      obtain ⟨rfl, hn'⟩ := ih hl
      exact ⟨rfl, by simp [hn', Ne.symm hx]⟩
  · rintro ⟨rfl, hn⟩
    exact splitOnce_append p hn

theorem splitOnce_eq_none {l : List Char} : splitOnce c l = none ↔ c ∉ l := by
  constructor
  · intro h hc
    obtain ⟨n, p, rfl, hn⟩ := eq_append_cons_of_mem hc
    rw [splitOnce_append p hn] at h
    cases h
  · intro hc
    cases h : splitOnce c l with
    | none => rfl
    | some x =>
      obtain ⟨rfl, -⟩ := splitOnce_eq_some.mp h
      exact absurd (by simp) hc

/-- The value of a row of decimal digits; none of anything else, and none of an empty row. -/
def decimal (l : List Char) : Option ℕ :=
  if l ≠ [] ∧ l.all (fun c => '0' ≤ c ∧ c ≤ '9') then
    some (l.foldl (fun n c => n * 10 + (c.toNat - 48)) 0)
  else none

/-! ### Bytes -/

/-- The bytes of a text. -/
def utf8 (s : String) : List UInt8 := s.toByteArray.data.toList

/-- The text of the bytes, unless they are not UTF-8. -/
def fromUtf8 (bytes : List UInt8) : Option String := String.fromUTF8? ⟨bytes.toArray⟩

theorem fromUtf8_utf8 (s : String) : fromUtf8 (utf8 s) = some s := by
  rw [fromUtf8, utf8, String.fromUTF8?, dif_pos s.isValidUTF8]
  rfl

theorem utf8_inj {s t : String} (h : utf8 s = utf8 t) : s = t := by
  rw [← Option.some_inj, ← fromUtf8_utf8 s, h, fromUtf8_utf8]

end Honey.Schemes
