import Honey.Master.Subscription

/-! Reading JSON as the agent does (`encoding/json`).

        value -- literal, number, "text"
              +- [ value , … ]
              +- { "key" : value , … }     the last value of a key counts

    The agent reads what the master has written, so the main result is a round trip: every well-formed
    value is read back from its compact form (`unmarshal_render`). Escaped surrogates, which neither
    side writes, are not read, and the texts of the library's own errors are not modelled. -/

namespace Honey.Agent
open Honey.Master Honey.Schemes List Option Json Nat Bool

/-! ### The reader -/

/-- White space between tokens. -/
def isSpace (c : Char) : Bool := c = ' ' || c = '\t' || c = '\n' || c = '\r'

def skip (l : List Char) : List Char := l.dropWhile isSpace

def hexValue (c : Char) : Option ℕ :=
  if '0' ≤ c ∧ c ≤ '9' then some (c.toNat - 48)
  else if 'a' ≤ c ∧ c ≤ 'f' then some (c.toNat - 87)
  else if 'A' ≤ c ∧ c ≤ 'F' then some (c.toNat - 55)
  else none

/-- The code unit of four hexadecimal digits, if it is a character. -/
def codeUnit (a b c d : Char) : Option Char := do
  let n := (← hexValue a) * 4096 + (← hexValue b) * 256 + (← hexValue c) * 16 + (← hexValue d)
  if 0xD800 ≤ n ∧ n ≤ 0xDFFF then none else some (Char.ofNat n)

/-- The escapes of one letter. -/
def unescape (c : Char) : Option Char :=
  if c = '"' ∨ c = '\\' ∨ c = '/' then some c
  else if c = 'n' then some '\n'
  else if c = 'r' then some '\r'
  else if c = 't' then some '\t'
  else if c = 'b' then some (Char.ofNat 8)
  else if c = 'f' then some (Char.ofNat 12)
  else none

/-- A character before a text that was read. -/
def prepend (c : Option Char) (text : Option (List Char × List Char)) : Option (List Char × List Char) :=
  match c, text with
  | some c, some (s, r) => some (c :: s, r)
  | _, _ => none

/-- The rest of a string literal, after the opening quote. -/
def readText : List Char → Option (List Char × List Char)
  | [] => none
  | c :: r =>
    if c = '"' then some ([], r)
    else if c = '\\' then
      match r with
      | [] => none
      | e :: r =>
        if e = 'u' then
          match r with
          | h₁ :: h₂ :: h₃ :: h₄ :: r => prepend (codeUnit h₁ h₂ h₃ h₄) (readText r)
          | _ => none
        else prepend (unescape e) (readText r)
    else if c.toNat < 32 then none
    else prepend (some c) (readText r)

def numberChar (c : Char) : Bool := c.isDigit || c ∈ ['-', '+', '.', 'e', 'E']

/-- A whole number. -/
def wholeNumber : List Char → Option ℤ
  | '-' :: l => (decimal l).map fun n => -(n : ℤ)
  | l => (decimal l).map fun n => (n : ℤ)

def isExponent : List Char → Bool
  | [] => true
  | e :: r => (e = 'e' || e = 'E') && (decimal (match r with
      | '+' :: r => r
      | '-' :: r => r
      | r => r)).isSome

def isFraction : List Char → Bool
  | '.' :: r => (decimal (r.takeWhile Char.isDigit)).isSome && isExponent (r.dropWhile Char.isDigit)
  | r => isExponent r

/-- A number with a fraction or an exponent. -/
def isFloat (l : List Char) : Bool :=
  let l := match l with
    | '-' :: l => l
    | l => l
  (decimal (l.takeWhile Char.isDigit)).isSome && isFraction (l.dropWhile Char.isDigit)

/-- A number, as an integer if it is written as one. -/
def readNumber (l : List Char) : Option Json :=
  match wholeNumber l with
  | some n => some (.int n)
  | none => if isFloat l then some (.float (String.ofList l)) else none

/-- What follows a given text. -/
def expect : List Char → List Char → Option (List Char)
  | [], l => some l
  | _ :: _, [] => none
  | c :: cs, x :: l => if c = x then expect cs l else none

mutual

/-- A value and what follows it. -/
def readValue : ℕ → List Char → Option (Json × List Char)
  | 0, _ => none
  | n + 1, l => match skip l with
    | [] => none
    | c :: r =>
      if c = '"' then (readText r).map fun p => (.str (String.ofList p.1), p.2)
      else if c = '[' then match expect [']'] (skip r) with
        | some r => some (.arr [], r)
        | none => (readItems n r).map fun p => (.arr p.1, p.2)
      else if c = '\x7b' then match expect ['\x7d'] (skip r) with
        | some r => some (.obj [], r)
        | none => (readFields n r).map fun p => (object p.1, p.2)
      else if c = 'n' then (expect "ull".toList r).map fun r => (.null, r)
      else if c = 't' then (expect "rue".toList r).map fun r => (.bool true, r)
      else if c = 'f' then (expect "alse".toList r).map fun r => (.bool false, r)
      else (readNumber ((c :: r).takeWhile numberChar)).map fun j =>
        (j, (c :: r).dropWhile numberChar)

/-- The items of an array up to its end. -/
def readItems : ℕ → List Char → Option (List Json × List Char)
  | 0, _ => none
  | n + 1, l => match readValue n l with
    | none => none
    | some (j, r) => match skip r with
      | [] => none
      | c :: r =>
        if c = ',' then (readItems n r).map fun p => (j :: p.1, p.2)
        else if c = ']' then some ([j], r)
        else none

/-- The fields of an object up to its end, in the order of the text. -/
def readFields : ℕ → List Char → Option (List (String × Json) × List Char)
  | 0, _ => none
  | n + 1, l => match (expect ['"'] (skip l)).bind readText with
    | none => none
    | some (k, r) => match (expect [':'] (skip r)).bind (readValue n) with
      | none => none
      | some (v, r) => match skip r with
        | [] => none
        | c :: r =>
          if c = ',' then (readFields n r).map fun p => ((String.ofList k, v) :: p.1, p.2)
          else if c = '\x7d' then some ([(String.ofList k, v)], r)
          else none

end

/-- `json.Unmarshal` into a value of any type. -/
def unmarshal (text : String) : Except String Json :=
  match readValue (text.toList.length + 1) text.toList with
  | some (j, r) => if skip r = [] then .ok j else .error "invalid character after top-level value"
  | none => .error "invalid JSON input"

/-- `json.Unmarshal` into a map; `null` leaves it empty. -/
def unmarshalMap (text : String) : Except String (List (String × Json)) :=
  match unmarshal text with
  | .ok (.obj fields) => .ok fields
  | .ok .null => .ok []
  | .ok _ => .error "json: cannot unmarshal value into Go value of type map"
  | .error e => .error e

/-! ### Tokens -/

variable {c : Char} {k : String} {v j : Json} {fs : List (String × Json)}

theorem skip_cons (h : isSpace c = false) (l : List Char) : skip (c :: l) = c :: l := by
  simp [skip, h]

theorem readText_escape {e : Char} (h : e ≠ 'u') (l : List Char) :
    readText ('\\' :: e :: l) = prepend (unescape e) (readText l) := by
  conv_lhs => unfold readText
  simp [h]

theorem readText_unit (h₁ h₂ h₃ h₄ : Char) (l : List Char) : readText ('\\' :: 'u' :: h₁ :: h₂ :: h₃ :: h₄ :: l) =
      prepend (codeUnit h₁ h₂ h₃ h₄) (readText l) := by
  conv_lhs => unfold readText
  simp

theorem readText_plain (hquote : c ≠ '"') (hback : c ≠ '\\') (hlow : ¬ c.toNat < 32) (l : List Char) :
    readText (c :: l) = prepend (some c) (readText l) := by
  conv_lhs => unfold readText
  simp [hquote, hback, hlow]

theorem codeUnit_hex4 : ∀ n < 32, codeUnit (digitChar (n / 4096 % 16))
    (digitChar (n / 256 % 16)) (digitChar (n / 16 % 16)) (digitChar (n % 16)) = some (Char.ofNat n) := by decide

theorem readText_escapeChar (c : Char) (l : List Char) :
    readText (escapeChar c ++ l) = prepend (some c) (readText l) := by
  unfold escapeChar
  iterate 5
    split
    · subst_vars
      exact readText_escape (by decide) l
  iterate 2
    split
    · rename_i h
      rw [← Char.ofNat_toNat c, h]
      exact readText_escape (by decide) l
  split
  · rename_i h
    have hunit := codeUnit_hex4 c.toNat h
    rw [Char.ofNat_toNat] at hunit
    simp [hex4, readText_unit, hunit]
  · exact readText_plain ‹_› ‹_› ‹_› l

theorem readText_flatMap : ∀ s r : List Char, readText (s.flatMap escapeChar ++ '"' :: r) = some (s, r)
  | [], r => by
    conv_lhs => unfold readText
    simp
  | c :: s, r => by
    rw [flatMap_cons, append_assoc, readText_escapeChar, readText_flatMap s r]
    rfl

theorem readText_quote (s : String) (r : List Char) :
    readText (s.toList.flatMap escapeChar ++ '"' :: r) = some (s.toList, r) :=
  readText_flatMap s.toList r

/-! ### Numbers -/

/-- A number ends here. -/
def NumberEnd (r : List Char) : Prop := ∀ c ∈ r.head?, numberChar c = false

theorem numberEnd_nil : NumberEnd [] := by
  rintro c ⟨⟩

theorem numberEnd_cons (h : numberChar c = false) (r : List Char) : NumberEnd (c :: r) := by
  rintro c' ⟨⟩
  exact h

theorem takeWhile_number {l r : List Char} (hl : ∀ c ∈ l, numberChar c) (hr : NumberEnd r) :
    (l ++ r).takeWhile numberChar = l ∧ (l ++ r).dropWhile numberChar = r := by
  rw [takeWhile_append_of_pos hl, dropWhile_append_of_pos hl]
  cases r with
  | nil => simp
  | cons c r => simp [hr c rfl]

theorem decimal_toDigits (n : ℕ) : decimal (toDigits 10 n) = some n := by
  have hdigits : (toDigits 10 n).all (fun c => '0' ≤ c ∧ c ≤ '9') := by
    rw [List.all_eq_true]
    intro c hc
    have hdigit := isDigit_of_mem_toDigits (by omega) (by omega) hc
    simpa [Char.isDigit, Char.le_def] using hdigit
  have hvalue := ofDigitChars_ten_toDigits (n := n)
  simp only [ofDigitChars_eq_foldl, mul_comm 10] at hvalue
  rw [decimal, if_pos ⟨toDigits_ne_nil, hdigits⟩]
  exact congrArg some hvalue

theorem numberChar_toDigits {n : ℕ} (h : c ∈ toDigits 10 n) : numberChar c := by
  rw [numberChar, isDigit_of_mem_toDigits (by omega) (by omega) h, Bool.true_or]

theorem toList_toString_int (n : ℤ) : (∃ m : ℕ, n = m ∧ (toString n).toList = toDigits 10 m) ∨
    ∃ m : ℕ, n = -m ∧ (toString n).toList = '-' :: toDigits 10 m := by
  rcases n with m | m
  · refine .inl ⟨m, rfl, ?_⟩
    have htext : toString (Int.ofNat m) = toString m := rfl
    rw [htext, toString_eq_ofList_toDigits, String.toList_ofList]
  refine .inr ⟨m + 1, rfl, ?_⟩
  have htext : toString (Int.negSucc m) = "-" ++ toString (m + 1) := rfl
  rw [htext, toString_eq_ofList_toDigits, String.toList_append, String.toList_ofList, String.toList_ofList]
  rfl

theorem wholeNumber_toDigits (m : ℕ) : wholeNumber (toDigits 10 m) = some (m : ℤ) := by
  unfold wholeNumber
  split
  · rename_i h
    have hdigit := isDigit_of_mem_toDigits (by omega) (by omega) (h ▸ mem_cons_self)
    exact absurd hdigit (by decide)
  · rw [decimal_toDigits]
    rfl

theorem wholeNumber_toString (n : ℤ) : wholeNumber (toString n).toList = some n := by
  rcases toList_toString_int n with ⟨m, rfl, h⟩ | ⟨m, rfl, h⟩
  · rw [h, wholeNumber_toDigits]
  · rw [h, wholeNumber, decimal_toDigits]
    rfl

theorem numberChar_toString {n : ℤ} : ∀ c ∈ (toString n).toList, numberChar c := by
  intro c hc
  rcases toList_toString_int n with ⟨m, -, h⟩ | ⟨m, -, h⟩
  · exact numberChar_toDigits (h ▸ hc)
  rw [h] at hc
  rcases mem_cons.mp hc with rfl | hc
  · decide
  · exact numberChar_toDigits hc

/-! ### The round trip -/

mutual

/-- A value as `serde_json` has it: objects ordered by key, numbers written as numbers. -/
def wellFormed : Json → Bool
  | .float text => text.toList.all numberChar && isFloat text.toList && (wholeNumber text.toList).isNone
  | .arr items => wellFormedItems items
  | .obj fields => decide ((fields.map (·.1)).Pairwise (· < ·)) && wellFormedFields fields
  | _ => true

def wellFormedItems : List Json → Bool
  | [] => true
  | j :: js => wellFormed j && wellFormedItems js

def wellFormedFields : List (String × Json) → Bool
  | [] => true
  | (_, v) :: fs => wellFormed v && wellFormedFields fs

end

mutual

/-- The fuel that reading a value takes. -/
def fuel : Json → ℕ
  | .arr items => 1 + fuelItems items
  | .obj fields => 1 + fuelFields fields
  | _ => 1

def fuelItems : List Json → ℕ
  | [] => 0
  | j :: js => 1 + fuel j + fuelItems js

def fuelFields : List (String × Json) → ℕ
  | [] => 0
  | (_, v) :: fs => 1 + fuel v + fuelFields fs

end

theorem insertField_last : ∀ {fs : List (String × Json)}, (∀ f ∈ fs, f.1 < k) → insertField k v fs = fs ++ [(k, v)]
  | [], _ => rfl
  | (k', v') :: fs, h => by
    have hk : k' < k := h _ mem_cons_self
    rw [insertField, if_neg hk.asymm, if_neg hk.ne', insertField_last fun f hf => h f (mem_cons_of_mem _ hf)]
    rfl

theorem object_of_ordered (h : (fs.map (·.1)).Pairwise (· < ·)) : object fs = .obj fs := by
  have hfold : ∀ (l acc : List (String × Json)), ((acc ++ l).map (·.1)).Pairwise (· < ·) →
      l.foldl (fun acc f => insertField f.1 f.2 acc) acc = acc ++ l := by
    intro l
    induction l with
    | nil => simp
    | cons f l ih =>
      intro acc hacc
      have hlast : ∀ g ∈ acc, g.1 < f.1 := by
        intro g hg
        rw [map_append, pairwise_append] at hacc
        exact hacc.2.2 g.1 (mem_map_of_mem hg) f.1 (by simp)
      rw [foldl_cons, insertField_last hlast, ih _ (by simpa using hacc)]
      simp
  rw [object, hfold fs [] ((h)), nil_append]

theorem ne_of_numberChar {d : Char} (hc : numberChar c) (hd : numberChar d = false) : c ≠ d := by
  rintro rfl
  rw [hc] at hd
  cases hd

theorem isSpace_numberChar (hc : numberChar c) : isSpace c = false := by
  simp only [isSpace, or_eq_false_iff, decide_eq_false_iff_not]
  exact ⟨⟨⟨ne_of_numberChar hc (by decide), ne_of_numberChar hc (by decide)⟩,
    ne_of_numberChar hc (by decide)⟩, ne_of_numberChar hc (by decide)⟩

theorem float_of_wellFormed {text : String} (h : wellFormed (.float text)) :
    text.toList ≠ [] ∧ (∀ c ∈ text.toList, numberChar c) ∧ readNumber text.toList = some (.float text) := by
  simp only [wellFormed, and_eq_true, isNone_iff_eq_none] at h
  obtain ⟨⟨hall, hfloat⟩, hwhole⟩ := h
  refine ⟨?_, all_eq_true.mp hall, ?_⟩
  · intro hnil
    rw [hnil] at hfloat
    exact absurd hfloat (by decide)
  · rw [readNumber, hwhole, hfloat, if_pos rfl, String.ofList_toList]

theorem toString_int_ne_nil (n : ℤ) : (toString n).toList ≠ [] := by
  rcases toList_toString_int n with ⟨m, -, h⟩ | ⟨m, -, h⟩
  · rw [h]
    exact toDigits_ne_nil
  · rw [h]
    exact cons_ne_nil _ _

theorem head_chars (h : wellFormed j) : ∃ c l, j.chars = c :: l ∧ isSpace c = false ∧ c ≠ ']' := by
  have hnumber : ∀ l : List Char, l ≠ [] → (∀ c ∈ l, numberChar c) →
      ∃ c l', l = c :: l' ∧ isSpace c = false ∧ c ≠ ']' := by
    intro l hne hl
    obtain ⟨c, l, rfl⟩ := exists_cons_of_ne_nil hne
    have hc := hl c mem_cons_self
    exact ⟨c, l, rfl, isSpace_numberChar hc, ne_of_numberChar hc (by decide)⟩
  cases j with
  | null => exact ⟨'n', _, rfl, rfl, by decide⟩
  | bool b =>
    cases b with
    | false => exact ⟨'f', _, rfl, rfl, by decide⟩
    | true => exact ⟨'t', _, rfl, rfl, by decide⟩
  | int n =>
    exact hnumber _ (toString_int_ne_nil n) numberChar_toString
  | float text =>
    obtain ⟨hne, hl, -⟩ := float_of_wellFormed h
    exact hnumber _ hne hl
  | str s => exact ⟨'"', _, by rw [chars, quote, cons_append], rfl, by decide⟩
  | arr items => exact ⟨'[', _, by rw [chars, cons_append], rfl, by decide⟩
  | obj fields => exact ⟨'\x7b', _, by rw [chars, cons_append], rfl, by decide⟩

theorem readValue_number {l r : List Char} (n : ℕ) (hne : l ≠ []) (hl : ∀ c ∈ l, numberChar c)
    (hj : readNumber l = some j) (hr : NumberEnd r) : readValue (n + 1) (l ++ r) = some (j, r) := by
  obtain ⟨htake, hdrop⟩ := takeWhile_number hl hr
  obtain ⟨c, l, rfl⟩ := exists_cons_of_ne_nil hne
  have hc : numberChar c := hl c mem_cons_self
  rw [cons_append] at htake hdrop ⊢
  rw [readValue, skip_cons (isSpace_numberChar hc)]
  simp [if_neg (ne_of_numberChar hc (show numberChar '"' = false by decide)),
    if_neg (ne_of_numberChar hc (show numberChar '[' = false by decide)),
    if_neg (ne_of_numberChar hc (show numberChar '\x7b' = false by decide)),
    if_neg (ne_of_numberChar hc (show numberChar 'n' = false by decide)),
    if_neg (ne_of_numberChar hc (show numberChar 't' = false by decide)),
    if_neg (ne_of_numberChar hc (show numberChar 'f' = false by decide)), htake, hdrop, hj,
    map_some]

theorem expect_end_of_chars (h : wellFormed j) (l : List Char) : expect [']'] (skip (j.chars ++ l)) = none := by
  obtain ⟨c, l', hj, hspace, hne⟩ := head_chars h
  rw [hj, cons_append, skip_cons hspace, expect, if_neg hne.symm]

theorem itemsChars_false_end (js : List Json) (r : List Char) : NumberEnd (itemsChars false js ++ ']' :: r) := by
  cases js with
  | nil => exact numberEnd_cons (by decide) r
  | cons j js =>
    exact numberEnd_cons (by decide) _

theorem fieldsChars_false_end (fs : List (String × Json)) (r : List Char) :
    NumberEnd (fieldsChars false fs ++ '\x7d' :: r) := by
  rcases fs with _ | ⟨⟨k, v⟩, fs⟩
  · exact numberEnd_cons (by decide) r
  · exact numberEnd_cons (by decide) _

/-! What is written for a text, an array and an object, and how the reader starts on each. -/

theorem chars_str (s : String) (r : List Char) :
    (str s).chars ++ r = '"' :: (s.toList.flatMap escapeChar ++ '"' :: r) := by
  simp [chars, quote]

theorem chars_arr (j : Json) (js : List Json) (r : List Char) :
    (arr (j :: js)).chars ++ r = '[' :: (j.chars ++ (itemsChars false js ++ ']' :: r)) := by
  simp [chars, itemsChars]

theorem chars_obj (k : String) (v : Json) (fs : List (String × Json)) (r : List Char) :
    (obj ((k, v) :: fs)).chars ++ r = '\x7b' :: '"' :: (k.toList.flatMap escapeChar ++
      '"' :: ':' :: (v.chars ++ (fieldsChars false fs ++ '\x7d' :: r))) := by
  simp [chars, fieldsChars, quote]

theorem itemsChars_cons (j : Json) (js : List Json) (r : List Char) :
    itemsChars false (j :: js) ++ r = ',' :: (j.chars ++ (itemsChars false js ++ r)) := by
  simp [itemsChars]

theorem fieldsChars_cons (k : String) (v : Json) (fs : List (String × Json)) (r : List Char) :
    fieldsChars false ((k, v) :: fs) ++ r = ',' :: '"' :: (k.toList.flatMap escapeChar ++
      '"' :: ':' :: (v.chars ++ (fieldsChars false fs ++ r))) := by
  simp [fieldsChars, quote]

theorem readValue_text (n : ℕ) (l : List Char) : readValue (n + 1) ('"' :: l) =
    (readText l).map fun p => (.str (String.ofList p.1), p.2) := by
  rfl

theorem readValue_array {n : ℕ} {l : List Char} (h : expect [']'] (skip l) = none) :
    readValue (n + 1) ('[' :: l) = (readItems n l).map fun p => (.arr p.1, p.2) := by
  rw [readValue, skip_cons (by decide)]
  simp [h]

theorem readValue_object {n : ℕ} {l : List Char} (h : expect ['\x7d'] (skip l) = none) :
    readValue (n + 1) ('\x7b' :: l) = (readFields n l).map fun p => (object p.1, p.2) := by
  rw [readValue, skip_cons (by decide)]
  simp [h]

theorem readFields_field {n : ℕ} {l r : List Char} (h : readValue n l = some (v, r)) :
    readFields (n + 1) ('"' :: (k.toList.flatMap escapeChar ++ '"' :: ':' :: l)) =
      match skip r with
      | [] => none
      | c :: r =>
        if c = ',' then (readFields n r).map fun p => ((k, v) :: p.1, p.2)
        else if c = '\x7d' then some ([(k, v)], r)
        else none := by
  have htext : (expect ['"'] (skip ('"' :: (k.toList.flatMap escapeChar ++ '"' :: ':' :: l)))).bind
      readText = some (k.toList, ':' :: l) := by
    rw [skip_cons (by decide), expect, if_pos rfl, expect, bind_some, readText_quote]
  have hvalue : (expect [':'] (skip (':' :: l))).bind (readValue n) = some (v, r) := by
    rw [skip_cons (by decide), expect, if_pos rfl, expect, bind_some, h]
  rw [readFields, htext]
  simp [hvalue]

-- the three theorems follow the three functions of the writer; fuel goes down with each item
mutual

theorem readValue_chars : ∀ (j : Json) (n : ℕ) (r : List Char), wellFormed j → fuel j ≤ n →
    NumberEnd r → readValue n (j.chars ++ r) = some (j, r)
  | j, 0, _, _, hn, _ => by cases j <;> simp [fuel] at hn
  | .null, n + 1, r, _, _, _ => by
    rw [chars, readValue]
    rfl
  | .bool true, n + 1, r, _, _, _ => by
    rw [chars, readValue]
    rfl
  | .bool false, n + 1, r, _, _, _ => by
    rw [chars, readValue]
    rfl
  | .int i, n + 1, r, _, _, hr => by
    rw [chars]
    refine readValue_number n (toString_int_ne_nil i) numberChar_toString ?_ hr
    rw [readNumber, wholeNumber_toString]
  | .float text, n + 1, r, h, _, hr => by
    obtain ⟨hne, hl, hread⟩ := float_of_wellFormed h
    rw [chars]
    exact readValue_number n hne hl hread hr
  | .str s, n + 1, r, _, _, _ => by
    rw [chars_str, readValue_text, readText_quote, map_some, String.ofList_toList]
  | .arr [], n + 1, r, _, _, _ => by
    rw [chars, readValue]
    rfl
  | .arr (j :: js), n + 1, r, h, hn, _ => by
    simp only [wellFormed, wellFormedItems, and_eq_true] at h
    simp only [fuel, fuelItems] at hn
    rw [chars_arr, readValue_array (expect_end_of_chars h.1 _), readItems_chars j js n r h.1 h.2 (by omega), map_some]
  | .obj [], n + 1, r, _, _, _ => by
    rw [chars, readValue]
    rfl
  | .obj ((k, v) :: fs), n + 1, r, h, hn, _ => by
    simp only [wellFormed, wellFormedFields, and_eq_true, decide_eq_true_eq] at h
    simp only [fuel, fuelFields] at hn
    rw [chars_obj, readValue_object (by rw [skip_cons (by decide)]; rfl),
      readFields_chars k v fs n r h.2.1 h.2.2 (by omega), map_some, object_of_ordered h.1]

theorem readItems_chars : ∀ (j : Json) (js : List Json) (n : ℕ) (r : List Char), wellFormed j →
    wellFormedItems js → 1 + fuel j + fuelItems js ≤ n →
    readItems n (j.chars ++ (itemsChars false js ++ ']' :: r)) = some (j :: js, r)
  | j, js, 0, _, _, _, hn => by omega
  | j, [], n + 1, r, hj, _, hn => by
    simp only [fuelItems] at hn
    rw [readItems, readValue_chars j n _ hj (by omega) (itemsChars_false_end [] r)]
    rfl
  | j, j' :: js, n + 1, r, hj, hjs, hn => by
    simp only [wellFormedItems, and_eq_true] at hjs
    simp only [fuelItems] at hn
    rw [readItems, readValue_chars j n _ hj (by omega) (itemsChars_false_end (j' :: js) r), itemsChars_cons]
    simp only [skip_cons (show isSpace ',' = false by decide), if_true,
      readItems_chars j' js n r hjs.1 hjs.2 (by omega), map_some]

theorem readFields_chars : ∀ (k : String) (v : Json) (fs : List (String × Json)) (n : ℕ)
    (r : List Char), wellFormed v → wellFormedFields fs → 1 + fuel v + fuelFields fs ≤ n →
    readFields n ('"' :: (k.toList.flatMap escapeChar ++
      '"' :: ':' :: (v.chars ++ (fieldsChars false fs ++ '\x7d' :: r)))) = some ((k, v) :: fs, r)
  | k, v, fs, 0, _, _, _, hn => by omega
  | k, v, [], n + 1, r, hv, _, hn => by
    simp only [fuelFields] at hn
    rw [readFields_field (readValue_chars v n _ hv (by omega) (fieldsChars_false_end [] r))]
    rfl
  | k, v, (k', v') :: fs, n + 1, r, hv, hfs, hn => by
    simp only [wellFormedFields, and_eq_true] at hfs
    simp only [fuelFields] at hn
    rw [readFields_field (readValue_chars v n _ hv (by omega)
      (fieldsChars_false_end ((k', v') :: fs) r)), fieldsChars_cons]
    simp only [skip_cons (show isSpace ',' = false by decide), if_true,
      readFields_chars k' v' fs n r hfs.1 hfs.2 (by omega), map_some]

end

mutual

theorem fuel_le_length : ∀ j : Json, wellFormed j → fuel j ≤ j.chars.length
  | .null, _ => by decide
  | .bool true, _ => by decide
  | .bool false, _ => by decide
  | .int i, _ => by
    rw [chars]
    exact length_pos_of_ne_nil (toString_int_ne_nil i)
  | .float text, h => by
    rw [chars]
    exact length_pos_of_ne_nil (float_of_wellFormed h).1
  | .str s, _ => by simp [chars, quote, fuel]
  | .arr [], _ => by simp [chars, fuel, fuelItems]
  | .arr (j :: js), h => by
    simp only [wellFormed, wellFormedItems, and_eq_true] at h
    have hj := fuel_le_length j h.1
    have hjs := fuelItems_le_length js h.2
    simp only [chars, itemsChars, fuel, fuelItems, length_cons, length_append, length_nil, if_true]
    omega
  | .obj [], _ => by simp [chars, fuel, fuelFields]
  | .obj ((k, v) :: fs), h => by
    simp only [wellFormed, wellFormedFields, and_eq_true] at h
    have hv := fuel_le_length v h.2.1
    have hfs := fuelFields_le_length fs h.2.2
    simp only [chars, fieldsChars, fuel, fuelFields, length_cons, length_append, length_nil, if_true]
    omega

theorem fuelItems_le_length : ∀ js : List Json, wellFormedItems js → fuelItems js ≤ (itemsChars false js).length
  | [], _ => zero_le _
  | j :: js, h => by
    simp only [wellFormedItems, Bool.and_eq_true] at h
    have hj := fuel_le_length j h.1
    have hjs := fuelItems_le_length js h.2
    simp only [itemsChars, fuelItems, length_append, if_neg Bool.false_ne_true, length_cons, length_nil]
    omega

theorem fuelFields_le_length : ∀ fs : List (String × Json), wellFormedFields fs →
    fuelFields fs ≤ (fieldsChars false fs).length
  | [], _ => zero_le _
  | (k, v) :: fs, h => by
    simp only [wellFormedFields, and_eq_true] at h
    have hv := fuel_le_length v h.1
    have hfs := fuelFields_le_length fs h.2
    simp only [fieldsChars, fuelFields, length_append, if_neg Bool.false_ne_true, length_cons, length_nil]
    omega

end

/-- A value is read back from its compact form. -/
theorem unmarshal_render (h : wellFormed j) : unmarshal j.render = .ok j := by
  have hread := readValue_chars j _ [] h (le_succ_of_le (fuel_le_length j h)) numberEnd_nil
  rw [append_nil] at hread
  simp only [unmarshal, render, String.toList_ofList, hread]
  rfl

theorem unmarshalMap_render {fields : List (String × Json)} (h : wellFormed (.obj fields)) :
    unmarshalMap (render (.obj fields)) = .ok fields := by
  simp [unmarshalMap, unmarshal_render h]

/-! ### Values that are built -/

theorem wellFormed_obj : wellFormed (.obj fs) ↔ (fs.map (·.1)).Pairwise (· < ·) ∧ wellFormedFields fs := by
  rw [wellFormed, and_eq_true, decide_eq_true_eq]

theorem wellFormedFields_iff : ∀ {fs : List (String × Json)}, wellFormedFields fs ↔ ∀ f ∈ fs, wellFormed f.2
  | [] => by simp [wellFormedFields]
  | (k, v) :: fs => by
    rw [wellFormedFields, and_eq_true, wellFormedFields_iff]
    simp

theorem mem_insertField {f : String × Json} :
    ∀ {fs : List (String × Json)}, f ∈ insertField k v fs → f = (k, v) ∨ f ∈ fs
  | [], h => .inl (mem_singleton.mp h)
  | (k', v') :: fs, h => by
    rw [insertField] at h
    split at h
    · exact mem_cons.mp h
    split at h
    · rcases mem_cons.mp h with rfl | h
      · exact .inl rfl
      · exact .inr (mem_cons_of_mem _ h)
    · rcases mem_cons.mp h with rfl | h
      · exact .inr mem_cons_self
      · exact (mem_insertField h).imp_right (mem_cons_of_mem _)

theorem insertField_ordered : ∀ {fs : List (String × Json)},
    (fs.map (·.1)).Pairwise (· < ·) → ((insertField k v fs).map (·.1)).Pairwise (· < ·)
  | [], _ => pairwise_singleton _ _
  | (k', v') :: fs, h => by
    have hcons := pairwise_cons.mp h
    rw [insertField]
    split
    · rename_i hlt
      refine pairwise_cons.mpr ⟨?_, h⟩
      rintro a (_ | ⟨_, ha⟩)
      · exact hlt
      · exact hlt.trans (hcons.1 a ha)
    split
    · rename_i heq
      exact pairwise_cons.mpr ⟨heq ▸ hcons.1, hcons.2⟩
    rename_i hlt hne
    refine pairwise_cons.mpr ⟨?_, insertField_ordered hcons.2⟩
    intro a ha
    obtain ⟨f, hf, rfl⟩ := mem_map.mp ha
    rcases mem_insertField hf with rfl | hf
    · exact lt_of_le_of_ne (not_lt.mp hlt) (Ne.symm hne)
    · exact hcons.1 _ (mem_map_of_mem hf)

theorem wellFormed_insertField (h : wellFormed (.obj fs)) (hv : wellFormed v) :
    wellFormed (.obj (insertField k v fs)) := by
  rw [wellFormed_obj, wellFormedFields_iff] at h ⊢
  refine ⟨insertField_ordered h.1, fun f hf => ?_⟩
  rcases mem_insertField hf with rfl | hf
  · exact hv
  · exact h.2 f hf

theorem wellFormed_set (h : wellFormed j) (hv : wellFormed v) : wellFormed (j.set k v) := by
  cases j with
  | obj fs => exact wellFormed_insertField h hv
  | null | bool b | int n | float t | str s | arr l => exact h

theorem wellFormed_setOption {v : Option Json} (h : wellFormed j) (hv : ∀ w ∈ v, wellFormed w) :
    wellFormed (j.setOption k v) := by
  cases v with
  | none => exact h
  | some w => exact wellFormed_set h (hv w rfl)

theorem wellFormed_object (h : ∀ f ∈ fs, wellFormed f.2) : wellFormed (.object fs) := by
  rw [object]
  induction fs using reverseRecOn with
  | nil => rfl
  | append_singleton fs f ih =>
    rw [foldl_append]
    exact wellFormed_insertField (ih fun g hg => h g (mem_append_left _ hg)) (h f (mem_append_right _ mem_cons_self))

end Honey.Agent
