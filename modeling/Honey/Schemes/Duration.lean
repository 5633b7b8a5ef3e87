import Honey.Schemes.Text

/-! Durations as `time.ParseDuration` of Go reads them.

        [+-] 0
        [+-] term term …      term = digits [ . digits ] unit, with a digit somewhere

    The reader scans; `Term` is the grammar. A text without a sign is read exactly if it is `0` or a row
    of terms whose running total, kept in 64 bits, never passes 2 ^ 63 (`parse_isSome_iff`). -/

namespace Honey.Schemes.Duration
open Option List Char

/-! ### The reader -/

/-- The value of a row of digits. -/
def digitsValue (l : List Char) : ℕ := l.foldl (fun n c => n * 10 + (c.toNat - 48)) 0

/-- The digits at the front; none on overflow. -/
def leadingInt (s : List Char) : Option (ℕ × List Char) :=
  if 2 ^ 63 < digitsValue (s.takeWhile isDigit) then none
  else some (digitsValue (s.takeWhile isDigit), s.dropWhile isDigit)

/-- The value of the digits that fit and ten to the number of them; the others are dropped. -/
def fitting : ℕ → ℕ → List Char → ℕ × ℕ
  | x, scale, [] => (x, scale)
  | x, scale, c :: ds =>
    if (2 ^ 63 - 1) / 10 < x ∨ 2 ^ 63 < x * 10 + (c.toNat - 48) then (x, scale)
    else fitting (x * 10 + (c.toNat - 48)) (scale * 10) ds

/-- The digits after a point, if there is one, and what follows. -/
def leadingFraction : List Char → Option (List Char) × List Char
  | [] => (none, [])
  | c :: r =>
    if c = '.' then (some (r.takeWhile isDigit), r.dropWhile isDigit) else (none, c :: r)

/-- `unitMap`: the units and their nanoseconds, with both signs for micro. -/
def units : List (List Char × ℕ) :=
  [(['n', 's'], 1), (['u', 's'], 1000), (['µ', 's'], 1000), (['μ', 's'], 1000), (['m', 's'], 1000000),
    (['s'], 1000000000), (['m'], 60000000000), (['h'], 3600000000000)]

def unitNanos (unit : List Char) : Option ℕ := (units.find? (·.1 = unit)).map (·.2)

/-- A unit goes up to the next number. -/
def inUnit (c : Char) : Bool := c ≠ '.' && !c.isDigit

variable (scaled : ℕ → ℕ → ℕ → ℕ)

/-- The nanoseconds of a fraction: `scaled f unit scale` is the product of the floats `f` and
    `unit / scale`, rounded down. -/
def fractionNanos (fraction : Option (List Char)) (unit : ℕ) : ℕ :=
  match fraction with
  | none => 0
  | some ds => if 0 < (fitting 0 1 ds).1 then scaled (fitting 0 1 ds).1 unit (fitting 0 1 ds).2 else 0

/-- One number with its unit, and what follows. -/
def readTerm (s : List Char) : Option (ℕ × List Char) := do
  let (v, r) ← leadingInt s
  let (fraction, r') := leadingFraction r
  if s.takeWhile isDigit = [] ∧ fraction.getD [] = [] then none
  else
    let unit ← unitNanos (r'.takeWhile inUnit)
    let v' := v * unit + fractionNanos scaled fraction unit
    if 2 ^ 63 / unit < v ∨ 2 ^ 63 < v' then none else some (v', r'.dropWhile inUnit)

/-- The loop over the terms, with the total so far. -/
def readTerms : ℕ → ℕ → List Char → Option ℕ
  | _, d, [] => some d
  | 0, _, _ :: _ => none
  | n + 1, d, c :: s => do
      let (v, r) ← readTerm scaled (c :: s)
      if 2 ^ 63 < (d + v) % 2 ^ 64 then none else readTerms n ((d + v) % 2 ^ 64) r

/-- The part after the sign. -/
def readUnsigned (s : List Char) : Option ℕ :=
  if s = ['0'] then some 0 else if s = [] then none else readTerms scaled s.length 0 s

/-- A duration that is not negative. -/
def readPositive (s : List Char) : Option ℤ :=
  (readUnsigned scaled s).bind fun d => if 2 ^ 63 - 1 < d then none else some d

/-- `time.ParseDuration`, in nanoseconds. -/
def parse (s : String) : Option ℤ :=
  match s.toList with
  | [] => none
  | c :: r =>
    if c = '-' then (readUnsigned scaled r).map fun d => -(d : ℤ)
    else if c = '+' then readPositive scaled r
    else readPositive scaled (c :: r)

/-! ### The grammar -/

/-- A number with a unit. -/
structure Term where
  whole : List Char
  fraction : Option (List Char)
  unit : List Char
  nanos : ℕ
  whole_digits : ∀ c ∈ whole, c.isDigit
  fraction_digits : ∀ c ∈ fraction.getD [], c.isDigit
  some_digit : whole ≠ [] ∨ fraction.getD [] ≠ []
  unit_nanos : unitNanos unit = some nanos

namespace Term

variable (t : Term)

/-- The fraction with its point. -/
def fractionText : List Char := (t.fraction.map ('.' :: ·)).getD []

def text : List Char := t.whole ++ (t.fractionText ++ t.unit)

def value : ℕ := digitsValue t.whole * t.nanos + fractionNanos scaled t.fraction t.nanos

end Term

/-- No term, no running total is more than 2 ^ 63, and the last total is less. -/
def Fits : ℕ → List Term → Prop
  | d, [] => d < 2 ^ 63
  | d, t :: ts => t.value scaled ≤ 2 ^ 63 ∧ (d + t.value scaled) % 2 ^ 64 ≤ 2 ^ 63 ∧
      Fits ((d + t.value scaled) % 2 ^ 64) ts

/-- A text that is a duration: `0`, or terms that fit. -/
def IsDuration (s : List Char) : Prop :=
  s = ['0'] ∨ ∃ ts : List Term, ts ≠ [] ∧ s = ts.flatMap Term.text ∧ Fits scaled 0 ts

/-! ### One term -/

section

variable {scaled : ℕ → ℕ → ℕ → ℕ} {p : Char → Bool} {l r : List Char}

/-- The first character of `r`, if there is one, is not in the class. -/
def Stops (p : Char → Bool) (r : List Char) : Prop := ∀ c ∈ r.head?, p c = false

theorem stops_dropWhile (p : Char → Bool) (l : List Char) : Stops p (l.dropWhile p) := by
  intro c hc
  have := head?_dropWhile_not p l
  rw [mem_def.mp hc] at this
  simpa using this

theorem takeWhile_stops (hl : ∀ c ∈ l, p c) (hr : Stops p r) : (l ++ r).takeWhile p = l := by
  rw [takeWhile_append_of_pos hl]
  cases r with
  | nil => simp
  | cons c r => simp [hr c rfl]

theorem dropWhile_stops (hl : ∀ c ∈ l, p c) (hr : Stops p r) : (l ++ r).dropWhile p = r := by
  rw [dropWhile_append_of_pos hl]
  cases r with
  | nil => rfl
  | cons c r => simp [hr c rfl]

theorem unitNanos_spec {unit : List Char} {n : ℕ} (h : unitNanos unit = some n) :
    unit ≠ [] ∧ (∀ c ∈ unit, inUnit c) ∧ 0 < n := by
  have hall : ∀ u ∈ units, u.1 ≠ [] ∧ u.1.all inUnit ∧ 0 < u.2 := by decide
  obtain ⟨u, hu, rfl⟩ := map_eq_some_iff.mp h
  obtain rfl : u.1 = unit := by simpa using find?_some hu
  obtain ⟨hne, hin, hpos⟩ := hall u (mem_of_find?_eq_some hu)
  exact ⟨hne, all_eq_true.mp hin, hpos⟩

theorem inUnit_not_digit {c : Char} (h : inUnit c) : c.isDigit = false := by
  rw [inUnit, Bool.and_eq_true] at h
  simpa using h.2

theorem inUnit_not_point {c : Char} (h : inUnit c) : c ≠ '.' := by
  rw [inUnit, Bool.and_eq_true] at h
  simpa using h.1

variable (t : Term)

theorem Term.stops_unit (r : List Char) : Stops isDigit (t.unit ++ r) := by
  obtain ⟨hne, hin, -⟩ := unitNanos_spec t.unit_nanos
  obtain ⟨c, u, hu⟩ := exists_cons_of_ne_nil hne
  intro d hd
  rw [hu] at hd hin
  obtain rfl := some.inj hd
  exact inUnit_not_digit (hin _ mem_cons_self)

theorem Term.stops_whole (r : List Char) : Stops isDigit (t.fractionText ++ (t.unit ++ r)) := by
  cases hf : t.fraction with
  | none =>
    rw [Term.fractionText, hf]
    exact t.stops_unit r
  | some ds =>
    rw [Term.fractionText, hf]
    intro c hc
    obtain rfl := some.inj hc
    decide

theorem Term.leadingFraction (t : Term) (r : List Char) :
    leadingFraction (t.fractionText ++ (t.unit ++ r)) = (t.fraction, t.unit ++ r) := by
  cases hf : t.fraction with
  | none =>
    obtain ⟨hne, hin, -⟩ := unitNanos_spec t.unit_nanos
    obtain ⟨c, u, hu⟩ := exists_cons_of_ne_nil hne
    have hc : c ≠ '.' := inUnit_not_point (hin c (by rw [hu]; exact mem_cons_self))
    rw [Term.fractionText, hf, hu]
    simp [Duration.leadingFraction, hc]
  | some ds =>
    have hds : ∀ c ∈ ds, c.isDigit := by
      intro c hc
      exact t.fraction_digits c (by rwa [hf])
    rw [Term.fractionText, hf]
    simp [Duration.leadingFraction, takeWhile_stops hds (t.stops_unit r), dropWhile_stops hds (t.stops_unit r)]

theorem readTerm_text (t : Term) (hr : Stops inUnit r) (hfit : t.value scaled ≤ 2 ^ 63) :
    readTerm scaled (t.text ++ r) = some (t.value scaled, r) := by
  have htext : t.text ++ r = t.whole ++ (t.fractionText ++ (t.unit ++ r)) := by
    simp [Term.text]
  have hwhole := takeWhile_stops t.whole_digits (t.stops_whole r)
  have hrest := dropWhile_stops t.whole_digits (t.stops_whole r)
  obtain ⟨-, hunit, hpos⟩ := unitNanos_spec t.unit_nanos
  have hle : digitsValue t.whole * t.nanos ≤ 2 ^ 63 := (Nat.le_add_right _ _).trans hfit
  have hdiv : digitsValue t.whole ≤ 2 ^ 63 / t.nanos := (Nat.le_div_iff_mul_le hpos).mpr hle
  have hint : digitsValue t.whole ≤ 2 ^ 63 := hdiv.trans (Nat.div_le_self _ _)
  have hdigit : ¬ (t.whole = [] ∧ t.fraction.getD [] = []) := by
    rintro ⟨hw, hf⟩
    exact t.some_digit.elim (absurd hw) (absurd hf)
  rw [htext, readTerm, leadingInt, hwhole, hrest, if_neg (not_lt.mpr hint)]
  simp only [bind_eq_bind, bind_some, t.leadingFraction, if_neg hdigit,
    takeWhile_stops hunit hr, dropWhile_stops hunit hr, t.unit_nanos]
  rw [if_neg]
  · rfl
  · rintro (h | h)
    · exact absurd hdiv (not_le.mpr h)
    · exact absurd hfit (not_le.mpr h)

theorem leadingFraction_eq {s rest : List Char} {fraction : Option (List Char)}
    (h : leadingFraction s = (fraction, rest)) :
    s = (fraction.map ('.' :: ·)).getD [] ++ rest ∧ ∀ c ∈ fraction.getD [], c.isDigit := by
  cases s with
  | nil =>
    obtain ⟨rfl, rfl⟩ := Prod.mk.inj h
    simp
  | cons c l =>
    rw [leadingFraction] at h
    split at h
    · rename_i hc
      obtain ⟨rfl, rfl⟩ := Prod.mk.inj h
      refine ⟨by simp [hc], fun c hc => ?_⟩
      exact mem_takeWhile_imp hc
    · obtain ⟨rfl, rfl⟩ := Prod.mk.inj h
      simp

theorem readTerm_eq_some {s : List Char} {v : ℕ} (h : readTerm scaled s = some (v, r)) :
    ∃ t : Term, s = t.text ++ r ∧ Stops inUnit r ∧ v = t.value scaled ∧ v ≤ 2 ^ 63 := by
  rw [readTerm, leadingInt] at h
  split at h
  · cases h
  simp only [bind_eq_bind, bind_some] at h
  split at h
  · cases h
  rename_i hdigit
  obtain ⟨nanos, hnanos, h⟩ := bind_eq_some_iff.mp h
  split at h
  · cases h
  rename_i hfit
  obtain ⟨rfl, rfl⟩ := Prod.mk.inj (some.inj h)
  have hsplit := (takeWhile_append_dropWhile (p := isDigit) (l := s)).symm
  generalize hf : leadingFraction (s.dropWhile isDigit) = fr at *
  obtain ⟨fraction, rest⟩ := fr
  obtain ⟨hrest, hdigits⟩ := leadingFraction_eq hf
  refine ⟨⟨s.takeWhile isDigit, fraction, rest.takeWhile inUnit, nanos,
    fun c hc => mem_takeWhile_imp hc, hdigits, ?_, hnanos⟩, ?_, stops_dropWhile _ _, rfl, ?_⟩
  · by_contra hno
    push Not at hno
    exact hdigit hno
  · calc s = s.takeWhile isDigit ++ s.dropWhile isDigit := hsplit
      _ = s.takeWhile isDigit ++ ((fraction.map _).getD [] ++ (rest.takeWhile inUnit ++ rest.dropWhile inUnit)) := by
        rw [hrest, takeWhile_append_dropWhile]
      _ = _ := by simp [Term.text, Term.fractionText]
  · push Not at hfit
    exact hfit.2

/-! ### The whole text -/

theorem Term.stops_text (r : List Char) : Stops inUnit (t.text ++ r) := by
  intro c hc
  cases hw : t.whole with
  | cons d ds =>
    have hd := t.whole_digits d (by rw [hw]; exact mem_cons_self)
    rw [Term.text, hw] at hc
    obtain rfl := some.inj hc
    simp [inUnit, hd]
  | nil =>
    rcases hf : t.fraction with _ | ds
    · exact absurd t.some_digit (by simp [hw, hf])
    rw [Term.text, Term.fractionText, hw, hf] at hc
    obtain rfl := some.inj hc
    decide

theorem Term.text_ne_nil : t.text ≠ [] := by
  have := (unitNanos_spec t.unit_nanos).1
  simp [Term.text, this]

theorem stops_flatMap : ∀ ts : List Term, Stops inUnit (ts.flatMap Term.text)
  | [] => nofun
  | t :: ts => by
    exact t.stops_text _

theorem readTerms_flatMap : ∀ (ts : List Term) (n d : ℕ), (ts.flatMap Term.text).length ≤ n →
    Fits scaled d ts → ∃ d' < 2 ^ 63, readTerms scaled n d (ts.flatMap Term.text) = some d'
  | [], n, d, _, h => ⟨d, h, by cases n <;> rfl⟩
  | t :: ts, n, d, hn, h => by
    obtain ⟨hterm, htotal, hrest⟩ := h
    obtain ⟨c, s, hs⟩ := exists_cons_of_ne_nil t.text_ne_nil
    have hlen : (t.text ++ ts.flatMap Term.text).length ≤ n := (hn)
    rw [hs, cons_append, length_cons, length_append] at hlen
    obtain ⟨n, rfl⟩ : ∃ m, n = m + 1 := ⟨n - 1, by omega⟩
    obtain ⟨d', hd', hread⟩ := readTerms_flatMap ts n _ (by omega) hrest
    refine ⟨d', hd', ?_⟩
    have hstep := readTerm_text t (stops_flatMap ts) hterm
    rw [flatMap_cons]
    rw [hs, cons_append] at hstep ⊢
    simp only [readTerms, hstep, bind_eq_bind, bind_some, if_neg (not_lt.mpr htotal), hread]

theorem readTerms_eq_some : ∀ {n d d' : ℕ} {s : List Char}, readTerms scaled n d s = some d' →
    d' < 2 ^ 63 → ∃ ts : List Term, s = ts.flatMap Term.text ∧ Fits scaled d ts
  | n, d, d', [], h, hd' => by
    have : d = d' := by cases n <;> exact some.inj h
    exact ⟨[], rfl, this ▸ hd'⟩
  | 0, d, d', c :: s, h, _ => by cases h
  | n + 1, d, d', c :: s, h, hd' => by
    obtain ⟨⟨v, r⟩, hterm, h⟩ := bind_eq_some_iff.mp h
    dsimp only at h
    split at h
    · cases h
    rename_i htotal
    obtain ⟨t, hs, -, rfl, hv⟩ := readTerm_eq_some hterm
    obtain ⟨ts, rfl, hfit⟩ := readTerms_eq_some h hd'
    exact ⟨t :: ts, by rw [hs, flatMap_cons], hv, not_lt.mp htotal, hfit⟩

/-- A text without a sign is read exactly if it is a duration. -/
theorem parse_isSome_iff {s : String} (hsign : ∀ c ∈ s.toList, c ≠ '-' ∧ c ≠ '+') :
    (parse scaled s).isSome ↔ IsDuration scaled s.toList := by
  have hparse : parse scaled s = readPositive scaled s.toList := by
    unfold parse
    split
    · rename_i hs
      rw [hs]
      rfl
    · rename_i c r hs
      obtain ⟨hminus, hplus⟩ := hsign c (by rw [hs]; exact mem_cons_self)
      rw [if_neg hminus, if_neg hplus, hs]
  rw [hparse, readPositive, readUnsigned]
  constructor
  · intro h
    split at h
    · rename_i h0
      exact .inl h0
    split at h
    · cases h
    rename_i hne
    obtain ⟨d, hd⟩ := isSome_iff_exists.mp h
    obtain ⟨d', hread, hd⟩ := bind_eq_some_iff.mp hd
    split at hd
    · cases hd
    obtain ⟨ts, hts, hfit⟩ := readTerms_eq_some hread (by omega)
    refine .inr ⟨ts, ?_, hts, hfit⟩
    rintro rfl
    exact hne hts
  · rintro (h0 | ⟨ts, hne, hts, hfit⟩)
    · simp [h0]
    · obtain ⟨d', hd', hread⟩ := readTerms_flatMap ts s.toList.length 0 (by rw [hts]) hfit
      split
      · simp
      have hs : s.toList ≠ [] := by
        obtain ⟨t, ts, rfl⟩ := exists_cons_of_ne_nil hne
        rw [hts]
        simp [t.text_ne_nil]
      rw [if_neg hs, hts] at *
      rw [hread, bind_some, if_neg (by omega)]
      rfl

end

end Honey.Schemes.Duration
