import Mathlib

/-! JSON values as `serde_json` holds and writes them: objects are maps ordered by key, and the
    compact serialisation escapes quotes, backslashes and control characters only. -/

namespace Honey.Master
open List

/-- `serde_json::Value`. A number that is not an integer is kept as its text. -/
inductive Json where
  | null
  | bool (b : Bool)
  | int (n : ℤ)
  | float (text : String)
  | str (s : String)
  | arr (items : List Json)
  | obj (fields : List (String × Json))
  deriving Inhabited

namespace Json

/-- `Map::insert`: the fields stay ordered by key. -/
def insertField (k : String) (v : Json) : List (String × Json) → List (String × Json)
  | [] => [(k, v)]
  | (k', v') :: fs =>
    if k < k' then (k, v) :: (k', v') :: fs
    else if k = k' then (k, v) :: fs
    else (k', v') :: insertField k v fs

/-- `value[key] = v` on an object; a value of another kind is left alone (the code never indexes one). -/
def set (j : Json) (k : String) (v : Json) : Json :=
  match j with
  | .obj fs => .obj (insertField k v fs)
  | j => j

/-- The `json!` macro on an object literal. -/
def object (fs : List (String × Json)) : Json :=
  .obj (fs.foldl (fun acc f => insertField f.1 f.2 acc) [])

/-- `Value::get` with a string key. -/
def get? (j : Json) (k : String) : Option Json :=
  match j with
  | .obj fs => (fs.find? (·.1 = k)).map (·.2)
  | _ => none

theorem get?_cons (f : String × Json) (fs : List (String × Json)) (k : String) :
    (obj (f :: fs)).get? k = if f.1 = k then some f.2 else (obj fs).get? k := by
  rw [get?]
  by_cases h : f.1 = k
  · simp [h]
  · simp [h, get?]

theorem mem_of_get? {fs : List (String × Json)} {k : String} {v : Json} (h : (obj fs).get? k = some v) :
    (k, v) ∈ fs := by
  obtain ⟨f, hf, rfl⟩ := Option.map_eq_some_iff.mp h
  obtain rfl : f.1 = k := by simpa using find?_some hf
  exact mem_of_find?_eq_some hf

theorem get?_insertField (k j : String) (v : Json) : ∀ fs : List (String × Json),
    (obj (insertField k v fs)).get? j = if k = j then some v else (obj fs).get? j
  | [] => get?_cons (k, v) [] j
  | (k', v') :: fs => by
    rw [insertField]
    split
    · exact get?_cons (k, v) _ j
    split
    · rename_i heq
      rw [get?_cons, get?_cons]
      by_cases hj : k = j
      · simp [hj]
      · simp [hj, ← heq]
    · rename_i hne
      rw [get?_cons, get?_cons, get?_insertField k j v fs]
      by_cases hj : k = j
      · rw [if_pos hj, if_neg fun h => hne (hj.trans h.symm), if_pos hj]
      · simp [hj]

theorem get?_foldl (k : String) : ∀ fs acc : List (String × Json),
    (obj (fs.foldl (fun acc f => insertField f.1 f.2 acc) acc)).get? k =
      ((object fs).get? k).or ((obj acc).get? k) := by
  intro fs
  induction fs using reverseRecOn with
  | nil => intro acc; rfl
  | append_singleton fs f ih =>
    intro acc
    rw [object, foldl_append, foldl_append]
    simp only [foldl_cons, foldl_nil, get?_insertField, ih]
    split
    · rfl
    · simp [get?]

theorem get?_object_append (fs gs : List (String × Json)) (k : String) :
    (object (fs ++ gs)).get? k = ((object gs).get? k).or ((object fs).get? k) := by
  rw [object, foldl_append, get?_foldl, object, object]

theorem get?_object_cons (f : String × Json) (fs : List (String × Json)) (k : String) :
    (object (f :: fs)).get? k = ((object fs).get? k).or (if f.1 = k then some f.2 else none) := by
  rw [object, foldl_cons, get?_foldl]
  exact congrArg _ (get?_insertField f.1 k f.2 [])

/-- The keys of an object in order, as `serde_json` keeps and writes them. -/
def Ordered : Json → Prop
  | .obj fs => (fs.map (·.1)).Pairwise (· < ·)
  | _ => True

theorem get?_of_ordered {before after : List (String × Json)} {key : String} {v : Json}
    (h : (obj (before ++ (key, v) :: after)).Ordered) : (obj (before ++ (key, v) :: after)).get? key = some v := by
  have hbefore : before.find? (·.1 = key) = none := by
    rw [find?_eq_none]
    intro f hf hkey
    rw [Ordered, map_append, pairwise_append] at h
    have hlt := h.2.2 f.1 (mem_map_of_mem hf) key mem_cons_self
    exact absurd (of_decide_eq_true hkey) (ne_of_lt hlt)
  rw [get?, find?_append, hbefore]
  simp

/-- `Value::as_str`. -/
def asStr? : Json → Option String
  | .str s => some s
  | _ => none

/-- `Value::as_bool`. -/
def asBool? : Json → Option Bool
  | .bool b => some b
  | _ => none

/-- A string or `null`, as `json!` writes an `Option<String>`. -/
def ofOption : Option String → Json
  | some s => .str s
  | none => .null

/-- Four hexadecimal digits, lower case. -/
def hex4 (n : ℕ) : List Char :=
  [Nat.digitChar (n / 4096 % 16), Nat.digitChar (n / 256 % 16), Nat.digitChar (n / 16 % 16), Nat.digitChar (n % 16)]

/-- One character of a string literal. -/
def escapeChar (c : Char) : List Char :=
  if c = '"' then ['\\', '"']
  else if c = '\\' then ['\\', '\\']
  else if c = '\n' then ['\\', 'n']
  else if c = '\r' then ['\\', 'r']
  else if c = '\t' then ['\\', 't']
  else if c.toNat = 8 then ['\\', 'b']
  else if c.toNat = 12 then ['\\', 'f']
  else if c.toNat < 32 then '\\' :: 'u' :: hex4 c.toNat
  else [c]

/-- A string literal with its quotes. -/
def quote (s : String) : List Char := '"' :: s.toList.flatMap escapeChar ++ ['"']

mutual

/-- The compact form of a value. -/
def chars : Json → List Char
  | .null => "null".toList
  | .bool true => "true".toList
  | .bool false => "false".toList
  | .int n => (toString n).toList
  | .float text => text.toList
  | .str s => quote s
  | .arr items => '[' :: itemsChars true items ++ [']']
  | .obj fields => '\x7b' :: fieldsChars true fields ++ ['\x7d']

/-- The items of an array, with a comma before all but the first. -/
def itemsChars : Bool → List Json → List Char
  | _, [] => []
  | first, j :: js => (if first then [] else [',']) ++ chars j ++ itemsChars false js

def fieldsChars : Bool → List (String × Json) → List Char
  | _, [] => []
  | first, (k, v) :: fs =>
    (if first then [] else [',']) ++ quote k ++ ':' :: chars v ++ fieldsChars false fs

end

/-- `serde_json::to_string`. -/
def render (j : Json) : String := String.ofList j.chars

end Json

end Honey.Master
