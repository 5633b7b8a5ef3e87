import Honey.Agent.Traffic
import Honey.Schemes.Split

/-! The xray side of the Stats stream (`xray/stats.go`): xray's own counters, forwarded as they are.

    A counter is named `user>>>email>>>traffic>>>direction`. `parseUserStat` takes the name apart, and what it accepts
    can be put together again (`counterName_of_parse`), so no two counters feed the same user and direction. -/

namespace Honey.Agent
open Honey.Schemes List UInt64 GoMap String

/-- `statscmd.Stat`. -/
structure XrayStat where
  name : String
  value : ℤ
  deriving DecidableEq, Repr

def sep3 : List Char := ['>', '>', '>']

/-- `parseUserStat`: the email and the direction. -/
def parseUserStat (name : String) : Option (String × String) :=
  match split sep3 name.toList with
  | [kind, email, what, direction] =>
    if kind = "user".toList ∧ what = "traffic".toList then
      some (String.ofList email, String.ofList direction)
    else none
  | _ => none

/-- The name xray gives the counter of a user and a direction. -/
def counterName (email direction : String) : String :=
  "user>>>" ++ email ++ ">>>traffic>>>" ++ direction

/-- `uint64(v)` of a value that is not negative. -/
def toUint64 (v : ℤ) : UInt64 := ofNat v.toNat

/-- One entry of the reply: negative values and names of another shape are skipped. -/
def collect (m : GoMap String UInt64 × GoMap String UInt64) (st : XrayStat) :
    GoMap String UInt64 × GoMap String UInt64 :=
  match parseUserStat st.name with
  | none => m
  | some (email, direction) =>
    if st.value < 0 then m
    else if direction = "uplink" then
      (m.1.set email (m.1.get email + toUint64 st.value), m.2)
    else if direction = "downlink" then
      (m.1, m.2.set email (m.2.get email + toUint64 st.value))
    else m

def ratePerSec (cur prev : UInt64) (secs : Float) : UInt64 :=
  if cur < prev ∨ secs ≤ 0 then 0 else ((cur - prev).toFloat / secs).toUInt64

/-- One tick of `statsLoop`: the sample of a reply. `prev` is the last tick's node counters, `none` on the first one. -/
def xrayStat (ω : MapOrder String) (prev : Option (UInt64 × UInt64)) (secs : Float)
    (reply : List XrayStat) : Stat (List UserTraffic) :=
  let (up, down) := reply.foldl collect (empty, empty)
  let merged := up.keys ++ down.keys.filter (· ∉ up.keys)
  let users := (ω.visit merged).map fun e => UserTraffic.mk e (up.get e) (down.get e)
  let nodeUp := (users.map (·.up)).foldl (· + ·) 0
  let nodeDown := (users.map (·.down)).foldl (· + ·) 0
  { nodeUp := nodeUp
    nodeDown := nodeDown
    upSpeed := match prev with
      | some p => ratePerSec nodeUp p.1 secs
      | none => 0
    downSpeed := match prev with
      | some p => ratePerSec nodeDown p.2 secs
      | none => 0
    connections := 0
    users := users }

/-- The counters of the xray process by name. -/
abbrev XrayCounters := GoMap String ℕ

variable (m : XrayCounters)

/-- Traffic moves a counter of the process; it is an `int64` that only grows. -/
def XrayCounters.count (name : String) (value : ℕ) : XrayCounters :=
  if m.get name ≤ value ∧ value < 2 ^ 63 then m.set name value else m

theorem le_count (name : String) (value : ℕ) (k : String) : m.get k ≤ (m.count name value).get k := by
  rw [XrayCounters.count]
  split
  · rename_i hv
    rw [get_set]
    split
    · rename_i hk
      exact hk ▸ hv.1
    · exact le_refl _
  · exact le_refl _

theorem count_lt {m : XrayCounters} (hm : ∀ k, m.get k < 2 ^ 63) (name : String) (value : ℕ)
    (k : String) : (m.count name value).get k < 2 ^ 63 := by
  rw [XrayCounters.count]
  split
  · rename_i hv
    rw [get_set]
    split
    · exact hv.2
    · exact hm k
  · exact hm k

/-- xray's answer to `QueryStats` with the pattern `user>>>`, in an order of its own. -/
def queryStats (ω : MapOrder String) (m : XrayCounters) : List XrayStat :=
  ((ω.visit m.keys).filter fun n => "user>>>".toList <:+: n.toList).map fun n => ⟨n, m.get n⟩

/-! ### What a sample shows of the counters -/

theorem counterName_of_parse {name email direction : String}
    (h : parseUserStat name = some (email, direction)) : name = counterName email direction := by
  have hsep : sep3 ≠ [] := by decide
  have hjoin := intercalate_split hsep name.toList
  revert h
  rw [parseUserStat]
  split
  · rename_i kind email' what direction' hparts
    split
    · rename_i hshape
      intro h
      obtain ⟨rfl, rfl⟩ := h
      rw [hparts, hshape.1, hshape.2] at hjoin
      rw [← toList_inj, ← hjoin, counterName]
      simp [sep3]
    · intro h
      cases h
  · intro h
    cases h

/-- What a sample shows for a user in one direction. -/
def shown (email direction : String) : UInt64 :=
  if parseUserStat (counterName email direction) = some (email, direction) then
    toUint64 (m.get (counterName email direction))
  else 0

/-- The two directions of a counter. -/
inductive Direction where | uplink | downlink
  deriving DecidableEq, Repr

/-- The direction as xray spells it. -/
def Direction.text : Direction → String
  | .uplink => "uplink"
  | .downlink => "downlink"

/-- The map that collects a direction. -/
def Direction.side (d : Direction) (m : GoMap String UInt64 × GoMap String UInt64) : GoMap String UInt64 :=
  match d with
  | .uplink => m.1
  | .downlink => m.2

attribute [local simp] Direction.side Direction.text in
theorem collect_get (d : Direction) (acc : GoMap String UInt64 × GoMap String UInt64) (name email : String) (v : ℕ) :
    (d.side (collect acc ⟨name, v⟩)).get email =
      if parseUserStat name = some (email, d.text) then (d.side acc).get email + toUint64 v
      else (d.side acc).get email := by
  have hv : ¬ ((v : ℤ) < 0) := by omega
  rw [collect]
  rcases hp : parseUserStat name with _ | ⟨e, dir⟩
  · simp
  simp only [if_neg hv, Option.some.injEq, Prod.mk.injEq]
  by_cases hup : dir = "uplink"
  · subst hup
    cases d with
    | uplink =>
      by_cases he : e = email
      · simp [he]
      · simp [he, get_set_of_ne _ (Ne.symm he)]
    | downlink => simp
  · by_cases hdown : dir = "downlink"
    · subst hdown
      cases d with
      | uplink => simp
      | downlink =>
        by_cases he : e = email
        · simp [he]
        · simp [he, get_set_of_ne _ (Ne.symm he)]
    · cases d <;> simp [hup, hdown]

theorem shown_parse {name email : String} {d : Direction}
    (h : parseUserStat name = some (email, d.text)) : shown m email d.text = toUint64 (m.get name) := by
  have hname := counterName_of_parse h
  rw [shown, ← hname, if_pos h]

theorem foldl_collect (d : Direction) (m : XrayCounters) (email : String) : ∀ (ks : List String)
    (acc : GoMap String UInt64 × GoMap String UInt64), ks.Nodup →
    (d.side ((ks.map fun n => XrayStat.mk n (m.get n)).foldl collect acc)).get email = (d.side acc).get email +
        if ∃ n ∈ ks, parseUserStat n = some (email, d.text) then shown m email d.text else 0
  | [], acc, _ => by simp
  | n :: ks, acc, hnd => by
    rw [nodup_cons] at hnd
    rw [map_cons, foldl_cons, foldl_collect d m email ks _ hnd.2, collect_get]
    by_cases hn : parseUserStat n = some (email, d.text)
    · -- no later name parses to the same user and direction
      have hnone : ¬ ∃ k ∈ ks, parseUserStat k = some (email, d.text) := by
        rintro ⟨k, hk, hpk⟩
        rw [counterName_of_parse hn, ← counterName_of_parse hpk] at hnd
        exact hnd.1 hk
      have hsome : ∃ k ∈ n :: ks, parseUserStat k = some (email, d.text) := ⟨n, mem_cons_self, hn⟩
      rw [if_pos hn, if_neg hnone, if_pos hsome, shown_parse m hn, add_zero]
    · simp [hn]

theorem query_get (d : Direction) (ω : MapOrder String) (m : XrayCounters) (email : String) :
    (d.side ((queryStats ω m).foldl collect (empty, empty))).get email = shown m email d.text := by
  have hnd : ((ω.visit m.keys).filter fun n => "user>>>".toList <:+: n.toList).Nodup := (m.range_nodup ω).filter _
  have hzero : (d.side ((empty : GoMap String UInt64), empty)).get email = 0 := by
    cases d <;> rfl
  rw [queryStats, foldl_collect d m email _ _ hnd, hzero, zero_add]
  split
  · rfl
  rename_i hnone
  rw [shown]
  split
  · rename_i hp
    -- the counter is not in the reply, so xray does not have it
    have hkeys : counterName email d.text ∉ m.keys := by
      intro hk
      refine hnone ⟨_, mem_filter.mpr ⟨ω.mem_visit.mpr hk, ?_⟩, hp⟩
      rw [decide_eq_true_iff, counterName, toList_append, toList_append, toList_append]
      exact (prefix_append _ _).isInfix
    rw [m.get_absent _ hkeys]
    rfl
  · rfl

/-- An xray sample shows each user's two counters as xray has them. -/
theorem xrayStat_users (ω ω' : MapOrder String) (prev : Option (UInt64 × UInt64)) (secs : Float)
    (m : XrayCounters) {u : UserTraffic} (hu : u ∈ (xrayStat ω' prev secs (queryStats ω m)).users) :
    u.up = shown m u.name "uplink" ∧ u.down = shown m u.name "downlink" := by
  simp only [xrayStat, mem_map] at hu
  obtain ⟨e, _, rfl⟩ := hu
  exact ⟨query_get .uplink ω m e, query_get .downlink ω m e⟩

theorem toUint64_toNat {v : ℕ} (hv : v < 2 ^ 63) : (toUint64 v).toNat = v := by
  rw [toUint64, Int.toNat_natCast, toNat_ofNat_of_lt']
  simp only [size]
  omega

theorem shown_mono {m m' : XrayCounters} {email dir : String}
    (hle : ∀ n, m.get n ≤ m'.get n) (hlt : ∀ n, m'.get n < 2 ^ 63) : shown m email dir ≤ shown m' email dir := by
  rw [shown, shown]
  split
  · have h := hle (counterName email dir)
    have h' := hlt (counterName email dir)
    rw [le_iff_toNat_le, toUint64_toNat (lt_of_le_of_lt h h'), toUint64_toNat h']
    exact h
  · exact le_refl 0

end Honey.Agent
