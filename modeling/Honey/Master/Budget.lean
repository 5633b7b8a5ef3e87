import Honey.Master.Db
import Honey.Schemes.Run

/-! The request budget of the public subscription links (`SubscriptionLimiter` in `ratelimit.rs`).

        check -- prune all keys -- entry of the key --+- blocked still --> block
                                                      +- window over --> a new window
                                                      +- one more request -- over the limit? --> block

    Every check prunes every key by its own reading of the clock. A pruned entry would have been
    replaced at the next check of its key anyway, so pruning does not show. Times are nanoseconds, and
    the totals of the statistics are left out. -/

namespace Honey.Master
open Honey.Schemes Function List

structure SubscriptionLimitConfig where
  enabled : Bool
  (maxRequests window block : ℕ)

inductive LimitDecision where
  | allow
  | block (retryAfter : ℕ)
  deriving DecidableEq, Repr

structure SubscriptionEntry where
  (requests windowStart : ℕ)
  blockedUntil : Option ℕ
  deriving DecidableEq, Repr

abbrev SubscriptionLimiter := String → Option SubscriptionEntry

/-- The test of `retain`. -/
def SubscriptionEntry.live (window now : ℕ) (e : SubscriptionEntry) : Bool :=
  e.blockedUntil.any (now < ·) || now - e.windowStart ≤ window

/-- The block that is in force. -/
def SubscriptionEntry.blocked (now : ℕ) (e : SubscriptionEntry) : Option ℕ := e.blockedUntil.filter (now < ·)

/-- `SubscriptionLimiter::block`. -/
def refuse (till now : ℕ) : LimitDecision := .block ((till - now) / 10 ^ 9 + 1)

namespace SubscriptionLimitConfig

variable (c : SubscriptionLimitConfig)

/-- One more request in the window, or the first in a new one; the counter saturates. -/
def counted (now : ℕ) (e : SubscriptionEntry) : SubscriptionEntry :=
  let e := if c.window < now - e.windowStart then ⟨0, now, none⟩ else e
  { e with requests := min (e.requests + 1) (2 ^ 32 - 1) }

/-- The request on the entry of its key. -/
def admitTo (now : ℕ) (e : SubscriptionEntry) : SubscriptionEntry × LimitDecision :=
  match e.blocked now with
  | some till => (e, refuse till now)
  | none =>
    if c.maxRequests < (c.counted now e).requests then
      ({ c.counted now e with blockedUntil := some (now + c.block) }, refuse (now + c.block) now)
    else (c.counted now e, .allow)

/-- What is left of an entry, or a new one. -/
def entryAt (now : ℕ) (o : Option SubscriptionEntry) : SubscriptionEntry :=
  (o.filter (·.live c.window now)).getD ⟨0, now, none⟩

def check (m : SubscriptionLimiter) (key : String) (now : ℕ) : SubscriptionLimiter × LimitDecision :=
  if c.enabled then
    (update (fun k => (m k).filter (·.live c.window now)) key (some (c.admitTo now (c.entryAt now (m key))).1),
      (c.admitTo now (c.entryAt now (m key))).2)
  else (m, .allow)

/-- The calls, in the order in which they take the lock, with their decisions. -/
def decisions : SubscriptionLimiter → List (String × ℕ) → List (String × ℕ × LimitDecision)
  | _, [] => []
  | m, (key, now) :: calls => (key, now, (c.check m key now).2) :: decisions (c.check m key now).1 calls

/-! ### Other keys -/

variable {c} {k key : String} {now t : ℕ} {m m' : SubscriptionLimiter} {e : SubscriptionEntry}

/-- Two entries that no check from now on can tell apart. -/
def Alike (c : SubscriptionLimitConfig) (now : ℕ) (o o' : Option SubscriptionEntry) : Prop :=
  ∀ t, now ≤ t → o.filter (·.live c.window t) = o'.filter (·.live c.window t)

theorem live_of_later (h : now ≤ t) (ht : e.live c.window t) : e.live c.window now := by
  simp only [SubscriptionEntry.live, Bool.or_eq_true, Option.any_eq_true, decide_eq_true_eq] at ht ⊢
  rcases ht with ⟨till, htill, ht⟩ | ht
  · exact .inl ⟨till, htill, by omega⟩
  · exact .inr (by omega)

theorem alike_prune {o o' : Option SubscriptionEntry} (h : Alike c now o o') (hle : now ≤ t) :
    Alike c t (o.filter (·.live c.window t)) o' := by
  intro t' ht'
  rw [← h t' (hle.trans ht'), Option.filter_filter]
  congr 1
  funext e
  exact Bool.and_eq_right_iff_imp.mpr (live_of_later ht')

theorem decisions_of_key : ∀ (calls : List (String × ℕ)) (now : ℕ) (m m' : SubscriptionLimiter),
    calls.Pairwise (·.2 ≤ ·.2) → (∀ call ∈ calls, now ≤ call.2) → Alike c now (m k) (m' k) →
    (c.decisions m calls).filter (·.1 = k) = c.decisions m' (calls.filter (·.1 = k))
  | [], _, _, _, _, _, _ => rfl
  | (key, t) :: calls, now, m, m', hsorted, hlater, halike => by
    rw [pairwise_cons] at hsorted
    have hle : now ≤ t := hlater _ mem_cons_self
    by_cases hkey : k = key
    · subst hkey
      have hentry : c.entryAt t (m k) = c.entryAt t (m' k) := congrArg (Option.getD · _) (halike t hle)
      have hdecision : (c.check m k t).2 = (c.check m' k t).2 := by
        simp only [check, hentry]
        split <;> rfl
      have hnext : Alike c t ((c.check m k t).1 k) ((c.check m' k t).1 k) := by
        simp only [check, hentry]
        split
        · simp only [update_self]
          exact fun _ _ => rfl
        · exact fun t' ht' => halike t' (hle.trans ht')
      rw [filter_cons_of_pos (by simp), decisions, decisions, filter_cons_of_pos (by simp), hdecision,
        decisions_of_key calls t _ _ hsorted.2 hsorted.1 hnext]
    · have hnext : Alike c t ((c.check m key t).1 k) (m' k) := by
        rw [check]
        split
        · simp only [update_of_ne hkey]
          exact alike_prune halike hle
        · exact fun t' ht' => halike t' (hle.trans ht')
      rw [filter_cons_of_neg (by simpa using Ne.symm hkey), decisions,
        filter_cons_of_neg (by simpa using Ne.symm hkey), decisions_of_key calls t _ _ hsorted.2 hsorted.1 hnext]

/-- The decisions for a key are those of its own calls. -/
theorem other_keys_do_not_count (c : SubscriptionLimitConfig) (k : String) (calls calls' : List (String × ℕ))
    (h : calls.Pairwise (·.2 ≤ ·.2)) (h' : calls'.Pairwise (·.2 ≤ ·.2))
    (hsame : calls.filter (·.1 = k) = calls'.filter (·.1 = k)) :
    (c.decisions (fun _ => none) calls).filter (·.1 = k) = (c.decisions (fun _ => none) calls').filter (·.1 = k) := by
  have halike : Alike c 0 none none := fun _ _ => rfl
  rw [decisions_of_key calls 0 _ (fun _ => none) h (fun _ _ => Nat.zero_le _) halike,
    decisions_of_key calls' 0 _ (fun _ => none) h' (fun _ _ => Nat.zero_le _) halike, hsame]

def smallBudget : SubscriptionLimitConfig := ⟨true, 1, 60, 300⟩

theorem neighbour_does_not_count :
    (smallBudget.decisions (fun _ => none) [("a", 0), ("b", 70), ("a", 80)]).filter (·.1 = "a") =
      (smallBudget.decisions (fun _ => none) [("a", 0), ("a", 80)]).filter (·.1 = "a") :=
  other_keys_do_not_count smallBudget "a" _ _ (by decide) (by decide) rfl

/-! ### Blocks -/

variable {till r : ℕ}

theorem check_of_blocked (key : String) (hon : c.enabled) (hentry : m k = some e) (htill : e.blockedUntil = some till)
    (hnow : now < till) : (c.check m key now).1 k = some e ∧ (c.check m k now).2 = refuse till now := by
  have hlive : e.live c.window now := by simp [SubscriptionEntry.live, htill, hnow]
  have hadmit : c.admitTo now (c.entryAt now (m k)) = (e, refuse till now) := by
    simp [admitTo, entryAt, hentry, Option.filter_some, hlive, SubscriptionEntry.blocked, htill, hnow]
  refine ⟨?_, by simp [check, hon, hadmit]⟩
  by_cases hkey : k = key
  · subst hkey
    simp [check, hon, hadmit]
  · simp [check, hon, hkey, hentry, hlive]

theorem refused_while (hon : c.enabled) (htill : e.blockedUntil = some till) :
    ∀ {calls : List (String × ℕ)} {m : SubscriptionLimiter}, m k = some e → (∀ call ∈ calls, call.2 < till) →
    (k, t, .allow) ∉ c.decisions m calls
  | [], _, _, _ => not_mem_nil
  | (key, now) :: calls, m, hentry, hsoon => by
    rw [forall_mem_cons] at hsoon
    obtain ⟨hnext, hrefused⟩ := check_of_blocked key hon hentry htill hsoon.1
    rw [decisions, mem_cons, not_or]
    refine ⟨fun heq => ?_, refused_while hon htill hnext hsoon.2⟩
    obtain ⟨rfl, rfl, hallow⟩ : k = key ∧ t = now ∧ _ := by simpa using heq
    cases hallow.trans hrefused

theorem le_of_refuse (hle : now ≤ till) (h : refuse till now = .block r) : now + (r - 1) * 10 ^ 9 ≤ till := by
  cases h
  have := Nat.div_mul_le_self (till - now) (10 ^ 9)
  omega

theorem block_of_admitTo (h : (c.admitTo now e).2 = .block r) :
    ∃ till, (c.admitTo now e).1.blockedUntil = some till ∧ now + (r - 1) * 10 ^ 9 ≤ till := by
  rw [admitTo] at h ⊢
  cases hblocked : e.blocked now with
  | some till =>
    rw [hblocked] at h
    obtain ⟨htill, hlt⟩ := Option.filter_eq_some_iff.mp hblocked
    exact ⟨till, htill, le_of_refuse (of_decide_eq_true hlt).le h⟩
  | none =>
    simp only [hblocked] at h ⊢
    split at h
    · exact ⟨_, by rw [if_pos ‹_›], le_of_refuse (Nat.le_add_right ..) h⟩
    · cases h

/-- A key that is refused is not let in before the last of the announced seconds, whatever other keys do. -/
theorem refused_for (h : (c.check m k now).2 = .block r) (calls : List (String × ℕ))
    (hsoon : ∀ call ∈ calls, call.2 < now + (r - 1) * 10 ^ 9) (t : ℕ) :
    (k, t, .allow) ∉ c.decisions (c.check m k now).1 calls := by
  rw [check] at h ⊢
  split at h
  · rename_i hon
    obtain ⟨till, htill, hle⟩ := block_of_admitTo h
    rw [if_pos hon]
    exact refused_while hon htill (by simp) fun call hc => (hsoon call hc).trans_le hle
  · cases h

theorem refused_five_seconds : ("a", 4 * 10 ^ 9, .allow) ∉ decisions ⟨true, 0, 60, 5 * 10 ^ 9⟩
    (check ⟨true, 0, 60, 5 * 10 ^ 9⟩ (fun _ => none) "a" 0).1 [("b", 1), ("a", 4 * 10 ^ 9)] :=
  refused_for (r := 6) (by decide) _ (by decide) _

end SubscriptionLimitConfig

end Honey.Master
