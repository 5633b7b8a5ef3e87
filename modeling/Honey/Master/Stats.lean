import Honey.Master.Public
import Honey.Master.Push

/-! The stream of samples of a node (`subscribe` in `stats.rs`).

        sample --> for each user: get_user_by_name - i64::try_from - record_traffic --> quota_crossed |= …
                                         | error                                            | all done
                                         v                                                  v
                                   the stream ends                                 auto_push, if crossed

    The database says once that a user crosses its limit. The flag that remembers it until the end of the sample
    is lost with the stream, if a later user of the sample fails. -/

namespace Honey.Master
open Honey.Schemes

/-! ### The handler -/

/-- The calls that the database may fail. -/
inductive StatCall where | lookup | record
  deriving DecidableEq

/-- A user of a sample, with what happens around its turn: what others commit before the lookup and before the
    transaction, and the call that fails, if one does. -/
structure UserStat where
  name : String
  (upBytes downBytes : ℕ)
  hour : ℤ
  (before between : Db → Db)
  fault : Option StatCall

/-- A sample, with the settings and the push as they are at its end. -/
structure StatsSample where
  epoch : String
  users : List UserStat
  settings : List (String × String)
  push : Db → Except String Db

/-- What was done about a sample: the users for whom `record_traffic` has returned true, whether a push was
    attempted, and the database, or the error with which the stream ends. -/
structure SampleRun where
  crossed : List Uuid
  pushed : Bool
  after : Except String Db

variable (env : Env)

def Env.getUserByName (db : Db) (name : String) : Except String (Option User) :=
  match db.users.rows.find? (·.username = name) with
  | none => .ok none
  | some u => (env.decryptUser u).map some

section

variable (env : Env) (node : Uuid) (core : Core) (epoch : String)

/-- The call of `record_traffic` for a user. -/
def UserStat.sample (e : UserStat) (user : Uuid) : Sample :=
  ⟨node, user, core, epoch, e.upBytes, e.downBytes, e.hour⟩

/-- The counters of a user that was found: the user, if it crosses its limit. -/
def recordFound (db : Db) (e : UserStat) (u : User) : Except String (Db × Option Uuid) :=
  if 2 ^ 63 ≤ e.upBytes then .error "user upload counter overflow"
  else if 2 ^ 63 ≤ e.downBytes then .error "user download counter overflow"
  else if e.fault = some .record then .error "database error"
  else match recordTraffic (e.between db) (e.sample node core epoch u.id) with
    | .error _ => .error "database error"
    | .ok (db, crossed) => .ok (db, if crossed then some u.id else none)

/-- The body of the loop over the users. -/
def recordStat (db : Db) (e : UserStat) : Except String (Db × Option Uuid) :=
  if e.fault = some .lookup then .error "database error"
  else match env.getUserByName (e.before db) e.name with
    | .error m => .error m
    | .ok none => .ok (e.before db, none)
    | .ok (some u) => recordFound node core epoch (e.before db) e u

/-- The loop over the users of a sample. -/
def recordStats : Db → List UserStat → List Uuid × Except String Db
  | db, [] => ([], .ok db)
  | db, e :: es => match recordStat env node core epoch db e with
    | .error m => ([], .error m)
    | .ok (db, crossed) => (crossed.toList ++ (recordStats db es).1, (recordStats db es).2)

end

section

variable (env : Env) (node : Uuid) (core : Core)

def StatsSample.effectiveEpoch (x : StatsSample) : String := if x.epoch = "" then "legacy" else x.epoch

/-- `auto_push`, as far as it decides whether to push. -/
def autoPush (settings : List (String × String)) : Bool := settingInt settings "auto_push_enabled" 1 ≠ 0

/-- The body of the loop of `subscribe`. -/
def handleSample (db : Db) (x : StatsSample) : SampleRun :=
  match recordStats env node core x.effectiveEpoch db x.users with
  | (crossed, .error m) => ⟨crossed, false, .error m⟩
  | (crossed, .ok db) =>
    if crossed = [] then ⟨crossed, false, .ok db⟩
    else if autoPush x.settings then ⟨crossed, true, x.push db⟩
    else ⟨crossed, false, .ok db⟩

/-- `subscribe`: an error ends the stream. -/
def subscribe (s : Option Db) (x : StatsSample) : Option Db :=
  s.bind fun db => (handleSample env node core db x).after.toOption

end

/-! ### What happens to a user of a sample -/

section

variable (env : Env) (node : Uuid) (core : Core) (epoch : String)

variable (db : Db) (e : UserStat)

/-- The row that a name leads to. -/
def UserStat.row : Option User := (e.before db).users.rows.find? (·.username = e.name)

/-- The turn ends with an error: the lookup fails or its row does not open, a counter does not fit, or the
    transaction fails. -/
def UserStat.Fails : Prop :=
  e.fault = some .lookup ∨ ∃ u, e.row db = some u ∧
    ((∃ m, env.decryptUser u = .error m) ∨ 2 ^ 63 ≤ e.upBytes ∨ 2 ^ 63 ≤ e.downBytes ∨ e.fault = some .record ∨
      ∃ m, recordTraffic (e.between (e.before db)) (e.sample node core epoch u.id) = .error m)

/-- The transaction takes the user over its limit. -/
def UserStat.Crosses : Prop :=
  ∃ u v, e.row db = some u ∧ (e.between (e.before db)).users.find? u.id = some v ∧ 0 < v.trafficLimitBytes ∧
    v.usedTrafficBytes < v.trafficLimitBytes ∧
    v.trafficLimitBytes ≤ charged (e.between (e.before db)).traffic u.id +
      added (e.sample node core epoch u.id) ((e.between (e.before db)).traffic.find? (node, u.id, core))

/-- The database after a turn without an error. -/
def UserStat.after : Db :=
  match recordStat env node core epoch db e with
  | .ok (db, _) => db
  | .error _ => db

/-- No turn fails. -/
def NoneFails : Db → List UserStat → Prop
  | _, [] => True
  | db, e :: es => ¬ e.Fails env node core epoch db ∧ NoneFails (e.after env node core epoch db) es

/-- Somebody crosses its limit before any turn fails. -/
def SomeCrosses : Db → List UserStat → Prop
  | _, [] => False
  | db, e :: es => ¬ e.Fails env node core epoch db ∧
      (e.Crosses node core epoch db ∨ SomeCrosses (e.after env node core epoch db) es)

end

section

variable {env : Env} {node : Uuid} {core : Core} {epoch : String} {db : Db}

theorem crossed_iff {db' : Db} {s : Sample} {crossed : Bool} (h : recordTraffic db s = .ok (db', crossed)) :
    crossed = true ↔ ∃ v, db.users.find? s.user = some v ∧ 0 < v.trafficLimitBytes ∧
      v.usedTrafficBytes < v.trafficLimitBytes ∧
      v.trafficLimitBytes ≤ charged db.traffic s.user + added s (db.traffic.find? s.key) := by
  obtain ⟨u, -, hu, -, rfl⟩ := recordTraffic_ok h
  rw [decide_eq_true_eq, charged_put, if_pos rfl]
  constructor
  · exact fun hlimit => ⟨u, hu, hlimit⟩
  · rintro ⟨v, hv, hlimit⟩
    rwa [Option.some.inj (hu.symm.trans hv)]

theorem recordFound_cases {e : UserStat} {u x : User} (hrow : e.row db = some u) (hx : env.decryptUser u = .ok x)
    (hlookup : e.fault ≠ some .lookup) :
    (e.Fails env node core epoch db ∧ ∃ m, recordFound node core epoch (e.before db) e x = .error m) ∨
      ¬ e.Fails env node core epoch db ∧ ∃ db' crossed,
        recordFound node core epoch (e.before db) e x = .ok (db', crossed) ∧
          (crossed ≠ none ↔ e.Crosses node core epoch db) := by
  have hid : x.id = u.id := by
    obtain ⟨_, -, hx⟩ := bind_eq_ok.mp hx
    obtain ⟨_, -, hx⟩ := bind_eq_ok.mp hx
    rw [← Except.ok.inj hx]
  rw [recordFound, hid]
  by_cases hup : 2 ^ 63 ≤ e.upBytes
  · rw [if_pos hup]
    exact .inl ⟨.inr ⟨u, hrow, .inr (.inl hup)⟩, _, rfl⟩
  by_cases hdown : 2 ^ 63 ≤ e.downBytes
  · rw [if_neg hup, if_pos hdown]
    exact .inl ⟨.inr ⟨u, hrow, .inr (.inr (.inl hdown))⟩, _, rfl⟩
  by_cases hfault : e.fault = some .record
  · rw [if_neg hup, if_neg hdown, if_pos hfault]
    exact .inl ⟨.inr ⟨u, hrow, .inr (.inr (.inr (.inl hfault)))⟩, _, rfl⟩
  rw [if_neg hup, if_neg hdown, if_neg hfault]
  rcases hrecord : recordTraffic (e.between (e.before db)) (e.sample node core epoch u.id) with m | answer
  · exact .inl ⟨.inr ⟨u, hrow, .inr (.inr (.inr (.inr ⟨m, hrecord⟩)))⟩, _, rfl⟩
  obtain ⟨db', crossed⟩ := answer
  refine .inr ⟨?_, db', _, rfl, ?_⟩
  · rintro (h | ⟨v, hv, h⟩)
    · exact hlookup h
    · obtain rfl := Option.some.inj (hrow.symm.trans hv)
      rcases h with ⟨m, hm⟩ | h | h | h | ⟨m, hm⟩
      · cases hx.symm.trans hm
      · exact hup h
      · exact hdown h
      · exact hfault h
      · cases hrecord.symm.trans hm
  · have hiff : (if crossed then some u.id else none) ≠ none ↔ crossed = true := by
      cases crossed <;> simp
    rw [hiff, crossed_iff hrecord]
    constructor
    · exact fun ⟨v, hv, hlimit⟩ => ⟨u, v, hrow, hv, hlimit⟩
    · rintro ⟨u', v, hu', hv, hlimit⟩
      obtain rfl := Option.some.inj (hrow.symm.trans hu')
      exact ⟨v, hv, hlimit⟩

variable (env node core epoch)

/-- Every turn: it fails, or it says whether the user crosses its limit. -/
theorem recordStat_cases (db : Db) (e : UserStat) :
    (e.Fails env node core epoch db ∧ ∃ m, recordStat env node core epoch db e = .error m) ∨
      ¬ e.Fails env node core epoch db ∧ ∃ db' crossed, recordStat env node core epoch db e = .ok (db', crossed) ∧
        (crossed ≠ none ↔ e.Crosses node core epoch db) := by
  rw [recordStat]
  by_cases hlookup : e.fault = some .lookup
  · rw [if_pos hlookup]
    exact .inl ⟨.inl hlookup, _, rfl⟩
  rw [if_neg hlookup]
  cases hrow : e.row db with
  | none =>
    have hfound : env.getUserByName (e.before db) e.name = .ok none := by
      rw [UserStat.row] at hrow
      rw [Env.getUserByName, hrow]
    rw [hfound]
    refine .inr ⟨?_, e.before db, none, rfl, by simp [UserStat.Crosses, hrow]⟩
    rintro (h | ⟨u, hu, -⟩)
    · exact hlookup h
    · cases hrow.symm.trans hu
  | some u =>
    have hfound : env.getUserByName (e.before db) e.name = (env.decryptUser u).map some := by
      rw [UserStat.row] at hrow
      rw [Env.getUserByName, hrow]
    rw [hfound]
    cases hx : env.decryptUser u with
    | error m => exact .inl ⟨.inr ⟨u, hrow, .inl ⟨m, hx⟩⟩, _, rfl⟩
    | ok x => exact recordFound_cases hrow hx hlookup

/-! ### Whole samples -/

/-- The users that cross their limits, and the end of the loop. -/
theorem recordStats_spec : ∀ (es : List UserStat) (db : Db),
    ((recordStats env node core epoch db es).1 ≠ [] ↔ SomeCrosses env node core epoch db es) ∧
      ((∃ db', (recordStats env node core epoch db es).2 = .ok db') ↔ NoneFails env node core epoch db es)
  | [], db => by simp [recordStats, SomeCrosses, NoneFails]
  | e :: es, db => by
    rw [recordStats, SomeCrosses, NoneFails]
    rcases recordStat_cases env node core epoch db e with ⟨hfails, m, hm⟩ | ⟨hpass, db', crossed, hok, hcrossed⟩
    · simp [hm, hfails]
    have hafter : e.after env node core epoch db = db' := by rw [UserStat.after, hok]
    obtain ⟨hcross, hend⟩ := recordStats_spec es db'
    rw [hok, hafter, ← hcross, ← hend, ← hcrossed]
    cases crossed <;> simp [hpass]

end

/-- A push is attempted for every sample in which a user crosses its limit. -/
def PushFollows (node : Uuid) (core : Core) (s : Option Db) (x : StatsSample) : Prop :=
  ∀ db, s = some db → (handleSample env node core db x).crossed ≠ [] → (handleSample env node core db x).pushed

/-- A sample in which somebody crosses its limit is recorded to its end, with automatic pushes on. -/
def RecordedThrough (node : Uuid) (core : Core) (s : Option Db) (x : StatsSample) : Prop :=
  ∀ db, s = some db → SomeCrosses env node core x.effectiveEpoch db x.users →
    NoneFails env node core x.effectiveEpoch db x.users ∧ autoPush x.settings

theorem pushFollows_iff (node : Uuid) (core : Core) (s : Option Db) (x : StatsSample) :
    PushFollows env node core s x ↔ RecordedThrough env node core s x := by
  refine forall_congr' fun db => forall_congr' fun _ => ?_
  obtain ⟨hcross, hend⟩ := recordStats_spec env node core x.effectiveEpoch x.users db
  rw [← hcross, ← hend, handleSample]
  rcases hrun : recordStats env node core x.effectiveEpoch db x.users with ⟨crossed, m | db'⟩
  · simp
  by_cases hnil : crossed = []
  · simp [hnil]
  · by_cases hauto : autoPush x.settings
    · simp [hnil, hauto]
    · simp [hauto]

/-- Over every stream of samples: each crossing is followed by a push before the stream ends or the next sample is
    handled, exactly if no sample with a crossing has an error in it, and automatic pushes are on. -/
theorem crossings_pushed_iff (env : Env) (node : Uuid) (core : Core) (db : Db) (xs : List StatsSample) :
    Always (subscribe env node core) (PushFollows env node core) (some db) xs ↔
      Always (subscribe env node core) (RecordedThrough env node core) (some db) xs := by
  rw [funext₂ fun s x => propext (pushFollows_iff env node core s x)]

/-! ### A crossing that is forgotten -/

/-- The counters of a user, with nobody else at work. -/
def quietStat (name : String) (up : ℕ) (fault : Option StatCall) : UserStat := ⟨name, up, 0, 0, id, id, fault⟩

/-- `alice` crosses its limit of 500 bytes, and the next user of the sample cannot be looked up: the stream ends
    without a push. -/
theorem crossing_forgotten : (handleSample plainEnv 1 .singbox limited
      ⟨"e", [quietStat "alice" 600 none, quietStat "bob" 1 (some .lookup)], [], .ok⟩).crossed = [7] ∧
    ¬ Always (subscribe plainEnv 1 .singbox) (PushFollows plainEnv 1 .singbox) (some limited)
      [⟨"e", [quietStat "alice" 600 none, quietStat "bob" 1 (some .lookup)], [], .ok⟩] := by
  have hcrossed : (handleSample plainEnv 1 .singbox limited
      ⟨"e", [quietStat "alice" 600 none, quietStat "bob" 1 (some .lookup)], [], .ok⟩).crossed = [7] := by decide +kernel
  refine ⟨hcrossed, fun ⟨hpush, _⟩ => ?_⟩
  have hpushed := hpush limited rfl (List.cons_ne_nil _ _)
  revert hpushed
  decide +kernel

end Honey.Master
