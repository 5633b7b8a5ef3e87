import Honey.Master.Resellers

/-! The caps of a reseller over whole runs: the limit of each of its users, their number, and the usage that
    its budget is compared with.

        owned users  +  creations past their count and before their INSERT   ≤   max_users

    A creation reads the count and inserts later, an update writes a limit unchecked, and the usage is the sum
    of columns that the reseller can set to zero: the caps hold in the runs that avoid these three
    (`caps_kept`, `usage_never_falls`). -/

namespace Honey.Master
open Honey.Schemes List Table

/-! ### Lines of a reseller -/

section

variable {m : Market} {r : Uuid} {id : Uuid} {s s' : UserDb}

/-- The number of the reseller's lines. -/
def ownedLines (r : Uuid) (ls : List Line) : ℕ := ls.countP (·.owner = some r)

/-- The usage on the reseller's lines. -/
def usedLines (r : Uuid) (ls : List Line) : ℤ := (ls.map fun l => if l.owner = some r then l.used else 0).sum

theorem countUsers_eq (s : UserDb) (r : Uuid) : countUsersForCreator s r = ownedLines r s.ledger := by
  rw [ownedLines, UserDb.ledger, countP_map, countP_eq_length_filter]
  rfl

theorem trafficUsed_eq (s : UserDb) (r : Uuid) : resellerTrafficUsed s r = usedLines r s.ledger := by
  rw [usedLines, UserDb.ledger, map_map]
  refine congrArg sum (map_congr_left fun u _ => ?_)
  by_cases howner : (s.profile u.id).createdBy = some r <;> simp [UserDb.owns, UserDb.line, howner]

theorem ownedLines_amend {f : Line → Line} (hf : ∀ l, (f l).owner = l.owner) (ls : List Line) :
    ownedLines r (amendLine id f ls) = ownedLines r ls := by
  rw [ownedLines, amendLine, countP_map]
  refine countP_congr fun l _ => ?_
  by_cases hl : l.id = id <;> simp [hl, hf]

theorem ownedLines_effect (e : Edit) (ls : List Line) : ownedLines r (e.effect id ls) ≤ ownedLines r ls := by
  cases e with
  | update input | reset =>
    refine (ownedLines_amend ?_ ls).le
    exact fun _ => rfl
  | delete => exact filter_sublist.countP_le
  | _ => exact le_refl _

theorem usedLines_amend {f : Line → Line} {ls : List Line} (howner : ∀ l, (f l).owner = l.owner)
    (h : ∀ l ∈ ls, l.id = id → l.owner = some r → l.used ≤ (f l).used) :
    usedLines r ls ≤ usedLines r (amendLine id f ls) := by
  rw [usedLines, usedLines, amendLine, map_map]
  refine sum_le_sum fun l hl => ?_
  rw [Function.comp_apply]
  by_cases hid : l.id = id
  · rw [if_pos hid, howner]
    split
    · exact h l hl hid ‹_›
    · exact le_refl 0
  · rw [if_neg hid]

theorem usedLines_filter {ls : List Line} (h : ∀ l ∈ ls, l.id = id → l.owner = some r → l.used ≤ 0) :
    usedLines r ls ≤ usedLines r (ls.filter (·.id ≠ id)) := by
  induction ls with
  | nil => exact le_refl _
  | cons l ls ih =>
    have hrest := ih fun k hk => h k (mem_cons_of_mem _ hk)
    simp only [usedLines, map_cons, sum_cons] at hrest ⊢
    by_cases hid : l.id = id
    · rw [filter_cons_of_neg (by simpa using hid)]
      have hl : (if l.owner = some r then l.used else 0) ≤ 0 := by
        split
        · exact h l mem_cons_self hid ‹_›
        · exact le_refl 0
      linarith
    · rw [filter_cons_of_pos (by simpa using hid), map_cons, sum_cons]
      linarith

end

/-! ### Limits and numbers -/

/-- The creation has counted and not inserted. -/
def Task.counted : Task → Bool
  | .create _ .usage | .create _ .groups | .create _ .insert => true
  | _ => false

/-- The number of such creations. -/
def Shop.pending (s : Shop) : ℤ := s.running.total fun r => if r.task.counted then 1 else 0

/-- A limit that the account allows. -/
def Market.Allows (m : Market) (limit : ℤ) : Prop := 1 ≤ limit ∧ limit ≤ m.account.userTrafficCeilingBytes

instance (m : Market) (limit : ℤ) : Decidable (m.Allows limit) := inferInstanceAs (Decidable (_ ∧ _))

/-- The caps are held. -/
structure Within (m : Market) (s : UserDb) : Prop where
  limits : ∀ u ∈ s.db.users.rows, s.owns m.account.id u → m.Allows u.trafficLimitBytes
  count : (countUsersForCreator s m.account.id : ℤ) ≤ m.account.maxUsers

/-- An update sets no limit, or one that the account allows; and a creation that counts fewer users than the
    cap does so while the creations past their count leave room for one more. -/
def Careful (m : Market) (s : Shop) : ShopEvent → Prop
  | .next pid _ _ _ => ∀ r ∈ s.running.find? pid, match r.task with
    | .edit _ (.update input) true => ∀ limit ∈ input.trafficLimitBytes, m.Allows limit
    | .create _ .count => (countUsersForCreator s.users m.account.id : ℤ) < m.account.maxUsers →
        countUsersForCreator s.users m.account.id + s.pending < m.account.maxUsers
    | _ => True
  | _ => True

/-- What carries `Within` through a run. -/
structure Held (m : Market) (s : Shop) : Prop where
  limits : ∀ l ∈ s.users.ledger, l.owner = some m.account.id → m.Allows l.limit
  room : ownedLines m.account.id s.users.ledger + s.pending ≤ m.account.maxUsers
  inputs : ∀ r ∈ s.running.rows, r.task.counted → ∀ input stage, r.task = .create input stage →
    m.Allows input.trafficLimitBytes

section

variable {m : Market} {s : Shop} {pid : ℕ} {now : ℤ} {x : Draws}

theorem within_of_held (h : Held m s) (hp : 0 ≤ s.pending) : Within m s.users := by
  refine ⟨fun u hu howns => ?_, ?_⟩
  · exact h.limits _ (mem_map_of_mem hu) (of_decide_eq_true howns)
  · rw [countUsers_eq]
    have := h.room
    omega

theorem pending_nonneg (s : Shop) : 0 ≤ s.pending := total_nonneg fun r _ => by split <;> decide

theorem pending_finish (s : Shop) (pid : ℕ) : (s.finish pid).pending ≤ s.pending := by
  rw [Shop.pending, Shop.finish, total_keep]
  refine total_mono fun r _ => ?_
  split
  · exact le_refl _
  · split <;> decide

theorem held_finish (h : Held m s) (pid : ℕ) : Held m (s.finish pid) where
  limits := h.limits
  room := (add_le_add_right (pending_finish s pid) _).trans h.room
  inputs r hr := h.inputs r (mem_keep.mp hr).1

variable {r : Running} {users : UserDb} {task : Task}

theorem pending_put (hr : s.running.find? pid = some r) (users : UserDb) (task : Task) :
    (Shop.mk users (s.running.put ⟨pid, task⟩)).pending + (if r.task.counted then 1 else 0) =
      s.pending + if task.counted then 1 else 0 := by
  have htotal := s.running.total_put ⟨pid, task⟩ fun r => if r.task.counted then 1 else 0
  rw [hr] at htotal
  exact htotal

theorem capAllows_ok {account : Admin} {owned : ℕ} (hcap : 0 < account.maxUsers)
    (h : capAllows account owned = .ok ()) : (owned : ℤ) < account.maxUsers := by
  rw [capAllows] at h
  split at h
  · cases h
  · rename_i hfull
    exact not_le.mp fun hle => hfull ⟨hcap, hle⟩

theorem ceilingAllows_ok {limit : ℤ} (hceiling : 0 < m.account.userTrafficCeilingBytes)
    (h : ceilingAllows m.account limit = .ok ()) : m.Allows limit := by
  rw [ceilingAllows] at h
  split at h
  · cases h
  rename_i hout
  rw [Market.Allows]
  by_contra hno
  exact hout ⟨hceiling, by omega⟩

theorem held_put (h : Held m s) (hr : s.running.find? pid = some r) (hledger : users.ledger = s.users.ledger)
    (hroom : task.counted → r.task.counted ∨ ownedLines m.account.id s.users.ledger + s.pending < m.account.maxUsers)
    (hinput : task.counted → ∀ input stage, task = .create input stage → m.Allows input.trafficLimitBytes) :
    Held m ⟨users, s.running.put ⟨pid, task⟩⟩ where
  limits := hledger.symm ▸ h.limits
  room := by
    have hput := pending_put hr users task
    have hheld := h.room
    simp only [hledger]
    cases hc : task.counted
    · simp only [hc, Bool.false_eq_true, if_false] at hput
      split at hput <;> omega
    rcases hroom hc with hrc | hlt
    · simp only [hc, hrc] at hput
      omega
    · split at hput <;> omega
  inputs := forall_put hinput h.inputs

theorem start_uncounted {order : ShopOrder} (h : order.start = .ok task) : task.counted = false := by
  cases order with
  | create input | edit id e =>
    obtain ⟨-, -, rfl⟩ := map_eq_ok.mp h
    rfl

theorem held_begin (h : Held m s) (hfree : s.running.find? pid = none) (htask : task.counted = false) :
    Held m { s with running := s.running.put ⟨pid, task⟩ } where
  limits := h.limits
  room := by
    have htotal := s.running.total_put ⟨pid, task⟩ fun r => if r.task.counted then 1 else 0
    rw [hfree] at htotal
    simp only [Option.map_none, Option.getD_none, add_zero, htask, Bool.false_eq_true, if_false] at htotal
    have hheld := h.room
    rw [Shop.pending] at hheld ⊢
    simp only [htotal]
    exact hheld
  inputs := forall_put (by simp [htask]) h.inputs

theorem held_insert {input : CreateUserInput} (h : Held m s) (hr : s.running.find? pid = some r)
    (htask : r.task = .create input .insert)
    (hins : insertUser m.gate m.env now x.user (some m.account.id) input s.users = .ok users) :
    Held m ⟨users, s.running.put ⟨pid, .create input (.grant x.user.id)⟩⟩ := by
  have hledger := insertUser_ledger hins
  have hmem := (find?_eq_some.mp hr).1
  have hallows := h.inputs r hmem (by rw [htask]; rfl) input .insert htask
  refine ⟨?_, ?_, ?_⟩
  · intro l hl howner
    rw [hledger, mem_append, mem_singleton] at hl
    rcases hl with hl | rfl
    · exact h.limits l hl howner
    · exact hallows
  · have hput := pending_put hr users (.create input (.grant x.user.id))
    rw [htask] at hput
    simp only [Task.counted, if_true, Bool.false_eq_true, if_false] at hput
    have hcount : ownedLines m.account.id users.ledger = ownedLines m.account.id s.users.ledger + 1 := by
      rw [hledger, ownedLines, ownedLines]
      simp
    have hheld := h.room
    simp only [hcount]
    omega
  · exact forall_put nofun h.inputs

theorem limits_amend {id : Uuid} {f : Line → Line} {ls : List Line}
    (h : ∀ l ∈ ls, l.owner = some m.account.id → m.Allows l.limit)
    (hf : ∀ l, (f l).owner = l.owner ∧ (m.Allows l.limit → m.Allows (f l).limit)) :
    ∀ l ∈ amendLine id f ls, l.owner = some m.account.id → m.Allows l.limit := by
  intro l hl howner
  obtain ⟨k, hk, rfl⟩ := mem_map.mp hl
  by_cases hid : k.id = id
  · rw [if_pos hid] at howner ⊢
    exact (hf k).2 (h k hk ((hf k).1 ▸ howner))
  · rw [if_neg hid] at howner ⊢
    exact h k hk howner

/-- The statement of an edit. -/
theorem held_edit {id : Uuid} {e : Edit} (h : Held m s) (hrun : e.run m now x.edit id s.users = .ok users)
    (hcare : ∀ input, e = .update input → ∀ limit ∈ input.trafficLimitBytes, m.Allows limit) :
    Held m { s.finish pid with users := users } := by
  have hledger := run_ledger hrun
  have hfinish := held_finish h pid
  refine ⟨?_, ?_, hfinish.inputs⟩
  · simp only [hledger]
    cases e with
    | update input =>
      refine limits_amend h.limits fun l => ⟨rfl, fun hl => ?_⟩
      cases hlimit : input.trafficLimitBytes with
      | none => exact hl
      | some limit => exact hcare input rfl limit hlimit
    | delete => exact fun l hl => h.limits l (mem_filter.mp hl).1
    | reset => exact limits_amend h.limits fun l => ⟨rfl, fun hl => hl⟩
    | _ => exact h.limits
  · have hle : (ownedLines m.account.id users.ledger : ℤ) ≤ ownedLines m.account.id s.users.ledger := by
      rw [hledger]
      exact_mod_cast ownedLines_effect e s.users.ledger
    have hheld : ownedLines m.account.id s.users.ledger + (s.finish pid).pending ≤ m.account.maxUsers := hfinish.room
    have hpend : ({ s.finish pid with users := users } : Shop).pending = (s.finish pid).pending := rfl
    linarith

theorem held_record {sample : Sample} (h : Held m s) : Held m { s with users := s.users.record now sample } := by
  cases hrec : recordTraffic s.users.db sample with
  | error e =>
    rw [record_error hrec]
    exact h
  | ok r =>
    have hledger := record_ledger now hrec
    refine ⟨?_, ?_, h.inputs⟩
    · simp only [hledger]
      exact limits_amend h.limits fun l => ⟨rfl, fun hl => hl⟩
    · have hcount : ownedLines m.account.id (s.users.record now sample).ledger =
          ownedLines m.account.id s.users.ledger := by
        rw [hledger]
        refine ownedLines_amend ?_ _
        exact fun _ => rfl
      rw [hcount]
      exact h.room

variable (hcap : 0 < m.account.maxUsers) (hceiling : 0 < m.account.userTrafficCeilingBytes)
include hcap hceiling

theorem held_create {input : CreateUserInput} {stage : CreateStage} {next : UserDb × Option CreateStage} (h : Held m s)
    (hr : s.running.find? pid = some r) (htask : r.task = .create input stage)
    (hcare : stage = .count → (countUsersForCreator s.users m.account.id : ℤ) < m.account.maxUsers →
      countUsersForCreator s.users m.account.id + s.pending < m.account.maxUsers)
    (hnext : nextCreate m now x.user s.users input stage = .ok next) :
    Held m (s.after pid next.1 (next.2.map (.create input))) := by
  have hgoOn : r.task.counted → ∀ stage', Held m ⟨s.users, s.running.put ⟨pid, .create input stage'⟩⟩ := by
    intro hc stage'
    refine held_put h hr rfl (fun _ => .inl hc) fun _ input' _ heq => ?_
    cases heq
    exact h.inputs r (find?_eq_some.mp hr).1 hc input stage htask
  cases stage with
  | count =>
    obtain ⟨_, hcount, hnext⟩ := bind_eq_ok.mp hnext
    obtain ⟨_, hallow, hnext⟩ := bind_eq_ok.mp hnext
    cases hnext
    have hroom := hcare rfl (capAllows_ok hcap hcount)
    rw [countUsers_eq] at hroom
    refine held_put h hr rfl (fun _ => .inr hroom) fun _ input' stage' heq => ?_
    cases heq
    exact ceilingAllows_ok hceiling hallow
  | usage =>
    obtain ⟨-, -, hnext⟩ := bind_eq_ok.mp hnext
    cases hnext
    exact hgoOn (by rw [htask]; rfl) _
  | groups =>
    obtain ⟨-, -, hnext⟩ := bind_eq_ok.mp hnext
    cases hnext
    exact hgoOn (by rw [htask]; rfl) _
  | insert =>
    obtain ⟨users, hins, hnext⟩ := bind_eq_ok.mp hnext
    cases hnext
    exact held_insert h hr htask hins
  | grant id =>
    rw [nextCreate] at hnext
    split at hnext
    · cases hnext
    obtain ⟨users, hset, hnext⟩ := bind_eq_ok.mp hnext
    cases hnext
    have hfinish := held_finish h pid
    exact ⟨groups_ledger hset ▸ h.limits, groups_ledger hset ▸ hfinish.room, hfinish.inputs⟩

/-- One statement of any request. -/
theorem held_next {o : Option Task} (h : Held m s) (hr : s.running.find? pid = some r)
    (hcare : Careful m s (.next pid now x false)) (hnext : r.task.next m now x s.users = .ok (users, o)) :
    Held m (s.after pid users o) := by
  have hcare := hcare r hr
  cases htask : r.task with
  | create input stage =>
    rw [htask] at hnext hcare
    obtain ⟨next, hcreate, heq⟩ := map_eq_ok.mp hnext
    cases heq
    exact held_create hcap hceiling h hr htask (by rintro rfl; exact hcare) hcreate
  | edit id e owned =>
    rw [htask] at hnext hcare
    cases owned with
    | false =>
      obtain ⟨a, -, heq⟩ := map_eq_ok.mp hnext
      cases heq
      exact held_put h hr rfl nofun nofun
    | true =>
      obtain ⟨users', hrun, heq⟩ := map_eq_ok.mp hnext
      cases heq
      exact held_edit h hrun (by rintro input rfl; exact hcare)

theorem caps_step (e : ShopEvent) (h : Held m s) (hcare : Careful m s e) : Held m (s.step m e) := by
  rcases Shop.step_cases m s e with hsame | ⟨pid, now, x, r, users, o, rfl, hr, hnext, hstep⟩ |
    ⟨now, sample, rfl, hstep⟩
  · rcases hsame.2 with hstep | ⟨pid, hstep⟩ | ⟨pid, order, task, hfree, hstart, hstep⟩
    · rw [hstep]
      exact h
    · exact hstep ▸ held_finish h pid
    · exact hstep ▸ held_begin h hfree (start_uncounted hstart)
  · exact hstep ▸ held_next hcap hceiling h hr hcare hnext
  · exact hstep ▸ held_record h

end

/-- In every run of a reseller's requests, interleaved in any way, whose steps are careful, its users have
    limits between 1 and the ceiling and their number is within the cap. -/
theorem caps_kept (m : Market) (hcap : 0 < m.account.maxUsers)
    (hceiling : 0 < m.account.userTrafficCeilingBytes) (users : UserDb) (h : Within m users)
    (es : List ShopEvent) (hcare : Always (Shop.step m) (Careful m) (Shop.start users) es) :
    Within m (es.foldl (Shop.step m) (Shop.start users)).users := by
  have hstart : Held m (Shop.start users) := by
    refine ⟨?_, ?_, fun r hr => absurd hr not_mem_nil⟩
    · intro l hl howner
      obtain ⟨u, hu, rfl⟩ := mem_map.mp hl
      exact h.limits u hu (decide_eq_true howner)
    · have hcount := h.count
      rw [countUsers_eq] at hcount
      exact (add_zero _).trans_le hcount
  have hheld := inv_run (fun s e hs hc => caps_step hcap hceiling e hs hc) es _ hstart hcare
  exact within_of_held hheld (pending_nonneg _)

/-- A reseller that may have one user, of at most ten bytes. -/
def smallMarket : Market where
  gate := plainGate
  env := ⟨.ok, .ok, fun a b => decide (a ≤ b)⟩
  account := ⟨7, "rita", "h", .reseller, true, 1, 10, 0, 0, none⟩
  entitled := [3]
  known := [3]

def noUsers : UserDb where
  db := .initial
  profiles := empty
  subscriptions := empty
  usernames := nodup_nil
  aliases := no_aliases

/-- One user of the reseller, with a limit of five bytes. -/
def oneSold (used : ℤ) : UserDb :=
  (noUsers.putUser ⟨1, "ann", "u", "p", true, 5, used, none⟩ fun _ h => absurd h not_mem_nil).putProfile
    { Profile.blank 1 with createdBy := some 7 } nofun

def newUser (username : String) (limit : ℤ) : CreateUserInput :=
  ⟨⟨username, "secret", none, none, none, "inherit", limit, none⟩, 0⟩

def limitPatch (limit : Option ℤ) : UpdateUserInput :=
  ⟨⟨none, none, .missing, .missing, .missing, none, none, limit, .missing⟩, none⟩

def draws (id : Uuid) : Draws := ⟨⟨id, id, id⟩, ⟨id, "new", id, id⟩⟩

/-- The user's limit is set to 5, and the reseller's one creation is refused. -/
theorem capped_run : Within smallMarket ((([.begin 0 (.edit 1 (.update (limitPatch (some 5)))),
    .next 0 0 (draws 2) false, .next 0 0 (draws 2) false, .begin 1 (.create (newUser "bob" 5)),
    .next 1 0 (draws 2) false] : List ShopEvent).foldl (Shop.step smallMarket) (Shop.start (oneSold 0))).users) := by
  refine caps_kept smallMarket (by decide) (by decide) _ ⟨?_, by decide⟩ _ ?_
  · decide
  refine ⟨trivial, ?_, ?_, trivial, ?_, trivial⟩
  · rintro r ⟨⟩
    trivial
  · rintro r ⟨⟩ limit ⟨⟩
    decide
  · rintro r ⟨⟩ hroom
    exact absurd hroom (by decide +kernel)

/-- The limit is set to 0 by an update, and the number goes to two by creations that count at the same time. -/
theorem caps_overrun : (Within smallMarket (oneSold 0) ∧ ¬ Within smallMarket
      ((([.begin 0 (.edit 1 (.update (limitPatch (some 0)))), .next 0 0 (draws 2) false,
        .next 0 0 (draws 2) false] : List ShopEvent).foldl (Shop.step smallMarket) (Shop.start (oneSold 0))).users)) ∧
    (Within smallMarket noUsers ∧ ¬ Within smallMarket
      ((([.begin 0 (.create (newUser "ann" 5)), .begin 1 (.create (newUser "bob" 5)),
        .next 0 0 (draws 1) false, .next 1 0 (draws 2) false, .next 0 0 (draws 1) false,
        .next 0 0 (draws 1) false, .next 0 0 (draws 1) false, .next 1 0 (draws 2) false,
        .next 1 0 (draws 2) false, .next 1 0 (draws 2) false] : List ShopEvent).foldl (Shop.step smallMarket)
          (Shop.start noUsers)).users)) := by
  refine ⟨⟨⟨by decide, by decide⟩, fun h => ?_⟩, ⟨⟨by decide, by decide⟩, fun h => ?_⟩⟩
  · exact absurd h.limits (by decide +kernel)
  · exact absurd h.count (by decide +kernel)

/-! ### Usage -/

/-- A reset or a deletion meets a user without usage, and a recording one whose usage its rows account for. -/
def Gentle (m : Market) (s : Shop) : ShopEvent → Prop
  | .next pid _ _ _ => ∀ r ∈ s.running.find? pid, match r.task with
    | .edit id .delete true | .edit id .reset true =>
      ∀ u ∈ s.users.db.users.find? id, s.users.owns m.account.id u → u.usedTrafficBytes ≤ 0
    | _ => True
  | .record _ sample => ∀ u ∈ s.users.db.users.find? sample.user, s.users.owns m.account.id u →
      u.usedTrafficBytes ≤ charged s.users.db.traffic sample.user
  | _ => True

section

variable {m : Market} {s : Shop} {pid : ℕ} {now : ℤ} {x : Draws} {users : UserDb}

theorem line_used {r id : Uuid} {bound : ℤ}
    (h : ∀ u ∈ users.db.users.find? id, users.owns r u → u.usedTrafficBytes ≤ bound) :
    ∀ l ∈ users.ledger, l.id = id → l.owner = some r → l.used ≤ bound := by
  intro l hl hid howner
  obtain ⟨u, hu, rfl⟩ := mem_map.mp hl
  exact h u (find?_eq_some.mpr ⟨hu, hid⟩) (decide_eq_true howner)

theorem usage_edit {id : Uuid} {e : Edit} (hrun : e.run m now x.edit id s.users = .ok users)
    (h : e = .delete ∨ e = .reset → ∀ u ∈ s.users.db.users.find? id, s.users.owns m.account.id u →
      u.usedTrafficBytes ≤ 0) : resellerTrafficUsed s.users m.account.id ≤ resellerTrafficUsed users m.account.id := by
  rw [trafficUsed_eq, trafficUsed_eq, run_ledger hrun]
  cases e with
  | update input => exact usedLines_amend (fun _ => rfl) fun _ _ _ _ => le_refl _
  | delete => exact usedLines_filter (line_used (h (.inl rfl)))
  | reset => exact usedLines_amend (fun _ => rfl) (line_used (h (.inr rfl)))
  | _ => exact le_refl _

theorem usage_insert {input : CreateUserInput}
    (hins : insertUser m.gate m.env now x.user (some m.account.id) input s.users = .ok users) :
    resellerTrafficUsed s.users m.account.id ≤ resellerTrafficUsed users m.account.id := by
  rw [trafficUsed_eq, trafficUsed_eq, insertUser_ledger hins, usedLines, usedLines]
  simp

theorem usage_record {sample : Sample} (h : Gentle m s (.record now sample)) :
    resellerTrafficUsed s.users m.account.id ≤ resellerTrafficUsed (s.users.record now sample) m.account.id := by
  rcases hrec : recordTraffic s.users.db sample with e | r
  · rw [record_error hrec]
  rw [trafficUsed_eq, trafficUsed_eq, record_ledger now hrec]
  refine usedLines_amend (fun _ => rfl) fun l hl hid howner => (line_used h l hl hid howner).trans ?_
  -- the rows of the user only grow by a recording
  obtain ⟨u, hourly, -, hdb, -⟩ := recordTraffic_ok hrec
  have hgrow := charged_put s.users.db.traffic sample sample.user
  rw [if_pos rfl] at hgrow
  simp only [hdb]
  linarith [added_nonneg sample (s.users.db.traffic.find? sample.key)]

theorem usage_create {input : CreateUserInput} {stage : CreateStage} {next : UserDb × Option CreateStage}
    (hnext : nextCreate m now x.user s.users input stage = .ok next) :
    resellerTrafficUsed s.users m.account.id ≤ resellerTrafficUsed next.1 m.account.id := by
  rcases nextCreate_ledger hnext with hsame | hins
  · rw [trafficUsed_eq, trafficUsed_eq, hsame]
  · exact usage_insert hins

theorem usage_next {r : Running} {o : Option Task} (hr : s.running.find? pid = some r)
    (h : Gentle m s (.next pid now x false)) (hnext : r.task.next m now x s.users = .ok (users, o)) :
    resellerTrafficUsed s.users m.account.id ≤ resellerTrafficUsed users m.account.id := by
  have h := h r hr
  cases htask : r.task with
  | create input stage =>
    rw [htask] at hnext
    obtain ⟨next, hcreate, heq⟩ := map_eq_ok.mp hnext
    cases heq
    exact usage_create hcreate
  | edit id e owned =>
    rw [htask] at hnext h
    cases owned with
    | false =>
      obtain ⟨a, -, heq⟩ := map_eq_ok.mp hnext
      cases heq
      exact le_refl _
    | true =>
      obtain ⟨users', hrun, heq⟩ := map_eq_ok.mp hnext
      cases heq
      refine usage_edit hrun ?_
      rintro (rfl | rfl)
      · exact h
      · exact h

theorem usage_step (e : ShopEvent) (h : Gentle m s e) :
    resellerTrafficUsed s.users m.account.id ≤ resellerTrafficUsed (s.step m e).users m.account.id := by
  rcases Shop.step_cases m s e with hsame | ⟨pid, now, x, r, users, o, rfl, hr, hnext, hstep⟩ |
    ⟨now, sample, rfl, -⟩
  · rw [hsame.1]
  · rw [hstep, Shop.after_users]
    exact usage_next hr h hnext
  · exact usage_record h

end

/-- In every run of a reseller's requests and of recordings whose steps are gentle, no step lowers the usage that
    the reseller's budget is compared with. -/
theorem usage_never_falls (m : Market) (s : Shop) (es : List ShopEvent) (h : Always (Shop.step m) (Gentle m) s es) :
    Always (Shop.step m) (fun s e => resellerTrafficUsed s.users m.account.id ≤
      resellerTrafficUsed (s.step m e).users m.account.id) s es :=
  always_of_inv (fun _ _ _ _ => trivial) (fun _ e (_ : True) he => usage_step e he) es s trivial h

def orderRun (e : Edit) : List ShopEvent :=
  [.begin 0 (.edit 1 e), .next 0 0 (draws 2) false, .next 0 0 (draws 2) false]

/-- A node, and a user whose bytes no row accounts for. -/
def unaccounted (used : ℤ) : UserDb :=
  { oneSold used with
    db := { (oneSold used).db with nodes := empty.put ⟨9, "n", "a", true, false, none, none, none⟩ } }

def twoSold : UserDb :=
  ((unaccounted 0).putUser ⟨2, "bob", "v", "q", true, 5, 0, none⟩ (by decide)).putProfile
    { Profile.blank 2 with createdBy := some 7 } nofun

/-- The reseller's other user is charged three bytes, and the one without usage is deleted. -/
theorem unused_deleted : Always (Shop.step smallMarket) (fun s e =>
    resellerTrafficUsed s.users smallMarket.account.id ≤
      resellerTrafficUsed (s.step smallMarket e).users smallMarket.account.id) (Shop.start twoSold)
    (.record 0 ⟨9, 2, .singbox, "e", 0, 0, 0⟩ :: .record 0 ⟨9, 2, .singbox, "e", 1, 2, 0⟩ :: orderRun .delete) := by
  refine usage_never_falls smallMarket _ _ ⟨?_, ?_, trivial, ?_, ?_, trivial⟩
  · rintro u ⟨⟩ _
    decide
  · rintro u ⟨⟩ _
    decide
  · rintro r ⟨⟩
    trivial
  · rintro r ⟨⟩ u ⟨⟩ _
    decide

/-- Four bytes are regained by a reset, by a deletion, and by a recording after the rows have gone. -/
theorem usage_regained : resellerTrafficUsed (oneSold 4) 7 = 4 ∧
    resellerTrafficUsed (((orderRun .reset).foldl (Shop.step smallMarket) (Shop.start (oneSold 4))).users) 7 = 0 ∧
    resellerTrafficUsed (((orderRun .delete).foldl (Shop.step smallMarket) (Shop.start (oneSold 4))).users) 7 = 0 ∧
    resellerTrafficUsed (unaccounted 4) 7 = 4 ∧ resellerTrafficUsed (((Shop.start (unaccounted 4)).step smallMarket
      (.record 0 ⟨9, 1, .singbox, "e", 0, 0, 0⟩)).users) 7 = 0 := by
  refine ⟨?_, ?_, ?_, ?_, ?_⟩ <;> decide +kernel

end Honey.Master
