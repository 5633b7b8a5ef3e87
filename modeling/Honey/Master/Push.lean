import Honey.Master.Rebuild
import Honey.Master.Traffic

/-! Pushing a node's spec to its agent (`registry.rs`), and the reconcile loop that should push only what has changed.

        push       build -> start (desired hash) -> Apply -> finish (applied hash)
        reconcile  build -> applied hash = hash of the spec ?  unchanged : push

    The spec shows what is left of every quota, so traffic alone changes it: between two pushes the loop stays quiet
    exactly as long as no active user with a limit is charged (`quiet_iff_totals_kept`). -/

namespace Honey.Master
open Honey.Schemes List Table Function

/-- `start_node_push`, without the event it logs. The event refers to the node. -/
def startNodePush (db : Db) (node : Uuid) (desiredHash : String) : Except DbError Db :=
  match db.nodes.find? node with
  | none => .error .foreignKey
  | some n => .ok { db with
      nodes := db.nodes.put { n with desiredSpecHash := some desiredHash, lastPushStatus := some .started } }

/-- `finish_node_push`, without the event. -/
def finishNodePush (db : Db) (node : Uuid) (desiredHash : String) (status : PushStatus) : Db :=
  let appliedHash := if status = .applied ∨ status = .unchanged then some desiredHash else none
  match db.nodes.find? node with
  | none => db
  | some n => { db with
      nodes := db.nodes.put { n with
        lastPushStatus := some status
        appliedSpecHash := appliedHash.or n.appliedSpecHash } }

/-- The registry: the database, and the nodes that wait for a push of their own. -/
structure Registry where
  db : Db
  deferred : List Uuid

/-- What a call finds outside: the time, fresh keys, and what comes back for an Apply. -/
structure Call where
  now : ℤ
  keys : Keys
  agent : NodeSpec → Except String Unit

inductive PushError where
  | spec (message : String)
  | db (e : DbError)
  | agent (message : String)
  | notFound

inductive PushOutcome where | deferred | unchanged | pushed
  deriving DecidableEq, Repr

section

variable (env : Env) (specHash : NodeSpec → String) (node : Uuid)

variable (r : Registry)

def pushWithContext (c : Call) : Registry × Except PushError Unit :=
  let deferred := r.deferred.filter (· ≠ node)
  match buildNodeSpec env c.keys r.db node c.now with
  | (db, .error e) => (⟨db, deferred⟩, .error (.spec e))
  | (db, .ok spec) => match startNodePush db node (specHash spec) with
    | .error e => (⟨db, deferred⟩, .error (.db e))
    | .ok db => match c.agent spec with
      | .ok () => (⟨finishNodePush db node (specHash spec) .applied, deferred⟩, .ok ())
      | .error e => (⟨finishNodePush db node (specHash spec) .failed, deferred⟩, .error (.agent e))

def reconcilePush (c : Call) : Registry × Except PushError PushOutcome :=
  if node ∈ r.deferred then (r, .ok .deferred)
  else match buildNodeSpec env c.keys r.db node c.now with
    | (db, .error e) => ({ r with db := db }, .error (.spec e))
    | (db, .ok spec) => match db.nodes.find? node with
      | none => ({ r with db := db }, .error .notFound)
      | some n =>
        if n.appliedSpecHash = some (specHash spec) then ({ r with db := db }, .ok .unchanged)
        else match pushWithContext env specHash node { r with db := db } c with
          | (r, .error e) => (r, .error e)
          | (r, .ok ()) => (r, .ok .pushed)

/-- What happens between two pushes: traffic, and ticks of the reconcile loop. -/
inductive TrafficEv where
  | record (s : Sample)
  | reconcile (c : Call)

def Registry.step : TrafficEv → Registry
  | .record s => { r with db := r.db.apply (.record s) }
  | .reconcile c => (reconcilePush env specHash node r c).1

/-- The loop finds nothing to do. -/
def StaysQuiet : TrafficEv → Prop
  | .reconcile c => (reconcilePush env specHash node r c).2 = .ok .unchanged
  | .record _ => True

end

/-- The users with access to the node that are active are those at the push. -/
def SameActive (node : Uuid) (pushed : Db) (at' : ℤ) (r : Registry) : TrafficEv → Prop
  | .reconcile c => r.db.activeIds node c.now = pushed.activeIds node at'
  | .record _ => True

/-- The totals the spec shows are those at the push. -/
def TotalsKept (node : Uuid) (pushed : Db) (at' : ℤ) (r : Registry) : TrafficEv → Prop
  | .reconcile _ => QuotasKept r.db.used pushed node at'
  | .record _ => True

/-! ### What a successful push leaves -/

theorem face_put {nodes : Table Node.id} {n n' : Node} (hn : nodes.find? n.id = some n)
    (hid : n'.id = n.id) (hface : n'.face = n.face) (id : Uuid) :
    ((nodes.put n').find? id).map Node.face = (nodes.find? id).map Node.face := by
  rw [find?_put, hid]
  split
  · rename_i h
    rw [h, hn, Option.map_some, hface, Option.map_some]
  · rfl

theorem startNodePush_ok {db db' : Db} {node : Uuid} {hash : String} (h : startNodePush db node hash = .ok db') :
    ∃ nodes, db' = { db with nodes := nodes } ∧ (nodes.find? node).isSome ∧
      ∀ id, (nodes.find? id).map Node.face = (db.nodes.find? id).map Node.face := by
  rw [startNodePush] at h
  rcases hn : db.nodes.find? node with _ | n
  · rw [hn] at h
    cases h
  rw [hn] at h
  obtain ⟨-, hid⟩ := find?_eq_some.mp hn
  have hn' : db.nodes.find? n.id = some n := by rw [hid]; exact hn
  refine ⟨_, (Except.ok.inj h).symm, ?_, face_put hn' rfl rfl⟩
  rw [find?_put, if_pos hid.symm]
  rfl

theorem finishNodePush_applied (db : Db) {node : Uuid} {hash : String} (h : (db.nodes.find? node).isSome) :
    ∃ nodes, finishNodePush db node hash .applied = { db with nodes := nodes } ∧
      (nodes.find? node).map (·.appliedSpecHash) = some (some hash) ∧
      ∀ id, (nodes.find? id).map Node.face = (db.nodes.find? id).map Node.face := by
  obtain ⟨n, hn⟩ := Option.isSome_iff_exists.mp h
  obtain ⟨-, hid⟩ := find?_eq_some.mp hn
  have hn' : db.nodes.find? n.id = some n := by rw [hid]; exact hn
  simp only [finishNodePush, hn]
  refine ⟨_, rfl, ?_, face_put hn' rfl rfl⟩
  rw [find?_put, if_pos hid.symm]
  rfl

section

variable {env : Env} {specHash : NodeSpec → String} {node : Uuid} {r r₁ : Registry} {c c₀ : Call}

theorem push_ok (h : pushWithContext env specHash node r c = (r₁, .ok ())) :
    ∃ db spec nodes, buildNodeSpec env c.keys r.db node c.now = (db, .ok spec) ∧
      r₁ = ⟨{ db with nodes := nodes }, r.deferred.filter (· ≠ node)⟩ ∧
      (nodes.find? node).map (·.appliedSpecHash) = some (some (specHash spec)) ∧
      ∀ id, (nodes.find? id).map Node.face = (db.nodes.find? id).map Node.face := by
  rw [pushWithContext] at h
  rcases hb : buildNodeSpec env c.keys r.db node c.now with ⟨db, e | spec⟩
  · simp only [hb] at h
    cases (Prod.mk.inj h).2
  rcases hs : startNodePush db node (specHash spec) with e | db'
  · simp only [hb, hs] at h
    cases (Prod.mk.inj h).2
  rcases ha : c.agent spec with e | _
  · simp only [hb, hs, ha] at h
    cases (Prod.mk.inj h).2
  simp only [hb, hs, ha] at h
  obtain ⟨nodes, rfl, hsome, hface⟩ := startNodePush_ok hs
  obtain ⟨nodes', hfinish, happlied, hface'⟩ := finishNodePush_applied { db with nodes := nodes } hsome
  refine ⟨db, spec, nodes', rfl, ?_, happlied, fun id => (hface' id).trans (hface id)⟩
  rw [← (Prod.mk.inj h).1, hfinish]

theorem used_eq {db : Db} {u : User} (hu : u ∈ db.users.rows) : db.used u.id = u.usedTrafficBytes :=
  usedIn_find (find?_eq_some.mpr ⟨hu, rfl⟩)

theorem setUsed_used (db : Db) : db.users.rows.map (User.setUsed db.used) = db.users.rows := by
  refine (map_congr_left fun u hu => ?_).trans (map_id _)
  rw [User.setUsed, used_eq hu]
  rfl

/-- A recording changes nothing a spec is built from but a total. -/
theorem sameSpec_record {base db db' : Db} {s : Sample} {crossed : Bool}
    (hsame : SameSpec db.used base db) (h : recordTraffic db s = .ok (db', crossed)) : SameSpec db'.used base db' := by
  have hused := record_charges h
  obtain ⟨u, hourly, hu, hdb', -⟩ := recordTraffic_ok h
  obtain ⟨humem, huid⟩ := find?_eq_some.mp hu
  have husers : db'.users = db.users.put { u with usedTrafficBytes := db'.used s.user } := by
    rw [hused, if_pos rfl, hdb']
  have hrows := rows_put_old (r := { u with usedTrafficBytes := db'.used s.user }) (huid ▸ hu)
  refine ⟨?_, by rw [hdb']; exact hsame.nodes, by rw [hdb']; exact hsame.members,
    by rw [hdb']; exact hsame.access, by rw [hdb']; exact hsame.inbounds,
    by rw [hdb']; exact hsame.wgInterfaces, by rw [hdb']; exact hsame.wgPeers,
    by rw [hdb']; exact hsame.services⟩
  rw [husers, hrows, hsame.users, map_map]
  refine map_congr_left fun b hb => ?_
  have hbmem : b.setUsed db.used ∈ db.users.rows := hsame.users ▸ mem_map_of_mem hb
  have hid : (b.setUsed db.used).id = b.id := rfl
  simp only [comp_apply, huid, hid]
  by_cases hbu : b.id = s.user
  · -- the user's own row
    have hrow : b.setUsed db.used = u := inj_on_of_nodup_map db.users.nodup hbmem humem (hbu.trans huid.symm)
    rw [if_pos hbu, ← hrow, ← hbu]
    rfl
  · rw [if_neg hbu, User.setUsed, User.setUsed, hused b.id, if_neg hbu]

/-- Since the push: nothing waits, the applied hash is that of the pushed spec, and only totals have moved. -/
structure SincePush (specHash : NodeSpec → String) (node : Uuid) (base : Db) (spec : NodeSpec)
    (r : Registry) : Prop where
  deferred : node ∉ r.deferred
  applied : (r.db.nodes.find? node).map (·.appliedSpecHash) = some (some (specHash spec))
  same : SameSpec r.db.used base r.db

/-- One tick of the loop. -/
theorem reconcile_iff {keys : Keys} {db base : Db} {spec : NodeSpec} {at' : ℤ} (hinj : Injective specHash)
    (hbuild : buildNodeSpec env keys db node at' = (base, .ok spec))
    (h : SincePush specHash node base spec r) (hact : r.db.activeIds node c.now = base.activeIds node at') :
    ((reconcilePush env specHash node r c).2 = .ok .unchanged ↔ QuotasKept r.db.used base node at') ∧
      (QuotasKept r.db.used base node at' → (reconcilePush env specHash node r c).1 = r) := by
  obtain ⟨spec₂, hbuild₂, hspec⟩ := rebuild c.keys hbuild h.same hact
  obtain ⟨n, hn, happlied⟩ := Option.map_eq_some_iff.mp h.applied
  have hhash : n.appliedSpecHash = some (specHash spec₂) ↔ spec₂ = spec := by
    rw [happlied, Option.some.injEq, hinj.eq_iff, eq_comm]
  rw [← hspec, ← hhash]
  simp only [reconcilePush, if_neg h.deferred, hbuild₂, hn]
  by_cases heq : n.appliedSpecHash = some (specHash spec₂)
  · simp only [if_pos heq]
    exact ⟨⟨fun _ => heq, fun _ => trivial⟩, fun _ => trivial⟩
  simp only [if_neg heq]
  refine ⟨⟨fun hc => ?_, fun hc => absurd hc heq⟩, fun hc => absurd hc heq⟩
  rcases hp : pushWithContext env specHash node { r with db := r.db } c with ⟨r', e | _⟩
  · rw [hp] at hc
    cases hc
  · rw [hp] at hc
    cases hc

theorem sincePush_record {base : Db} {spec : NodeSpec} (s : Sample) (h : SincePush specHash node base spec r) :
    SincePush specHash node base spec { r with db := r.db.apply (.record s) } := by
  rw [Db.apply]
  rcases hr : recordTraffic r.db s with e | ⟨db', crossed⟩
  · exact h
  · refine ⟨h.deferred, ?_, sameSpec_record h.same hr⟩
    obtain ⟨u, -, -, rfl, -⟩ := recordTraffic_ok hr
    exact h.applied

theorem sincePush_start (h : pushWithContext env specHash node r c = (r₁, .ok ())) :
    ∃ base spec, buildNodeSpec env c.keys r.db node c.now = (base, .ok spec) ∧ SincePush specHash node base spec r₁ ∧
      r₁.db.activeUsers node c.now = base.activeUsers node c.now ∧ r₁.db.inbounds = base.inbounds := by
  obtain ⟨base, spec, nodes, hbuild, rfl, happlied, hface⟩ := push_ok h
  refine ⟨base, spec, hbuild, ⟨by simp, happlied, ?_⟩, rfl, rfl⟩
  exact ⟨(setUsed_used base).symm, hface, rfl, rfl, rfl, rfl, rfl, rfl⟩

end

/-- After a successful push, in every run of recordings and reconciles in which the active users stay the same, the loop
    stays quiet exactly if at each of its ticks the totals that the spec shows are those at the push. -/
theorem quiet_iff_totals_kept (env : Env) (specHash : NodeSpec → String)
    (hinj : Injective specHash) (node : Uuid) (r₀ r₁ : Registry) (c₀ : Call)
    (hpush : pushWithContext env specHash node r₀ c₀ = (r₁, .ok ())) (es : List TrafficEv)
    (hactive : Always (Registry.step env specHash node) (SameActive node r₁.db c₀.now) r₁ es) :
    Always (Registry.step env specHash node) (StaysQuiet env specHash node) r₁ es ↔
      Always (Registry.step env specHash node) (TotalsKept node r₁.db c₀.now) r₁ es := by
  obtain ⟨base, spec, hbuild, hstart, husers, hinbounds⟩ := sincePush_start hpush
  have hids : r₁.db.activeIds node c₀.now = base.activeIds node c₀.now := by
    rw [Db.activeIds, husers, Db.activeIds]
  have hquotas : ∀ f, QuotasKept f r₁.db node c₀.now ↔ QuotasKept f base node c₀.now := fun f => by
    rw [QuotasKept, husers, hinbounds, QuotasKept]
  have hiff : ∀ r e, SincePush specHash node base spec r →
      (SameActive node r₁.db c₀.now r e ∧ StaysQuiet env specHash node r e ↔
        SameActive node r₁.db c₀.now r e ∧ TotalsKept node r₁.db c₀.now r e) := by
    intro r e h
    refine and_congr_right fun hact => ?_
    cases e with
    | record s => exact Iff.rfl
    | reconcile c =>
      exact (reconcile_iff hinj hbuild h (hact.trans hids)).1.trans (hquotas _).symm
  have hstep : ∀ r e, SincePush specHash node base spec r →
      SameActive node r₁.db c₀.now r e ∧ TotalsKept node r₁.db c₀.now r e →
      SincePush specHash node base spec (r.step env specHash node e) := by
    rintro r e h ⟨hact, hkept⟩
    cases e with
    | record s => exact sincePush_record s h
    | reconcile c =>
      have hsame := (reconcile_iff hinj hbuild h (hact.trans hids)).2 ((hquotas _).mp hkept)
      rw [Registry.step, hsame]
      exact h
  have hall := always_iff hstep hiff es r₁ hstart
  rw [always_and, always_and] at hall
  exact ⟨fun h => (hall.mp ⟨hactive, h⟩).2, fun h => (hall.mpr ⟨hactive, h⟩).2⟩

/-! ### One inbound, one user with a limit -/

/-- An inbound that uses none of the options. -/
def plainInbound : Inbound :=
  { (default : Inbound) with
    id := 21
    nodeId := 1
    tag := "in"
    kind := "vless"
    core := "singbox"
    listen := "::"
    listenPort := 443
    network := "tcp"
    enabled := true }

/-- `alice` has a limit of 500 bytes and access to node 1, which serves one inbound and has reported no traffic yet. -/
def limited : Db :=
  { twoNodes with
    users := Table.empty.put ⟨7, "alice", "u", "p", true, 500, 0, none⟩
    traffic := Table.empty.put ⟨1, 7, .singbox, 0, 0, 0, 0, "e"⟩
    inbounds := Table.empty.put plainInbound }

/-- Secrets in the clear, names in the order of their characters. -/
def plainEnv : Env := ⟨.ok, .ok, fun a b => decide (a ≤ b)⟩

/-- A call at time 0 that needs no keys, to an agent that applies everything. -/
def plainCall : Call := ⟨0, fun _ _ => .error "no keys", fun _ => .ok ()⟩

instance countableChar : Countable Char :=
  Injective.countable (f := Char.toNat) fun _ _ h => Char.ext (UInt32.toNat_inj.mp h)

instance countableString : Countable String :=
  Injective.countable (f := String.toList) fun _ _ h => String.toList_inj.mp h

deriving instance Countable for InboundUser, Reality, Tls, Transport, SpecInbound, WireguardPeer,
  WireguardInterface, SpecService, NodeSpec

theorem exists_injective_hash : ∃ specHash : NodeSpec → String, Injective specHash := by
  obtain ⟨g, hg⟩ := exists_injective_nat NodeSpec
  refine ⟨fun spec => String.ofList (replicate (g spec) 'a'), fun s t h => hg ?_⟩
  simpa using congrArg (fun text => text.toList.length) h

/-- The registry after the first push of node 1. -/
def limitedPushed (specHash : NodeSpec → String) : Registry :=
  (pushWithContext plainEnv specHash 1 ⟨limited, []⟩ plainCall).1

theorem limited_push (specHash : NodeSpec → String) :
    pushWithContext plainEnv specHash 1 ⟨limited, []⟩ plainCall = (limitedPushed specHash, .ok ()) :=
  rfl

/-- A sample of `alice` on node 1. -/
def aliceAt (up down : ℤ) : Sample := ⟨1, 7, .singbox, "e", up, down, 0⟩

/-- With `bob`, who has no limit. -/
def withBob : Db :=
  { limited with
    users := limited.users.put ⟨8, "bob", "v", "q", true, 0, 0, none⟩
    traffic := limited.traffic.put ⟨1, 8, .singbox, 0, 0, 0, 0, "e"⟩ }

/-- `alice` is idle and `bob` is charged 100 bytes. -/
theorem idle_stays_quiet : ∃ specHash, Injective specHash ∧
    Always (Registry.step plainEnv specHash 1) (StaysQuiet plainEnv specHash 1)
      (pushWithContext plainEnv specHash 1 ⟨withBob, []⟩ plainCall).1
      [.record ⟨1, 8, .singbox, "e", 60, 40, 0⟩, .reconcile plainCall] := by
  obtain ⟨specHash, hinj⟩ := exists_injective_hash
  refine ⟨specHash, hinj, (quiet_iff_totals_kept plainEnv specHash hinj 1 ⟨withBob, []⟩ _ plainCall
    rfl _ ?_).mpr ⟨trivial, Or.inr ?_, trivial⟩⟩
  · exact ⟨trivial, rfl, trivial⟩
  · intro u hu hlimit
    rcases mem_cons.mp hu with rfl | hu
    · rfl
    · obtain rfl : u = ⟨8, "bob", "v", "q", true, 0, 0, none⟩ := mem_singleton.mp hu
      exact absurd hlimit (by decide)

/-- 100 bytes of `alice`, who stays below the limit and active: the next tick pushes. -/
theorem traffic_repushes : ∃ specHash, Injective specHash ∧
    pushWithContext plainEnv specHash 1 ⟨limited, []⟩ plainCall = (limitedPushed specHash, .ok ()) ∧
    Always (Registry.step plainEnv specHash 1) (SameActive 1 (limitedPushed specHash).db 0)
      (limitedPushed specHash) [.record (aliceAt 60 40), .reconcile plainCall] ∧
    ¬ Always (Registry.step plainEnv specHash 1) (StaysQuiet plainEnv specHash 1)
      (limitedPushed specHash) [.record (aliceAt 60 40), .reconcile plainCall] := by
  obtain ⟨specHash, hinj⟩ := exists_injective_hash
  refine ⟨specHash, hinj, limited_push specHash, ⟨trivial, rfl, trivial⟩, ?_⟩
  rintro ⟨-, hquiet, -⟩
  obtain ⟨base, spec, hbuild, hstart, husers, hinbounds⟩ := sincePush_start (limited_push specHash)
  have halice : (⟨7, "alice", "u", "p", true, 500, 0, none⟩ : User) ∈ base.activeUsers 1 0 :=
    husers ▸ mem_singleton.mpr rfl
  have hids : base.activeIds 1 plainCall.now = [7] := by
    rw [Db.activeIds, ← husers]
    rfl
  rcases (reconcile_iff hinj hbuild (sincePush_record (aliceAt 60 40) hstart)
    (Eq.trans rfl hids.symm)).1.mp hquiet with hnone | hkept
  · have hdisabled := hnone plainInbound (hinbounds ▸ mem_singleton.mpr rfl) rfl
    cases hdisabled
  · have hused : (100 : ℤ) = 0 := hkept _ halice (by decide)
    cases hused

end Honey.Master
