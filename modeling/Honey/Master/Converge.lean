import Honey.Master.Push
import Honey.Schemes.Delivery

/-! Concurrent pushes of one node (`registry.rs`): what the database says was applied, against what the agent runs.

        push     build -> start -> Apply ⋯ reply -> finish
        agent                  +> execute +
        others   change the database, build, push

    No lock spans these steps. The applied hash is written when a reply comes back, so it tells what the agent runs as
    long as no reply of the last successful Apply is lost, no Apply runs after its push has given up on it, and no push
    finishes for an Apply that a recorded one has replaced (`unchanged_means_applied`). -/

namespace Honey.Master
open Honey.Schemes Table Option Function

/-- The applied hash in the row of the node. -/
def appliedHash (db : Db) (node : Uuid) : Option String :=
  (db.nodes.find? node).bind (·.appliedSpecHash)

/-- The pushes of one node, each an order to its agent. -/
structure Pushing where
  db : Db
  wire : Wire NodeSpec

/-- Any other write to the database: only `finish_node_push` writes an applied hash. -/
structure Mutation where
  run : Db → Db
  keeps : ∀ db node, appliedHash (run db) node = none ∨ appliedHash (run db) node = appliedHash db node

inductive PushEv where
  | mutate (m : Mutation)
  /-- `reconcile_push` up to its comparison; a push that it decides for is one of its own. -/
  | check (c : Call)
  | build (c : Call)
  /-- `start_node_push`, and the Apply is sent. -/
  | start (i : ℕ)
  | execute (i : ℕ) (ok : Bool)
  | reply (i : ℕ)
  /-- The call fails on the side of the master, whatever becomes of the Apply. -/
  | lose (i : ℕ)
  | finish (i : ℕ)
  /-- The push ends without its `finish_node_push`. -/
  | abort (i : ℕ)

section

variable (env : Env) (specHash : NodeSpec → String) (node : Uuid)

def Pushing.step (p : Pushing) : PushEv → Pushing
  | .mutate m => { p with db := m.run p.db }
  | .check c => { p with db := (buildNodeSpec env c.keys p.db node c.now).1 }
  | .build c => match buildNodeSpec env c.keys p.db node c.now with
      | (db, .error _) => { p with db := db }
      | (db, .ok spec) => ⟨db, p.wire.place spec⟩
  | .start i => match p.wire.orders[i]? with
      | some ⟨spec, .opened, .unsent⟩ => match startNodePush p.db node (specHash spec) with
          | .error _ => { p with wire := p.wire.move i Order.close }
          | .ok db => ⟨db, p.wire.move i Order.send⟩
      | _ => p
  | .execute i ok => { p with wire := p.wire.execute i ok }
  | .reply i => { p with wire := p.wire.move i Order.reply }
  | .lose i => { p with wire := p.wire.move i Order.lose }
  | .finish i => match p.wire.orders[i]? with
      | some ⟨spec, .answered ok, _⟩ =>
        ⟨finishNodePush p.db node (specHash spec) (if ok then .applied else .failed), p.wire.move i Order.close⟩
      | _ => p
  | .abort i => { p with wire := p.wire.move i Order.close }

/-- With no push in flight, a reconcile that finds nothing to do finds what the agent runs. -/
def Pushing.Converged (p : Pushing) : Prop :=
  p.wire.Idle → ∀ deferred c db spec, buildNodeSpec env c.keys p.db node c.now = (db, .ok spec) →
    (reconcilePush env specHash node ⟨p.db, deferred⟩ c).2 = .ok .unchanged →
    p.wire.held = some spec

end

/-- An Apply succeeds only while its push waits for it; the reply of the last successful one is neither
    lost nor left unrecorded; and a push is recorded only if its Apply is the last successful one, or the
    push of that one is still to be recorded. -/
def Pushing.Orderly (p : Pushing) : PushEv → Prop
  | .execute i true => p.wire.stage i = some .waiting
  | .lose i => p.wire.current ≠ some i
  | .abort i => p.wire.current ≠ some i
  | .finish i => p.wire.stage i = some (.answered true) → p.wire.current = some i ∨ p.wire.Live
  | _ => True

/-! ### What the steps do to the applied hash -/

theorem buildNodeSpec_nodes (env : Env) (keys : Keys) (db : Db) (node : Uuid) (now : ℤ) :
    (buildNodeSpec env keys db node now).1.nodes = db.nodes := by
  rw [buildNodeSpec]
  rcases buildInbounds env db node now with e | ⟨active, inbounds⟩
  · rfl
  rcases enabledWgInterfaces env db node with e | ifaces
  · rfl
  · rcases hw : buildWireguard env keys active db.wgPeers ifaces with ⟨peers, e | wireguard⟩
    · simp [hw]
    · simp [hw]

theorem appliedHash_build (env : Env) (keys : Keys) (db : Db) (node : Uuid) (now : ℤ) :
    appliedHash (buildNodeSpec env keys db node now).1 node = appliedHash db node := by
  rw [appliedHash, buildNodeSpec_nodes, appliedHash]

theorem appliedHash_put {db : Db} {node : Uuid} {n n' : Node} (hn : db.nodes.find? node = some n)
    (hid : n'.id = n.id) : appliedHash { db with nodes := db.nodes.put n' } node = n'.appliedSpecHash := by
  obtain ⟨-, rfl⟩ := find?_eq_some.mp hn
  rw [appliedHash, find?_put, if_pos hid.symm]
  rfl

theorem appliedHash_start {db db' : Db} {node : Uuid} {hash : String}
    (h : startNodePush db node hash = .ok db') : appliedHash db' node = appliedHash db node := by
  rw [startNodePush] at h
  rcases hn : db.nodes.find? node with _ | n
  · rw [hn] at h
    cases h
  rw [hn] at h
  rw [← Except.ok.inj h, appliedHash_put hn, appliedHash, hn]
  · rfl
  · rfl

theorem appliedHash_failed (db : Db) (node : Uuid) (hash : String) :
    appliedHash (finishNodePush db node hash .failed) node = appliedHash db node := by
  rcases hn : db.nodes.find? node with _ | n
  · simp [finishNodePush, hn]
  simp only [finishNodePush, hn]
  rw [appliedHash_put hn, appliedHash, hn]
  · rfl
  · rfl

theorem appliedHash_applied (db : Db) (node : Uuid) (hash : String) :
    appliedHash (finishNodePush db node hash .applied) node = some hash ∨
      appliedHash (finishNodePush db node hash .applied) node = none := by
  rcases hn : db.nodes.find? node with _ | n
  · right
    simp [finishNodePush, hn, appliedHash]
  left
  simp only [finishNodePush, hn]
  rw [appliedHash_put hn]
  · rfl
  · rfl

section

variable {env : Env} {specHash : NodeSpec → String} {node : Uuid} {p : Pushing}

/-- The record of the pushes is right, or will be. -/
def Pushing.Inv (specHash : NodeSpec → String) (node : Uuid) (p : Pushing) : Prop :=
  Kept specHash p.wire (appliedHash p.db node)

theorem inv_start (i : ℕ) (h : p.Inv specHash node) : (p.step env specHash node (.start i)).Inv specHash node := by
  rw [Pushing.step]
  split
  · rename_i spec ho
    rcases hs : startNodePush p.db node (specHash spec) with e | db
    · refine kept_close h fun o _ ho' hlive => ?_
      obtain rfl := some.inj (ho.symm.trans ho')
      rcases hlive with hc | ⟨hc, -⟩ <;> cases hc
    · rw [Pushing.Inv, appliedHash_start hs]
      exact kept_send h
  · exact h

theorem inv_finish (i : ℕ) (h : p.Inv specHash node) (hok : p.Orderly (.finish i)) :
    (p.step env specHash node (.finish i)).Inv specHash node := by
  rw [Pushing.step]
  split
  · rename_i spec ok r ho
    cases ok with
    | true =>
      have hkept : Kept specHash (p.wire.move i Order.close) (some (specHash spec)) :=
        kept_finish (by rw [Wire.body, ho]; rfl) (hok (by rw [Wire.stage, ho]; rfl))
      rw [Pushing.Inv]
      rcases appliedHash_applied p.db node (specHash spec) with ha | ha
      · exact ha ▸ hkept
      · exact ha ▸ kept_forget hkept
    | false =>
      rw [Pushing.Inv]
      refine (appliedHash_failed p.db node _).symm ▸ kept_close h fun o _ ho' hlive => ?_
      obtain rfl := some.inj (ho.symm.trans ho')
      rcases hlive with hc | ⟨hc, -⟩ <;> cases hc
  · exact h

theorem inv_step (p : Pushing) (e : PushEv) (h : p.Inv specHash node) (hok : p.Orderly e) :
    (p.step env specHash node e).Inv specHash node := by
  cases e with
  | mutate m =>
    rw [Pushing.Inv]
    rcases m.keeps p.db node with hnone | hsame
    · exact hnone ▸ kept_forget h
    · exact hsame ▸ h
  | check c =>
    rw [Pushing.step, Pushing.Inv, appliedHash_build]
    exact h
  | build c =>
    have happlied := appliedHash_build env c.keys p.db node c.now
    rw [Pushing.step]
    rcases hb : buildNodeSpec env c.keys p.db node c.now with ⟨db, e | spec⟩ <;>
      rw [hb] at happlied <;> rw [Pushing.Inv, happlied]
    · exact h
    · exact kept_place spec h
  | start i => exact inv_start i h
  | execute i ok => exact kept_execute ok h fun hc => by subst hc; exact hok
  | reply i => exact kept_reply h
  | lose i => exact kept_lose h hok
  | finish i => exact inv_finish i h hok
  | abort i => exact kept_close h fun _ hc => absurd hc hok

theorem applied_of_unchanged {deferred : List Uuid} {c : Call} {db db' : Db} {spec : NodeSpec}
    (hbuild : buildNodeSpec env c.keys db node c.now = (db', .ok spec))
    (h : (reconcilePush env specHash node ⟨db, deferred⟩ c).2 = .ok .unchanged) :
    appliedHash db node = some (specHash spec) := by
  have hnodes : db'.nodes = db.nodes := by
    rw [← buildNodeSpec_nodes env c.keys db node c.now, hbuild]
  rw [reconcilePush] at h
  split at h
  · cases h
  simp only [hbuild] at h
  rcases hn : db'.nodes.find? node with _ | n
  · simp only [hn] at h
    cases h
  simp only [hn] at h
  split at h
  · rename_i heq
    rw [appliedHash, ← hnodes, hn]
    exact heq
  rcases hp : pushWithContext env specHash node ⟨db', deferred⟩ c with ⟨r', e | _⟩
  · rw [hp] at h
    cases h
  · rw [hp] at h
    cases h

theorem converged_of_inv (hinj : Injective specHash) (h : p.Inv specHash node) : p.Converged env specHash node := by
  intro hidle deferred c db spec hbuild hunchanged
  obtain ⟨b, hheld, hb⟩ := held_of_idle h hidle (applied_of_unchanged hbuild hunchanged)
  rw [hheld, hinj hb]

end

/-- From a node that was never pushed, in every run whose steps are orderly, every state converges. -/
theorem unchanged_means_applied (env : Env) (specHash : NodeSpec → String)
    (hinj : Injective specHash) (node : Uuid) (db : Db) (hnew : appliedHash db node = none) (es : List PushEv)
    (hes : Always (Pushing.step env specHash node) Pushing.Orderly ⟨db, ⟨[], none⟩⟩ es) :
    (es.foldl (Pushing.step env specHash node) ⟨db, ⟨[], none⟩⟩).Converged env specHash node := by
  have hstart : (⟨db, ⟨[], none⟩⟩ : Pushing).Inv specHash node := by
    rw [Pushing.Inv, hnew]
    exact .inr fun _ h => by cases h
  exact converged_of_inv hinj (inv_run inv_step es _ hstart hes)

/-! ### Three runs of two pushes -/

def home : Uuid := 1

/-- Node 1 with the columns of its pushes, serving its one inbound or not. -/
def homeAt (serving : Bool) (desired applied : Option String) (status : Option PushStatus) : Db :=
  { limited with
    nodes := empty.put ⟨1, "a", "192.0.2.1", true, false, desired, applied, status⟩
    inbounds := if serving then limited.inbounds else empty }

/-- What the node should run. -/
def homeSpec (serving : Bool) : NodeSpec where
  logLevel := "info"
  clashListen := "127.0.0.1:9090"
  clashSecret := ""
  inbounds := if serving then
      [⟨"singbox", "in", "vless", "::", 443, [⟨"alice", "u", "p", "", 500⟩], none, "", none, 0, 0, ""⟩]
    else []
  wireguard := []
  services := []

/-- The inbound is deleted, or created again. -/
def serve (serving : Bool) : Mutation where
  run db := { db with inbounds := if serving then limited.inbounds else empty }
  keeps _ _ := .inr rfl

section

variable (b : Bool) (d a : Option String) (st : Option PushStatus) (h : String)

theorem homeAt_build : buildNodeSpec plainEnv plainCall.keys (homeAt b d a st) home plainCall.now =
    (homeAt b d a st, .ok (homeSpec b)) := by
  cases b <;> rfl

theorem homeAt_start : startNodePush (homeAt b d a st) home h = .ok (homeAt b (some h) a (some .started)) := rfl

theorem homeAt_applied : finishNodePush (homeAt b d a st) home h .applied = homeAt b d (some h) (some .applied) := rfl

theorem homeAt_failed : finishNodePush (homeAt b d a st) home h .failed = homeAt b d a (some .failed) := rfl

theorem homeAt_serve (b' : Bool) : (serve b').run (homeAt b d a st) = homeAt b' d a st := rfl

theorem homeAt_unchanged (specHash : NodeSpec → String) :
    (reconcilePush plainEnv specHash home ⟨homeAt b d (some (specHash (homeSpec b))) st, []⟩
      plainCall).2 = .ok .unchanged := by
  have hrow : (homeAt b d (some (specHash (homeSpec b))) st).nodes.find? home =
      some ⟨1, "a", "192.0.2.1", true, false, d, some (specHash (homeSpec b)), st⟩ := rfl
  simp [reconcilePush, homeAt_build, hrow]

end

/-- The agent holds what the second push brought, the database what the first one did. -/
theorem not_converged (specHash : NodeSpec → String) (d : Option String) (st : Option PushStatus) :
    ¬ (⟨homeAt true d (some (specHash (homeSpec true))) st,
      ⟨[⟨homeSpec true, .closed, .executed true⟩, ⟨homeSpec false, .closed, .executed true⟩], some 1⟩⟩ :
        Pushing).Converged plainEnv specHash home := by
  intro hconv
  have hheld := hconv (by simp [Wire.Idle]) [] plainCall _ _ (homeAt_build true d _ st)
    (homeAt_unchanged true d st specHash)
  have hspec : homeSpec false = homeSpec true := some.inj hheld
  exact absurd hspec (by decide)

attribute [local simp] Pushing.step homeAt_build homeAt_start homeAt_applied homeAt_failed homeAt_serve Wire.place
  Wire.move Wire.execute Order.send Order.execute Order.reply Order.lose Order.close

/-- The second push replaces the first one before either is recorded. -/
def overlapping : List PushEv :=
  [.build plainCall, .start 0, .execute 0 true, .mutate (serve false), .build plainCall, .start 1,
    .execute 1 true, .reply 1, .reply 0, .finish 0, .finish 1]

theorem overlapping_converges : ∃ specHash, Injective specHash ∧
    (overlapping.foldl (Pushing.step plainEnv specHash home)
      ⟨homeAt true none none none, ⟨[], none⟩⟩).Converged plainEnv specHash home := by
  obtain ⟨specHash, hinj⟩ := exists_injective_hash
  refine ⟨specHash, hinj, unchanged_means_applied plainEnv specHash hinj home _ rfl overlapping ?_⟩
  simp [overlapping, Pushing.Orderly, Wire.stage, Wire.Live, Order.Live]

/-- The second push is executed, but its reply is lost; then the change is taken back. -/
def lostReply : List PushEv :=
  [.build plainCall, .start 0, .execute 0 true, .reply 0, .finish 0, .mutate (serve false),
    .build plainCall, .start 1, .execute 1 true, .lose 1, .finish 1, .mutate (serve true)]

/-- Two pushes are executed in one order and recorded in the other; then the change is taken back. -/
def recordedLate : List PushEv :=
  [.build plainCall, .start 0, .mutate (serve false), .build plainCall, .start 1, .execute 0 true,
    .reply 0, .execute 1 true, .reply 1, .finish 1, .finish 0, .mutate (serve true)]

theorem unchanged_but_not_applied : ∃ specHash, Injective specHash ∧
    ∀ es ∈ [lostReply, recordedLate], ¬ (es.foldl (Pushing.step plainEnv specHash home)
      ⟨homeAt true none none none, ⟨[], none⟩⟩).Converged plainEnv specHash home := by
  obtain ⟨specHash, hinj⟩ := exists_injective_hash
  refine ⟨specHash, hinj, ?_⟩
  simp only [List.mem_cons, List.not_mem_nil, or_false]
  rintro es (rfl | rfl) hconv
  · refine not_converged specHash (some (specHash (homeSpec false))) (some .failed) ?_
    simpa [lostReply] using hconv
  · refine not_converged specHash (some (specHash (homeSpec false))) (some .applied) ?_
    simpa [recordedLate] using hconv

end Honey.Master
