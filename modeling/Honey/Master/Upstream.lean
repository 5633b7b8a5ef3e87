import Honey.Master.Pushes

/-! Chains of inbounds over runs of creations, updates and deletions.

        create   checks the new exit              no depth, as nobody chains to a new inbound
        update   checks the new exit, and that its chain ends within 8 hops without coming back
        delete   takes those that chain to it off their chain

                 a --> … --> entry --> exit --> … --> z
                                 the edge that is written

    No run closes a cycle: an edge is written only if the chain of the exit does not lead back. But `core` and
    `kind` of either end can be changed afterwards, and what lies before the entry, or after the exit of a new
    inbound, is not counted. -/

namespace Honey.Master
open Honey.Schemes List Option Table

/-! ### Runs -/

/-- A request that writes inbounds, with what its handler draws. -/
inductive InboundEdit where
  | create (id : Uuid) (fresh : String × String) (input : NewInbound)
  | update (id : Uuid) (fresh : String × String) (input : UpdateInbound)
  | delete (id : Uuid)

def InboundEdit.run (b : Backend) (s : Console) : InboundEdit → Answer
  | .create id fresh input => s.createInbound b id fresh input
  | .update id fresh input => s.updateInbound b id fresh input
  | .delete id => s.deleteInbound b id

/-- A request that fails changes nothing. -/
def InboundEdit.step (b : Backend) (s : Console) (e : InboundEdit) : Console :=
  match e.run b s with
  | .ok (s', _) => s'
  | .error _ => s

variable (db : Db)

/-- The foreign key on the upstream. -/
def UpstreamsExist : Prop := ∀ a up, exitOf db a = some up → (db.inbounds.find? up).isSome

/-- An inbound that can be the exit of a chain. -/
def FitExit (up : Uuid) : Prop :=
  ∃ exit, db.inbounds.find? up = some exit ∧ exit.core = "singbox" ∧ exit.kind ∈ chainable

/-! ### What an accepted request does to the chains -/

section

variable {b : Backend} {db : Db} {s s' : Console} {ids : List Uuid} {id : Uuid} {fresh : String × String}

theorem FitExit.isSome {up : Uuid} (h : FitExit db up) : (db.inbounds.find? up).isSome := by
  obtain ⟨exit, hfind, -⟩ := h
  exact isSome_iff_exists.mpr ⟨exit, hfind⟩

theorem find?_readable {env : Env} {a : Uuid} {ib : Inbound}
    (h : (db.readable env).inbounds.find? a = some ib) : db.inbounds.find? a = some ib := by
  have hkeep : (db.inbounds.find? a).filter _ = some ib := find?_keep.symm.trans h
  exact (filter_eq_some_iff.mp hkeep).1

theorem followChain_readable {env : Env} {self : Uuid} : ∀ {n : ℕ} {hop : Option Uuid},
    followChain (db.readable env) self n hop = .ok none → followChain db self n hop = .ok none
  | 0, _, h => h
  | _ + 1, none, h => h
  | n + 1, some next, h => by
    rw [followChain] at h ⊢
    split at h
    · cases h
    rename_i hne
    rw [if_neg hne]
    split at h
    · rename_i hfind
      rw [find?_readable hfind]
      exact followChain_readable h
    · cases h

theorem validateUpstream_new {upstream : Option Uuid} {core : String}
    (h : validateUpstream db upstream none core = .ok ()) {up : Uuid} (hup : upstream = some up) :
    core ≠ "xray" ∧ FitExit db up := by
  subst hup
  simp only [validateUpstream, then_eq_ok, reject_eq_ok, decide_eq_false_iff_not] at h
  refine ⟨h.1, ?_⟩
  cases hfind : db.inbounds.find? up with
  | none => simp [hfind] at h
  | some exit =>
    simp only [hfind, then_eq_ok, reject_eq_ok, decide_eq_false_iff_not, not_not] at h
    exact ⟨exit, hfind, h.2.2.1, h.2.2.2.1⟩

theorem exitOf_delete {a up : Uuid} :
    exitOf (db.withInbound id none) a = some up ↔ a ≠ id ∧ up ≠ id ∧ exitOf db a = some up := by
  by_cases ha : a = id
  · subst ha
    rw [exitOf, find?_withInbound_self (by simp)]
    simp
  rw [exitOf, find?_withInbound ha (by simp), exitOf]
  rcases db.inbounds.find? a with _ | ib
  · simp
  simp only [map_some, Inbound.afterRow, upstreamAfter]
  by_cases hup : ib.upstreamInboundId = some id
  · simp [hup, eq_comm]
  · simp only [hup, ha, ne_eq, not_false_eq_true, true_and]
    exact ⟨fun h => ⟨fun heq => hup (heq ▸ h), h⟩, And.right⟩

/-- What an edge has passed when it is written: both ends are fit for it, and it closes no cycle. -/
structure EdgeChecked (db : Db) (row : Inbound) (up : Uuid) : Prop where
  core : row.core = "singbox"
  exit : FitExit db up
  back : Redirects (exitOf db) (exitOf { db with inbounds := db.inbounds.put row }) row.id up

theorem core_of_writeInbound {row : Inbound} (h : writeInbound db row = .ok (db.putRow row))
    (hcore : row.core ≠ "xray") : row.core = "singbox" := by
  have hchecks := (writeInbound_ok h).1
  simp only [inboundChecks, Bool.and_eq_true, decide_eq_true_eq, mem_cons, not_mem_nil, or_false] at hchecks
  exact hchecks.1.1.2.resolve_right hcore

/-- A new inbound: nobody chains to it yet. -/
theorem created (hlinks : UpstreamsExist s.db) {input : NewInbound}
    (h : s.createInbound b id fresh input = .ok (s', ids)) :
    ∃ row, row.id = id ∧ s.db.inbounds.find? id = none ∧ s'.db = s.db.putRow row ∧
      row.upstreamInboundId = input.upstreamInboundId ∧
      ∀ up, row.upstreamInboundId = some up → EdgeChecked s.db row up := by
  obtain ⟨-, hup, hnew, row, hrow, hput⟩ := Console.createInbound_eq_ok.mp h
  obtain ⟨hwrite, rfl, -⟩ := putInbound_eq_ok.mp hput
  obtain ⟨hid, hrowup, hrowcore⟩ : row.id = id ∧ row.upstreamInboundId = input.upstreamInboundId ∧
      row.core = input.core := by
    obtain ⟨_, _, rfl⟩ := sealed_eq hrow
    exact ⟨rfl, rfl, rfl⟩
  refine ⟨row, hid, hnew, rfl, hrowup, fun up hto => ?_⟩
  obtain ⟨hcore, exit, hfind, hexit⟩ := validateUpstream_new hup (hrowup.symm.trans hto)
  have hfind := find?_readable hfind
  refine ⟨core_of_writeInbound hwrite (hrowcore ▸ hcore), ⟨exit, hfind, hexit⟩, fun a ha => ?_, ?_, fun k hk => ?_⟩
  · rw [exitOf_put, if_neg ha]
  · rw [exitOf_put, if_pos rfl, hto]
  · -- a chain that ends here would end at an inbound that is there
    rw [hid] at hk
    have hsome : (s.db.inbounds.find? id).isSome := by
      cases k with
      | zero =>
        obtain rfl := some.inj hk
        exact isSome_iff_exists.mpr ⟨exit, hfind⟩
      | succ k =>
        obtain ⟨a, -, ha⟩ := walk_succ_eq_some.mp hk
        exact hlinks a id ha
    rw [hnew] at hsome
    cases hsome

/-- An update: the exit stays, goes or is a new one. -/
theorem updated {input : UpdateInbound} (h : s.updateInbound b id fresh input = .ok (s', ids)) :
    ∃ stored row, s.db.inbounds.find? id = some stored ∧ row.id = id ∧ validateUpdateInbound input = .ok () ∧
      s'.db = s.db.putRow row ∧ row.upstreamInboundId = input.upstreamInboundId.over stored.upstreamInboundId ∧
      row.core = input.core.getD stored.core ∧ row.kind = input.kind.getD stored.kind ∧
      ∀ up, input.upstreamInboundId = .value up → EdgeChecked s.db row up := by
  obtain ⟨hvalid, stored, current, row, hstored, hcurrent, hcheck, hrow, hput⟩ := Console.updateInbound_eq_ok.mp h
  obtain ⟨hwrite, rfl, -⟩ := putInbound_eq_ok.mp hput
  obtain ⟨hid, hrowup, hrowcore, hrowkind⟩ : row.id = id ∧
      row.upstreamInboundId = input.upstreamInboundId.over stored.upstreamInboundId ∧
      row.core = input.core.getD stored.core ∧ row.kind = input.kind.getD stored.kind := by
    obtain ⟨_, _, _, rfl⟩ := sealedRow_eq hrow
    exact ⟨(find?_eq_some.mp hstored).2, rfl, rfl, rfl⟩
  refine ⟨stored, row, hstored, hid, hvalid, rfl, hrowup, hrowcore, hrowkind, fun up hup => ?_⟩
  have hopened : current.id = row.id ∧ current.core = stored.core := by
    obtain ⟨_, -, hcurrent⟩ := bind_eq_ok.mp hcurrent
    obtain ⟨_, -, hcurrent⟩ := bind_eq_ok.mp hcurrent
    obtain rfl := Except.ok.inj hcurrent
    exact ⟨(find?_eq_some.mp hstored).2.trans hid.symm, rfl⟩
  have hchain := (then_eq_ok.mp hcheck).2
  simp only [hup] at hchain
  obtain ⟨hcore, hne, exit, hfind, hsingbox, hkind, hwalk⟩ := validateUpstream_eq_ok.mp hchain up rfl
  rw [hopened.1] at hne hwalk
  rw [hopened.2, ← hrowcore] at hcore
  have hfind := find?_readable hfind
  exact ⟨core_of_writeInbound hwrite hcore, ⟨exit, hfind, hsingbox, hkind⟩,
    redirects_put (by rw [hrowup, hup]; rfl) hne hfind (followChain_readable hwalk)⟩

/-! ### No cycles -/

theorem upstreamsExist_put {row : Inbound} (h : UpstreamsExist db)
    (hrow : ∀ up, row.upstreamInboundId = some up → (db.inbounds.find? up).isSome) :
    UpstreamsExist (db.putRow row) := by
  intro a up hup
  have hold : (db.inbounds.find? up).isSome := by
    rw [exitOf_put] at hup
    split at hup
    · exact hrow up hup
    · exact h a up hup
  rw [find?_put]
  split
  · rfl
  · exact hold

theorem exitOf_put_same {row stored : Inbound} (hstored : db.inbounds.find? row.id = some stored)
    (h : row.upstreamInboundId = stored.upstreamInboundId) : exitOf (db.putRow row) = exitOf db := by
  funext a
  rw [exitOf_put]
  split
  · rename_i ha
    rw [ha, exitOf, hstored, bind_some, h]
  · rfl

theorem InboundEdit.keeps_acyclic {e : InboundEdit} (h : e.run b s = .ok (s', ids)) (hac : Acyclic s.db)
    (hlinks : UpstreamsExist s.db) : Acyclic s'.db ∧ UpstreamsExist s'.db := by
  rw [acyclic_iff] at hac ⊢
  cases e with
  | create id fresh input =>
    obtain ⟨row, -, -, hdb, -, hedge⟩ := created hlinks h
    rw [hdb]
    constructor
    · cases hup : row.upstreamInboundId with
      | none => exact hac.mono (exitOf_put_none hup)
      | some up => exact (hedge up hup).back.loopless hac
    · exact upstreamsExist_put hlinks fun up hup => (hedge up hup).exit.isSome
  | update id fresh input =>
    obtain ⟨stored, row, hstored, hid, -, hdb, hrowup, -, -, hedge⟩ := updated h
    rw [hdb]
    obtain rfl := hid
    cases hpatch : input.upstreamInboundId with
    | missing =>
      rw [hpatch, Patch.over] at hrowup
      rw [exitOf_put_same hstored hrowup]
      refine ⟨hac, upstreamsExist_put hlinks fun up hup => hlinks row.id up ?_⟩
      rw [exitOf, hstored, bind_some, ← hrowup, hup]
    | null =>
      rw [hpatch] at hrowup
      refine ⟨hac.mono (exitOf_put_none hrowup), upstreamsExist_put hlinks fun up hup => ?_⟩
      rw [hrowup] at hup
      cases hup
    | value up =>
      rw [hpatch] at hrowup
      have hchecked := hedge up hpatch
      refine ⟨hchecked.back.loopless hac, upstreamsExist_put hlinks fun up' hup' => ?_⟩
      obtain rfl := some.inj (hrowup.symm.trans hup')
      exact hchecked.exit.isSome
  | delete id =>
    obtain ⟨stored, -, hdb, -⟩ := Console.deleteInbound_ok h
    rw [hdb]
    refine ⟨hac.mono fun a up hup => (exitOf_delete.mp hup).2.2, fun a up hup => ?_⟩
    obtain ⟨-, hne, hold⟩ := exitOf_delete.mp hup
    rw [find?_withInbound hne (by simp), isSome_map]
    exact hlinks a up hold

theorem InboundEdit.step_acyclic (b : Backend) (s : Console) (e : InboundEdit)
    (h : Acyclic s.db ∧ UpstreamsExist s.db) : Acyclic (e.step b s).db ∧ UpstreamsExist (e.step b s).db := by
  rw [InboundEdit.step]
  split
  · rename_i hrun
    exact e.keeps_acyclic hrun h.1 h.2
  · exact h

end

/-- From tables whose chains have no cycle, as the empty ones, no run of creations, updates and deletions makes one. -/
theorem upstreams_stay_acyclic (b : Backend) (s : Console) (hac : Acyclic s.db) (hlinks : UpstreamsExist s.db)
    (es : List InboundEdit) : Acyclic (es.foldl (fun s e => e.step b s) s).db := by
  have hrun := inv_foldl (InboundEdit.step_acyclic b) es s ⟨hac, hlinks⟩
  exact hrun.1

/-- A node without inbounds. -/
def freshNode : Console where
  users := { noUsers with db := oneNode, usernames := nodup_nil }
  groups := Table.empty
  versions := []
  routingProfiles := []

theorem exitOf_freshNode (a : Uuid) : exitOf freshNode.db a = none := rfl

theorem freshNode_acyclic : Acyclic freshNode.db := acyclic_iff.mpr fun _ _ h => by simp [walk, exitOf_freshNode] at h

def createExit : InboundEdit := .create 2 ("", "") { vlessRequest with tag := "out", listenPort := 444 }

def createEntry : InboundEdit := .create 1 ("c", "p") { vlessRequest with upstreamInboundId := some 2 }

/-- The exit alone. -/
def exitOnly : Console := freshNode.withDb { oneNode with inbounds := Table.empty.put exitRow } rfl

/-- The exit, and an inbound that is chained to it. -/
def chained : Console := freshNode.withDb { oneNode with inbounds := (Table.empty.put exitRow).put chainedRow } rfl

theorem run_createExit : createExit.run plainBackend freshNode = .ok (exitOnly, [7]) := by
  refine Console.createInbound_eq_ok.mpr ⟨by decide, rfl, rfl, exitRow, rfl, putInbound_eq_ok.mpr ⟨?_, rfl, rfl⟩⟩
  exact writeInbound_alone (by decide) (fun _ h => absurd h not_mem_nil) nofun rfl

theorem run_createEntry : createEntry.run plainBackend exitOnly = .ok (chained, [7]) := by
  refine Console.createInbound_eq_ok.mpr ⟨by decide, by decide, rfl, chainedRow, rfl,
    putInbound_eq_ok.mpr ⟨?_, rfl, rfl⟩⟩
  exact writeInbound_passes (by decide) (by decide) nofun fun _ h => some.inj h ▸ nofun

theorem InboundEdit.step_of_run {b : Backend} {s s' : Console} {ids : List Uuid} {e : InboundEdit}
    (h : e.run b s = .ok (s', ids)) : e.step b s = s' := by
  rw [InboundEdit.step, h]

/-- An inbound chained to another one. -/
theorem chained_acyclic : exitOf chained.db 1 = some 2 ∧
    [createExit, createEntry].foldl (fun s e => e.step plainBackend s) freshNode = chained ∧
    Acyclic ([createExit, createEntry].foldl (fun s e => e.step plainBackend s) freshNode).db := by
  refine ⟨rfl, ?_, upstreams_stay_acyclic plainBackend freshNode freshNode_acyclic
    (fun _ _ h => by simp [exitOf_freshNode] at h) _⟩
  rw [foldl_cons, foldl_cons, foldl_nil, InboundEdit.step_of_run run_createExit,
    InboundEdit.step_of_run run_createEntry]

/-! ### Chains that are served -/

/-- Both ends of every edge are on sing-box, and the exit speaks a protocol that can be one. -/
def EndsFit : Prop :=
  ∀ ib ∈ db.inbounds.rows, ∀ up, ib.upstreamInboundId = some up → ib.core = "singbox" ∧ FitExit db up

/-- The first hop of a chain leads to its exit; at most 8 follow. -/
def ShortChains : Prop := ∀ ib ∈ db.inbounds.rows, walk (exitOf db) 10 ib.id = none

def ChainsServed : Prop := EndsFit db ∧ ShortChains db

/-- `j` hops to `id`, the edge to `up`, and `k` hops from there are no more than 9. -/
def ShortThrough (id up : Uuid) : Prop :=
  ∀ a j k, walk (exitOf db) j a = some id → (walk (exitOf db) k up).isSome → j + k ≤ 8

/-- What the checks leave out: the chains that a new edge makes longer, the core of an entry that stays one, and
    the core and the protocol of an exit. -/
def InboundEdit.Fits : InboundEdit → Prop
  | .create id _ input => ∀ up, input.upstreamInboundId = some up → ShortThrough db id up
  | .update id _ input => (∀ up, input.upstreamInboundId = .value up → ShortThrough db id up) ∧
      (input.upstreamInboundId = .missing → (exitOf db id).isSome → input.core ≠ some "xray") ∧
      ((∃ a, exitOf db a = some id) → input.core ≠ some "xray" ∧ ∀ kind, input.kind = some kind → kind ∈ chainable)
  | .delete _ => True

section

variable {b : Backend} {db : Db} {s s' : Console} {ids : List Uuid} {id : Uuid} {row : Inbound}

theorem endsFit_at (h : EndsFit db) {a up : Uuid} (hup : exitOf db a = some up) :
    ∃ ib, db.inbounds.find? a = some ib ∧ ib.core = "singbox" ∧ FitExit db up := by
  obtain ⟨ib, hfind, hib⟩ := bind_eq_some_iff.mp hup
  exact ⟨ib, hfind, h ib (find?_eq_some.mp hfind).1 up hib⟩

theorem shortChains_iff : ShortChains db ↔ Ends (exitOf db) 10 := by
  constructor
  · intro h a
    cases hfind : db.inbounds.find? a with
    | none => rw [walk, exitOf, hfind]; rfl
    | some ib =>
      obtain ⟨hib, rfl⟩ := find?_eq_some.mp hfind
      exact h ib hib
  · exact fun h ib _ => h ib.id

theorem upstreamsExist_of_fit (h : EndsFit db) : UpstreamsExist db := by
  intro a up hup
  obtain ⟨-, -, -, hexit⟩ := endsFit_at h hup
  exact hexit.isSome

/-- Writing a row: it is an entry that has to fit, and an exit if somebody chains to it. -/
theorem endsFit_put_iff (h : EndsFit db) (hself : exitOf db row.id ≠ some row.id)
    (hnew : row.upstreamInboundId ≠ some row.id) : EndsFit (db.putRow row) ↔
      (∀ up, row.upstreamInboundId = some up → row.core = "singbox" ∧ FitExit db up) ∧
      ((∃ a, exitOf db a = some row.id) → row.core = "singbox" ∧ row.kind ∈ chainable) := by
  have hother : ∀ up, up ≠ row.id → (FitExit (db.putRow row) up ↔ FitExit db up) := by
    intro up hne
    rw [FitExit, FitExit, find?_put_of_ne hne]
  have hrow : FitExit (db.putRow row) row.id ↔ row.core = "singbox" ∧ row.kind ∈ chainable := by
    rw [FitExit]
    simp
  constructor
  · intro hput
    constructor
    · intro up hup
      obtain ⟨hcore, hexit⟩ := hput row (mem_put.mpr (.inl rfl)) up hup
      have hne : up ≠ row.id := fun heq => hnew (heq ▸ hup)
      exact ⟨hcore, (hother up hne).mp hexit⟩
    · rintro ⟨a, ha⟩
      obtain ⟨ib, hfind, hib⟩ := bind_eq_some_iff.mp ha
      obtain ⟨hmem, rfl⟩ := find?_eq_some.mp hfind
      have hne : ib.id ≠ row.id := fun heq => hself (heq ▸ ha)
      exact hrow.mp (hput ib (mem_put.mpr (.inr ⟨hmem, hne⟩)) row.id hib).2
  · rintro ⟨hentry, hexit⟩ ib hib up hup
    rcases mem_put.mp hib with rfl | ⟨hmem, -⟩
    · have hne : up ≠ ib.id := fun heq => hnew (heq ▸ hup)
      exact ⟨(hentry up hup).1, (hother up hne).mpr (hentry up hup).2⟩
    refine ⟨(h ib hmem up hup).1, ?_⟩
    by_cases heq : up = row.id
    · subst heq
      refine hrow.mpr (hexit ⟨ib.id, ?_⟩)
      rw [exitOf, find?_eq_some.mpr ⟨hmem, rfl⟩, bind_some, hup]
    · exact (hother up heq).mpr (h ib hmem up hup).2

/-- A new edge keeps the chains short exactly if those through it are. -/
theorem shortChains_put_iff {up : Uuid} (hac : Loopless (exitOf db)) (hshort : ShortChains db)
    (hedge : EdgeChecked db row up) : ShortChains (db.putRow row) ↔ ShortThrough db row.id up := by
  rw [shortChains_iff] at hshort
  rw [shortChains_iff, hedge.back.ends_iff hac hshort]
  refine forall_congr' fun a => forall_congr' fun j => forall_congr' fun k => forall_congr' fun _ =>
    forall_congr' fun _ => ?_
  omega

theorem EdgeChecked.ne {up : Uuid} (h : EdgeChecked db row up) : up ≠ row.id :=
  fun heq => h.back.back 0 (congrArg some heq)

theorem created_served_iff {fresh : String × String} {input : NewInbound}
    (h : s.createInbound b id fresh input = .ok (s', ids)) (hac : Loopless (exitOf s.db)) (hs : ChainsServed s.db) :
    ChainsServed s'.db ↔ (InboundEdit.create id fresh input).Fits s.db := by
  have hlinks := upstreamsExist_of_fit hs.1
  obtain ⟨row, rfl, hnew, hdb, hrowup, hedge⟩ := created hlinks h
  have hnobody : ¬ ∃ a, exitOf s.db a = some row.id := by
    rintro ⟨a, ha⟩
    have hsome := hlinks a row.id ha
    rw [hnew] at hsome
    cases hsome
  have hends : EndsFit s'.db := by
    rw [hdb, endsFit_put_iff hs.1 (fun hself => hnobody ⟨_, hself⟩) fun hup => (hedge _ hup).ne rfl]
    exact ⟨fun up hup => ⟨(hedge up hup).core, (hedge up hup).exit⟩, fun hany => absurd hany hnobody⟩
  rw [ChainsServed, and_iff_right hends, hdb, InboundEdit.Fits, ← hrowup]
  cases hup : row.upstreamInboundId with
  | none =>
    have hshort := (shortChains_iff.mp hs.2).mono (exitOf_put_none hup)
    simpa using shortChains_iff.mpr hshort
  | some up =>
    rw [shortChains_put_iff hac hs.2 (hedge up hup)]
    simp

theorem core_patched {input : UpdateInbound} (hvalid : validateUpdateInbound input = .ok ()) :
    input.core.getD "singbox" = "singbox" ↔ input.core ≠ some "xray" := by
  have hcore : input.core.any (· ∉ ["singbox", "xray"]) = false :=
    reject_eq_ok.mp (then_eq_ok.mp (then_eq_ok.mp hvalid).2).1
  rcases hc : input.core with _ | core
  · simp
  rw [hc] at hcore
  have hmem : core = "singbox" ∨ core = "xray" := by simpa [or_iff_not_imp_left] using hcore
  rcases hmem with rfl | rfl <;> simp

theorem updated_served_iff {fresh : String × String} {input : UpdateInbound}
    (h : s.updateInbound b id fresh input = .ok (s', ids)) (hac : Loopless (exitOf s.db)) (hs : ChainsServed s.db) :
    ChainsServed s'.db ↔ (InboundEdit.update id fresh input).Fits s.db := by
  obtain ⟨stored, row, hstored, rfl, hvalid, hdb, hrowup, hrowcore, hrowkind, hedge⟩ := updated h
  have hself : exitOf s.db row.id ≠ some row.id := fun hloop => hac 0 row.id (by rw [walk, hloop]; rfl)
  have hold : exitOf s.db row.id = stored.upstreamInboundId := by rw [exitOf, hstored, bind_some]
  -- an exit fits as it is stored, so that only what the patch brings counts
  have hexit : ((∃ a, exitOf s.db a = some row.id) → row.core = "singbox" ∧ row.kind ∈ chainable) ↔
      ((∃ a, exitOf s.db a = some row.id) →
        input.core ≠ some "xray" ∧ ∀ kind, input.kind = some kind → kind ∈ chainable) := by
    refine imp_congr_right ?_
    rintro ⟨a, ha⟩
    obtain ⟨-, -, -, exit, hfind, hcore, hkind⟩ := endsFit_at hs.1 ha
    obtain rfl := some.inj (hstored.symm.trans hfind)
    rw [hrowcore, hrowkind, hcore, core_patched hvalid]
    cases input.kind <;> simp [hkind]
  have hnew : row.upstreamInboundId ≠ some row.id := by
    cases hpatch : input.upstreamInboundId with
    | missing => rwa [hrowup, hpatch, ← hold]
    | null => simp [hrowup, hpatch, Patch.over]
    | value up => simpa [hrowup, hpatch, Patch.over] using (hedge up hpatch).ne
  rw [ChainsServed, hdb, endsFit_put_iff hs.1 hself hnew, hexit, InboundEdit.Fits]
  cases hpatch : input.upstreamInboundId with
  | missing =>
    rw [hpatch] at hrowup
    have hshort : ShortChains (s.db.putRow row) := by
      rw [shortChains_iff, exitOf_put_same hstored hrowup]
      exact shortChains_iff.mp hs.2
    have hentry : (∀ up, row.upstreamInboundId = some up → row.core = "singbox" ∧ FitExit s.db up) ↔
        ((exitOf s.db row.id).isSome → input.core ≠ some "xray") := by
      rw [hrowup, ← hold]
      constructor
      · intro hall hsome
        obtain ⟨up, hup⟩ := isSome_iff_exists.mp hsome
        obtain ⟨ib, hfind, hcore, -⟩ := endsFit_at hs.1 hup
        obtain rfl := some.inj (hstored.symm.trans hfind)
        have hnewcore := (hall up hup).1
        rwa [hrowcore, hcore, core_patched hvalid] at hnewcore
      · intro hcore up hup
        obtain ⟨ib, hfind, hib, hexit⟩ := endsFit_at hs.1 hup
        obtain rfl := some.inj (hstored.symm.trans hfind)
        rw [hrowcore, hib, core_patched hvalid]
        exact ⟨hcore (isSome_iff_exists.mpr ⟨up, hup⟩), hexit⟩
    rw [hentry]
    simp [hshort]
  | null =>
    rw [hpatch, Patch.over] at hrowup
    have hshort := shortChains_iff.mpr ((shortChains_iff.mp hs.2).mono (exitOf_put_none hrowup))
    simp [hrowup, hshort]
  | value up =>
    rw [hpatch] at hrowup
    have hchecked := hedge up hpatch
    have hentry : ∀ up', row.upstreamInboundId = some up' → row.core = "singbox" ∧ FitExit s.db up' := by
      intro up' hup'
      obtain rfl := some.inj (hrowup.symm.trans hup')
      exact ⟨hchecked.core, hchecked.exit⟩
    rw [shortChains_put_iff hac hs.2 hchecked, and_iff_right hentry]
    simp [and_comm]

theorem deleted_served (h : s.deleteInbound b id = .ok (s', ids)) (hs : ChainsServed s.db) : ChainsServed s'.db := by
  obtain ⟨stored, -, hdb, -⟩ := Console.deleteInbound_ok h
  rw [hdb]
  constructor
  · intro ib hib up hup
    have hfind : (s.db.withInbound id none).inbounds.find? ib.id = some ib := find?_eq_some.mpr ⟨hib, rfl⟩
    have hexit : exitOf (s.db.withInbound id none) ib.id = some up := by rw [exitOf, hfind, bind_some, hup]
    obtain ⟨hne, hupne, hold⟩ := exitOf_delete.mp hexit
    obtain ⟨old, hfindold, hcore, exit, hfindup, hsingbox, hkind⟩ := endsFit_at hs.1 hold
    rw [find?_withInbound hne (by simp), hfindold] at hfind
    obtain rfl := some.inj hfind
    refine ⟨hcore, exit.afterRow id none, ?_, hsingbox, hkind⟩
    rw [find?_withInbound hupne (by simp), hfindup]
    rfl
  · exact shortChains_iff.mpr ((shortChains_iff.mp hs.2).mono fun a up hup => (exitOf_delete.mp hup).2.2)

theorem InboundEdit.served_iff {e : InboundEdit} (h : e.run b s = .ok (s', ids)) (hac : Acyclic s.db)
    (hs : ChainsServed s.db) : ChainsServed s'.db ↔ e.Fits s.db := by
  rw [acyclic_iff] at hac
  cases e with
  | create id fresh input => exact created_served_iff h hac hs
  | update id fresh input => exact updated_served_iff h hac hs
  | delete id => exact iff_of_true (deleted_served h hs) trivial

end

/-- Every state of a run has chains that are served, exactly if each request that is accepted leaves the core and
    the protocol of the inbounds on a chain as they have to be, and makes no chain too long. -/
theorem chains_served_iff (b : Backend) (s : Console) (hac : Acyclic s.db) (hs : ChainsServed s.db)
    (es : List InboundEdit) : Always (fun s e => e.step b s) (fun s e => ChainsServed (e.step b s).db) s es ↔
      Always (fun s e => e.step b s) (fun s e => (e.run b s).isOk → e.Fits s.db) s es := by
  have hiff : ∀ s (e : InboundEdit), Acyclic s.db ∧ ChainsServed s.db →
      (ChainsServed (e.step b s).db ↔ ((e.run b s).isOk → e.Fits s.db)) := by
    intro s e ⟨hac, hs⟩
    rw [InboundEdit.step]
    cases hrun : e.run b s with
    | error r => simpa [Except.toBool] using hs
    | ok answer => simpa [Except.toBool] using e.served_iff hrun hac hs
  refine always_iff (fun s e hinv hok => ?_) hiff es s ⟨hac, hs⟩
  exact ⟨(e.step_acyclic b s ⟨hinv.1, upstreamsExist_of_fit hinv.2.1⟩).1, (hiff s e hinv).mpr hok⟩

theorem freshNode_served : ChainsServed freshNode.db :=
  ⟨fun _ h => absurd h not_mem_nil, fun _ h => absurd h not_mem_nil⟩

/-- The exit has no exit itself, so the new chain has one hop. -/
theorem chained_served : Always (fun s e => e.step plainBackend s)
    (fun s e => ChainsServed (e.step plainBackend s).db) freshNode [createExit, createEntry] := by
  refine (chains_served_iff plainBackend freshNode freshNode_acyclic freshNode_served _).mpr
    ⟨fun _ => nofun, ?_, trivial⟩
  intro _ up hup a j k hj hk
  dsimp only at hj hk
  rw [InboundEdit.step_of_run run_createExit] at hj hk
  have hexit : ∀ a, exitOf exitOnly.db a = none := by
    intro a
    refine (exitOf_put oneNode exitRow a).trans ?_
    split <;> rfl
  have hends : ∀ a n, (walk (exitOf exitOnly.db) n a).isSome → n = 0 := by
    intro a n hn
    cases n with
    | zero => rfl
    | succ n => simp [walk, hexit] at hn
  have hj0 := hends a j (isSome_iff_exists.mpr ⟨_, hj⟩)
  have hk0 := hends up k hk
  omega

/-- A patch of the core alone. -/
def corePatch (core : String) : UpdateInbound := { (default : UpdateInbound) with core := some core }

def moveEntry : InboundEdit := .update 1 ("", "") (corePatch "xray")

theorem run_moveEntry : ∃ s', moveEntry.run plainBackend chained = .ok (s', [7]) ∧
    s'.db.inbounds.find? 1 = some { chainedRow with core := "xray" } := by
  refine ⟨_, Console.updateInbound_eq_ok.mpr ⟨by decide, chainedRow, chainedRow, { chainedRow with core := "xray" },
    rfl, rfl, by decide, rfl, putInbound_eq_ok.mpr ⟨?_, rfl, rfl⟩⟩, rfl⟩
  exact writeInbound_passes (by decide) (by decide) nofun fun _ h => some.inj h ▸ nofun

/-- The entry is moved to Xray, and stays on its chain. -/
theorem entry_moved_to_xray :
    Always (fun s e => e.step plainBackend s) (fun s e => (e.run plainBackend s).isOk) freshNode
      [createExit, createEntry, moveEntry] ∧
    ¬ ChainsServed ([createExit, createEntry, moveEntry].foldl (fun s e => e.step plainBackend s) freshNode).db := by
  obtain ⟨s', hrun, hfind⟩ := run_moveEntry
  simp only [always_cons, foldl_cons, InboundEdit.step_of_run run_createExit,
    InboundEdit.step_of_run run_createEntry, InboundEdit.step_of_run hrun, run_createExit, run_createEntry, hrun]
  refine ⟨⟨rfl, rfl, rfl, trivial⟩, fun hserved => ?_⟩
  have hcore := (hserved.1 _ (find?_eq_some.mp hfind).1 2 rfl).1
  exact absurd hcore (by decide)

end Honey.Master
