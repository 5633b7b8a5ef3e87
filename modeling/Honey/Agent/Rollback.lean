import Honey.Agent.Exits

/-! Calls of `Apply` that fail.

        stop u₁ … uᵢ ✗                      u₁ … uᵢ₋₁ stay stopped
        stop u₁ … uₙ, swap w₁ … wⱼ ✗        w₁ … wⱼ₋₁ keep their new configs, u₁ … uₙ are started again
        stop u₁ … uₙ, swap w₁ … wⱼ, mark ✗  w₁ … wⱼ keep their new configs, u₁ … uₙ stay stopped

    and in every case the planes are those of the new spec. `failed_apply_kept_iff` says when nothing of
    this can be seen. -/

namespace Honey.Agent
open Honey.Master Honey.Schemes List Function Agent.Core CoreProcess Prod

/-! ### Calls without exits, state by state -/

section

variable {sha : String → String} {o : Outcomes}

theorem reapAt_noExits (p : Point) (cs : CoreMap) : reapAt (noExits p) cs = cs := rfl

/-- A core after the first loop. -/
def Core.idle (c : Core) : Core := ⟨c.proc.stop, some .inactive⟩

/-- Stopped, and marked so. -/
def Core.Idle (c : Core) : Prop := c.proc.loaded = none ∧ c.marker = some .inactive

theorem Core.same_idle_iff (c : Core) : c.Same c.idle ↔ c.Idle :=
  ⟨fun h => ⟨h.1.symm, h.2.2.symm⟩, fun h => ⟨h.1.symm, rfl, h.2.symm⟩⟩

/-- The marker survives a write that fails. -/
def Writing.Keeps (w : Writing) (m : Option Marker) : Prop := ∀ e, w = .lost e → m = none

theorem Writing.left_eq_iff (w : Writing) (m : Option Marker) : w.left m = m ↔ w.Keeps m := by
  cases w with
  | written | refused e =>
    refine ⟨fun _ e h => ?_, fun _ => rfl⟩
    cases h
  | lost e => exact ⟨fun h _ _ => h.symm, fun h => (h e rfl).symm⟩

theorem stopLoop_append : ∀ (before rest : List ServerCore) (cs : CoreMap) (stopped : List ServerCore),
    before.Nodup → (∀ j ∈ before, o.inactive j = .written) →
    stopLoop o noExits (before ++ rest) cs stopped = stopLoop o noExits rest (updateAll id (fun _ => idle) before cs)
        (stopped ++ before.filter fun j => (cs j).proc.loaded.isSome)
  | [], rest, cs, stopped, _, _ => by simp
  | k :: before, rest, cs, stopped, hnd, hw => by
    rw [nodup_cons] at hnd
    have hk : o.inactive k = .written := hw k mem_cons_self
    have hfilter : (before.filter fun j =>
        (update cs k (cs k).idle j).proc.loaded.isSome) =
        before.filter fun j => (cs j).proc.loaded.isSome := by
      refine filter_congr fun j hj => ?_
      have hne : j ≠ k := fun h => hnd.1 (h ▸ hj)
      rw [update_of_ne hne]
    rw [cons_append, stopLoop, reapAt_noExits, markInactive, hk]
    simp only [writeRecoveryState]
    rw [show (⟨(cs k).proc.stop, some .inactive⟩ : Core) = (cs k).idle from rfl,
      stopLoop_append before rest _ _ hnd.2 fun j hj => hw j (mem_cons_of_mem k hj), hfilter,
      filter_cons]
    split
    · rw [append_assoc]
      rfl
    · rfl

theorem stopLoop_error {k : ServerCore} (h : o.inactive k ≠ .written) (after : List ServerCore)
    (cs : CoreMap) (stopped : List ServerCore) : ∃ e, stopLoop o noExits (k :: after) cs stopped =
      .error (update cs k { cs k with marker := (o.inactive k).left (cs k).marker }, e) := by
  obtain ⟨e, he⟩ := writeRecoveryState_failed h .inactive _
  exact ⟨_, by rw [stopLoop, reapAt_noExits, markInactive, he]⟩

/-- A core after its round of the second loop. -/
def Core.swapped (sha : String → String) (o : Outcomes) (x : ServerCore × String) (c : Core) : Core :=
  ⟨(c.proc.apply (o.swap x.1) x.2).1, some (.active (sha x.2))⟩

/-- Running on a config, with the file and the marker to it. -/
def Core.On (sha : String → String) (cfg : String) (c : Core) : Prop :=
  c.proc.loaded = some (some cfg) ∧ c.proc.config = some cfg ∧ c.marker = some (.active (sha cfg))

variable {x : ServerCore × String}

theorem Core.same_swapped_iff {c : Core} (hne : x.2 ≠ "") (h : (o.swap x.1).refuses c.proc.checks = false) :
    c.Same (c.swapped sha o x) ↔ c.On sha x.2 := by
  obtain ⟨pid, happly⟩ := apply_ok hne h
  rw [swapped, happly]
  exact ⟨fun h => ⟨h.1.symm, h.2.1.symm, h.2.2.symm⟩, fun h => ⟨h.1.symm, h.2.1.symm, h.2.2.symm⟩⟩

theorem applyLoop_append (idle stopped : List ServerCore) :
    ∀ (before rest : List (ServerCore × String)) (cs : CoreMap), (before.map fst).Nodup →
    (∀ x ∈ before, x.2 ≠ "") → (∀ x ∈ before, Swaps o cs x ∧ o.active x.1 = .written) →
    applyLoop sha o noExits idle stopped (before ++ rest) cs =
      applyLoop sha o noExits idle stopped rest (updateAll fst (swapped sha o) before cs)
  | [], _, _, _, _, _ => rfl
  | x :: before, rest, cs, hnd, hne, hok => by
    rw [map_cons, nodup_cons] at hnd
    obtain ⟨hswap, hactive⟩ := hok x mem_cons_self
    obtain ⟨pid, happly⟩ := apply_ok (hne x mem_cons_self) hswap
    rw [cons_append, applyLoop, reapAt_noExits, happly]
    simp only [reapAt_noExits, update_self, markActive, hactive, writeRecoveryState, update_idem]
    rw [applyLoop_append idle stopped before rest _ hnd.2
      (fun y hy => hne y (mem_cons_of_mem x hy)), updateAll_cons, swapped, happly]
    intro y hy
    have hyx : y.1 ≠ x.1 := fun h => hnd.1 (h ▸ mem_map_of_mem hy)
    rw [Swaps, update_of_ne hyx]
    exact hok y (mem_cons_of_mem x hy)

theorem applyLoop_refused (sha : String → String) (cs : CoreMap) (hne : x.2 ≠ "")
    (h : (o.swap x.1).refuses (cs x.1).proc.checks = true) (idle stopped : List ServerCore)
    (rest : List (ServerCore × String)) : ∃ e, applyLoop sha o noExits idle stopped (x :: rest) cs =
      .error (remark sha o idle (restart o stopped (update cs x.1
        { cs x.1 with proc := ((cs x.1).proc.apply (o.swap x.1) x.2).1 })).1, e) := by
  obtain ⟨e, he⟩ := Option.ne_none_iff_exists'.mp (apply_refused hne h).1
  rw [applyLoop, reapAt_noExits]
  rcases happly : (cs x.1).proc.apply (o.swap x.1) x.2 with ⟨p, err⟩
  rw [happly] at he
  simp only at he
  rw [he]
  exact ⟨_, rfl⟩

theorem applyLoop_unmarked (sha : String → String) (cs : CoreMap) (hne : x.2 ≠ "") (hswap : Swaps o cs x)
    (hw : o.active x.1 ≠ .written) (idle stopped : List ServerCore) (rest : List (ServerCore × String)) :
    ∃ e, applyLoop sha o noExits idle stopped (x :: rest) cs =
      .error (update cs x.1 ⟨((cs x.1).proc.apply (o.swap x.1) x.2).1, (o.active x.1).left (cs x.1).marker⟩, e) := by
  obtain ⟨pid, happly⟩ := apply_ok hne hswap
  rw [applyLoop, reapAt_noExits, happly]
  simp only [reapAt_noExits, update_self, markActive]
  obtain ⟨e, he⟩ := writeRecoveryState_failed hw (.active (sha x.2))
    ⟨{ (cs x.1).proc with phase := .running pid (some x.2), lastErr := "", config := some x.2 }, (cs x.1).marker⟩
  simp only [he, update_idem]
  exact ⟨_, rfl⟩

theorem restart_fst (o : Outcomes) : ∀ (ks : List ServerCore) (cs : CoreMap), (restart o ks cs).1 =
    updateAll id (fun k c => { c with proc := (c.proc.start (o.relaunch k) "").1 }) ks cs
  | [], _ => rfl
  | k :: ks, cs => by
    exact restart_fst o ks _

theorem remark_eq (sha : String → String) (o : Outcomes) : ∀ (ks : List ServerCore) (cs : CoreMap),
    remark sha o ks cs = updateAll id
      (fun k c => if c.proc.loaded.isSome then (c.markActive sha (o.reactive k)).1 else c) ks cs
  | [], _ => rfl
  | k :: ks, cs => by
    rw [remark, remark_eq sha o ks, updateAll_cons]
    simp only [id]
    split
    · rfl
    · rw [update_eq_self]

/-- A core without inbounds after a failed swap of another one: started again if it was running, and marked so. -/
def Core.restored (sha : String → String) (l : Launch) (w : Writing) (c : Core) : Core :=
  let c' := if c.proc.loaded.isSome then { c.idle with proc := (c.idle.proc.start l "").1 } else c.idle
  if c'.proc.loaded.isSome then (c'.markActive sha w).1 else c'

/-- What `markActive` makes of an inactive marker. -/
def Writing.remark (sha : String → String) (w : Writing) : Option String → Option Marker
  | none => some .inactive
  | some text =>
    match w with
    | .written => some (.active (sha text))
    | .refused _ => some .inactive
    | .lost _ => none

/-- Stopped and marked so; or running on its file, the start succeeds, and the marker is what the way back leaves. -/
def Core.Restored (sha : String → String) (l : Launch) (w : Writing) (c : Core) : Prop :=
  match c.proc.loaded with
  | none => c.marker = some .inactive
  | some text => text = c.proc.config ∧ l.fails c.proc.checks = false ∧ c.marker = w.remark sha c.proc.config

theorem Core.markActive_inactive (w : Writing) {c : Core} (h : c.marker = some .inactive) :
    (c.markActive sha w).1 = { c with marker := w.remark sha c.proc.config } := by
  obtain ⟨p, marker⟩ := c
  simp only at h
  rw [markActive, h]
  rcases p.config with _ | text
  · rfl
  · cases w with
    | written | refused e | lost e => rfl

theorem Core.same_restored_iff (l : Launch) (w : Writing) (c : Core) :
    c.Same (c.restored sha l w) ↔ c.Restored sha l w := by
  rcases hl : c.proc.loaded with _ | text
  · have hres : c.restored sha l w = c.idle := by simp [restored, hl, idle]
    rw [hres, same_idle_iff, Core.Idle, Core.Restored, hl]
    simp
  rw [restored, Core.Restored, hl]
  rcases start_cases l (p := c.idle.proc) rfl with ⟨hf, e, hstart⟩ | ⟨hf, pid, hstart⟩
  · have hf' : l.fails c.proc.checks = true := hf
    rw [hstart]
    simp [Core.Same, hl, hf']
  have hf' : l.fails c.proc.checks = false := hf
  rw [hstart, markActive_inactive w rfl]
  constructor
  · rintro ⟨hrun, -, hmarker⟩
    exact ⟨(Option.some.inj (hrun.trans hl)).symm, hf', hmarker.symm⟩
  · rintro ⟨rfl, -, hmarker⟩
    exact ⟨hl.symm, rfl, hmarker.symm⟩

end

/-! ### What a failed call leaves -/

section

variable {srv : Server} {o : Outcomes} {configs : List (ServerCore × Option String)}

/-- The stops do no harm: the cores stopped before the one whose marker cannot be written were idle,
    and that marker survives. -/
def StopsHarmless (o : Outcomes) (cs : CoreMap) (before : List ServerCore) (k : ServerCore) : Prop :=
  (∀ j ∈ before, (cs j).Idle) ∧ (o.inactive k).Keeps (cs k).marker

/-- The swaps do no harm: the cores swapped before the one that fails were already running on their configs. If it is
    the swap that fails, its own way back and that of the stopped cores lead where they were; if it is the marker, then
    the core was already running on its config and nothing was stopped. -/
def SwapsHarmless (srv : Server) (o : Outcomes) (cs : CoreMap) (idle : List ServerCore)
    (before : List (ServerCore × String)) (x : ServerCore × String) : Prop :=
  (∀ y ∈ before, (cs y.1).On srv.sha y.2) ∧
    if (o.swap x.1).refuses (cs x.1).proc.checks then
      (o.swap x.1).Returns (cs x.1).proc ∧ ∀ k ∈ idle, (cs k).Restored srv.sha (o.relaunch k) (o.reactive k)
    else
      (cs x.1).proc.loaded = some (some x.2) ∧ (cs x.1).proc.config = some x.2 ∧
        (o.active x.1).Keeps (cs x.1).marker ∧ ∀ k ∈ idle, (cs k).Idle

theorem applyCores_stop_error (srv : Server) (hnd : (configs.map fst).Nodup) (cs : CoreMap)
    {before after : List ServerCore} {k : ServerCore} (hl : unwanted configs = before ++ k :: after)
    (hb : ∀ j ∈ before, o.inactive j = .written) (hk : o.inactive k ≠ .written) :
    ∃ cs' e, applyCores srv o noExits configs cs = .error (cs', e) ∧
      ((∀ j, (cs j).Same (cs' j)) ↔ StopsHarmless o cs before k) := by
  have hnd' := nodup_unwanted hnd
  rw [hl, nodup_append] at hnd'
  obtain ⟨hnb, -, hdisj⟩ := hnd'
  have hkb : k ∉ before := fun h => hdisj k h k mem_cons_self rfl
  obtain ⟨e, he⟩ := stopLoop_error hk after _ _
  refine ⟨_, e, by rw [applyCores, hl, stopLoop_append before _ cs [] hnb hb, he]; rfl, ?_⟩
  simp only [forall_update_iff, updateAll_id hnb, if_neg hkb]
  rw [and_comm]
  refine and_congr ?_ ?_
  · constructor
    · intro h j hj
      have hsame := h j fun hjk => hkb (hjk ▸ hj)
      rw [if_pos hj] at hsame
      exact (same_idle_iff _).mp hsame
    · intro h j hjk
      split
      · rename_i hj
        exact (same_idle_iff _).mpr (h j hj)
      · exact .rfl' _
  · rw [← Writing.left_eq_iff]
    exact ⟨fun h => h.2.2, fun h => ⟨rfl, rfl, h⟩⟩

/-- The cores after the stops and some swaps: those without inbounds, the one whose round fails, and the others. -/
def layers (srv : Server) (o : Outcomes) (cs : CoreMap) (idle : List ServerCore)
    (before : List (ServerCore × String)) (k : ServerCore) (stopped : CoreMap) (failed : Core) : CoreMap :=
  fun j => if j ∈ idle then stopped j else if j = k then failed
    else updateAll fst (swapped srv.sha o) before cs j

section

variable {cs : CoreMap} {before after : List (ServerCore × String)} {x : ServerCore × String}

theorem update_layers {idle : List ServerCore} {k : ServerCore} (hk : k ∉ idle) (stopped : CoreMap)
    (c c' : Core) : update (layers srv o cs idle before k stopped c) k c' =
      layers srv o cs idle before k stopped c' := by
  funext j
  by_cases hj : j = k
  · rw [hj, update_self, layers, if_neg hk, if_pos rfl]
  · rw [update_of_ne hj, layers, layers, if_neg hj, if_neg hj]

theorem restart_layers {idle : List ServerCore} (hnd : idle.Nodup) (k : ServerCore) (c : Core) :
    remark srv.sha o idle (restart o (idle.filter fun j => (cs j).proc.loaded.isSome)
        (layers srv o cs idle before k (fun k => (cs k).idle) c)).1 =
      layers srv o cs idle before k (fun k => (cs k).restored srv.sha (o.relaunch k) (o.reactive k)) c := by
  funext j
  rw [remark_eq, updateAll_id hnd, restart_fst, updateAll_id (hnd.filter _)]
  by_cases hj : j ∈ idle
  · simp [layers, hj, restored]
  · simp [layers, hj]

variable (hnd : (configs.map fst).Nodup) (hl : wanted configs = before ++ x :: after)
include hnd hl

theorem nodup_before : (before.map fst).Nodup ∧ x.1 ∉ before.map fst := by
  have hkeys := nodup_wanted hnd
  rw [hl, map_append, nodup_append] at hkeys
  obtain ⟨hnb, -, hdisj⟩ := hkeys
  exact ⟨hnb, fun h => hdisj x.1 h x.1 (mem_map_of_mem mem_cons_self) rfl⟩

theorem same_layers_iff (hne : ∀ y ∈ wanted configs, y.2 ≠ "") (hb : ∀ y ∈ before, GoesThrough o cs y)
    (stopped : CoreMap) (failed : Core) :
    (∀ j, (cs j).Same (layers srv o cs (unwanted configs) before x.1 stopped failed j)) ↔
      (∀ y ∈ before, (cs y.1).On srv.sha y.2) ∧ (cs x.1).Same failed ∧
        ∀ k ∈ unwanted configs, (cs k).Same (stopped k) := by
  obtain ⟨hnb, hxb⟩ := nodup_before hnd hl
  have hmem : ∀ y ∈ before, y ∈ wanted configs := fun y hy => hl ▸ mem_append_left _ hy
  have hx : x.1 ∉ unwanted configs := not_mem_unwanted hnd (hl ▸ mem_append_right _ mem_cons_self)
  have hon : ∀ y ∈ before, ((cs y.1).Same (layers srv o cs (unwanted configs) before x.1 stopped failed y.1) ↔
        (cs y.1).On srv.sha y.2) := by
    intro y hy
    have hyx : y.1 ≠ x.1 := fun h => hxb (h ▸ mem_map_of_mem hy)
    rw [layers, if_neg (not_mem_unwanted hnd (hmem y hy)), if_neg hyx, updateAll_of_mem cs hnb hy]
    exact same_swapped_iff (hne y (hmem y hy)) (hb y hy).1
  constructor
  · intro h
    refine ⟨fun y hy => (hon y hy).mp (h y.1), ?_, fun k hk => ?_⟩
    · have hsame := h x.1
      rwa [layers, if_neg hx, if_pos rfl] at hsame
    · have hsame := h k
      rwa [layers, if_pos hk] at hsame
  · rintro ⟨hbefore, hfailed, hstopped⟩ j
    by_cases hj : j ∈ before.map fst
    · obtain ⟨y, hy, rfl⟩ := mem_map.mp hj
      exact (hon y hy).mpr (hbefore y hy)
    rw [layers]
    split
    · rename_i hk
      exact hstopped j hk
    split
    · rename_i hjx
      rw [hjx]
      exact hfailed
    · rw [updateAll_of_not_mem cs hj]
      exact .rfl' _

/-- The cores after the stops and the rounds before the failing one. -/
theorem layers_before (srv : Server) (o : Outcomes) (cs : CoreMap) :
    updateAll fst (swapped srv.sha o) before (updateAll id (fun _ => idle) (unwanted configs) cs) =
      layers srv o cs (unwanted configs) before x.1 (fun k => (cs k).idle) (cs x.1) := by
  funext j
  rw [layers]
  by_cases hj : j ∈ unwanted configs
  · have hjb : j ∉ before.map fst := by
      intro h
      obtain ⟨y, hy, rfl⟩ := mem_map.mp h
      exact not_mem_unwanted hnd (hl ▸ mem_append_left _ hy) hj
    rw [if_pos hj, updateAll_of_not_mem _ hjb, updateAll_id (nodup_unwanted hnd), if_pos hj]
  have hbase : updateAll id (fun _ => idle) (unwanted configs) cs j = cs j := by
    rw [updateAll_id (nodup_unwanted hnd), if_neg hj]
  rw [if_neg hj, updateAll_congr before hbase]
  split
  · rename_i hjx
    rw [hjx, updateAll_of_not_mem cs (nodup_before hnd hl).2]
  · rfl

variable (hstop : ∀ k ∈ unwanted configs, o.inactive k = .written) (hne : ∀ y ∈ wanted configs, y.2 ≠ "")
  (hb : ∀ y ∈ before, GoesThrough o cs y)
include hstop hne hb

theorem applyCores_rounds : applyCores srv o noExits configs cs = (applyLoop srv.sha o noExits (unwanted configs)
          ((unwanted configs).filter fun j => (cs j).proc.loaded.isSome) (x :: after)
          (layers srv o cs (unwanted configs) before x.1 (fun k => (cs k).idle) (cs x.1)) >>=
        settleLoop srv.sha o (unwanted configs)) := by
  have hnu := nodup_unwanted hnd
  have hstops := stopLoop_append _ [] cs [] hnu hstop
  rw [append_nil] at hstops
  have hswaps : ∀ y ∈ before,
      Swaps o (updateAll id (fun _ => idle) (unwanted configs) cs) y ∧ o.active y.1 = .written := by
    intro y hy
    rw [Swaps, updateAll_id hnu, if_neg (not_mem_unwanted hnd (hl ▸ mem_append_left _ hy))]
    exact hb y hy
  rw [← layers_before hnd hl srv o cs, ← applyLoop_append _ _ before _ _
    (nodup_before hnd hl).1 (fun y hy => hne y (hl ▸ mem_append_left _ hy)) hswaps, applyCores, hstops, hl]
  rfl

theorem applyCores_swap_error (srv : Server) (hx : ¬ GoesThrough o cs x) :
    ∃ cs' e, applyCores srv o noExits configs cs = .error (cs', e) ∧
      ((∀ j, (cs j).Same (cs' j)) ↔ SwapsHarmless srv o cs (unwanted configs) before x) := by
  have hxw : x ∈ wanted configs := hl ▸ mem_append_right _ mem_cons_self
  have hxu : x.1 ∉ unwanted configs := not_mem_unwanted hnd hxw
  rw [applyCores_rounds hnd hl hstop hne hb, SwapsHarmless]
  set cs₁ := layers srv o cs (unwanted configs) before x.1 (fun k => (cs k).idle) (cs x.1) with hcs₁
  set stopped := (unwanted configs).filter fun j => (cs j).proc.loaded.isSome
  have hlx : cs₁ x.1 = cs x.1 := by
    rw [hcs₁, layers, if_neg hxu, if_pos rfl]
  rcases hswap : (o.swap x.1).refuses (cs x.1).proc.checks with _ | _
  · have hw : o.active x.1 ≠ .written := fun h => hx ⟨hswap, h⟩
    obtain ⟨pid, happly⟩ := apply_ok (hne x hxw) hswap
    obtain ⟨e, he⟩ := applyLoop_unmarked srv.sha cs₁ (hne x hxw) (by rw [Swaps, hlx]; exact hswap) hw
      _ stopped after
    refine ⟨_, e, by rw [he]; rfl, ?_⟩
    rw [hlx, update_layers hxu, same_layers_iff hnd hl hne hb, happly]
    simp only [same_idle_iff, ← Writing.left_eq_iff]
    refine and_congr_right fun _ => ?_
    constructor
    · rintro ⟨⟨hrun, hfile, hmarker⟩, hidle⟩
      exact ⟨hrun.symm, hfile.symm, hmarker, hidle⟩
    · rintro ⟨hrun, hfile, hmarker, hidle⟩
      exact ⟨⟨hrun.symm, hfile.symm, hmarker⟩, hidle⟩
  · obtain ⟨e, he⟩ := applyLoop_refused srv.sha cs₁ (hne x hxw) (by rw [hlx]; exact hswap)
      _ stopped after
    refine ⟨_, e, by rw [he]; rfl, ?_⟩
    rw [hlx, update_layers hxu, restart_layers (nodup_unwanted hnd), same_layers_iff hnd hl hne hb]
    simp only [same_restored_iff, ← (apply_refused (hne x hxw) hswap).2]
    refine and_congr_right fun _ => and_congr_left fun _ => ?_
    exact ⟨fun h => ⟨h.1, h.2.1⟩, fun h => ⟨h.1, h.2, rfl⟩⟩

end

end

/-! ### The whole call -/

/-- The planes and every core are the same. -/
structure AgentState.Same (a b : AgentState) : Prop where
  planes : a.planes.Same b.planes
  cores : ∀ k, (a.cores k).Same (b.cores k)

/-- The planes already stand as the spec and the commands make them, and where the loops stop they have done no harm. -/
structure Traceless (srv : Server) (o : Outcomes) (spec : NodeSpec) (a : AgentState) : Prop where
  planes : a.planes.Settled srv.tools o.planes spec
  stops : ∀ configs, plan srv o spec = .ok configs →
    AtFirst (fun k => o.inactive k = .written) (StopsHarmless o a.cores) (unwanted configs)
  swaps : ∀ configs, plan srv o spec = .ok configs → (∀ k ∈ unwanted configs, o.inactive k = .written) →
    AtFirst (GoesThrough o a.cores) (SwapsHarmless srv o a.cores (unwanted configs)) (wanted configs)

theorem same_iff_of_error {srv : Server} {o : Outcomes} {spec : NodeSpec} {a : AgentState} {cs : CoreMap}
    {e : String} (h : applySpec srv o noExits spec a = (cs, some e)) : a.Same (apply srv o noExits spec a).1 ↔
      a.planes.Settled srv.tools o.planes spec ∧ ∀ k, (a.cores k).Same (cs k) := by
  have happly : (apply srv o noExits spec a).1 = ⟨a.planes.sync srv.tools o.planes spec, cs⟩ := by
    rw [apply, h]
    rfl
  rw [happly, ← Planes.sync_same_iff]
  exact ⟨fun h => ⟨h.planes, h.cores⟩, fun h => ⟨h.1, h.2⟩⟩

/-- The loops stop somewhere; the cores are left as they were exactly if the steps up to there have done no harm. -/
theorem applyCores_error (srv : Server) {o : Outcomes} {configs : List (ServerCore × Option String)}
    (cs : CoreMap) (hnd : (configs.map fst).Nodup) (hne : ∀ w ∈ wanted configs, w.2 ≠ "")
    (hfail : ¬ Passes o configs cs) :
    ∃ cs' e, applyCores srv o noExits configs cs = .error (cs', e) ∧ ((∀ k, (cs k).Same (cs' k)) ↔
      AtFirst (fun k => o.inactive k = .written) (StopsHarmless o cs) (unwanted configs) ∧
      ((∀ k ∈ unwanted configs, o.inactive k = .written) →
        AtFirst (GoesThrough o cs) (SwapsHarmless srv o cs (unwanted configs)) (wanted configs))) := by
  rcases all_or_first (fun k => o.inactive k = .written) (unwanted configs) with
    hstop | ⟨before, k, after, hl, hb, hk⟩
  · rcases all_or_first (GoesThrough o cs) (wanted configs) with
      hswap | ⟨before, w, after, hl, hb, hw⟩
    · exact absurd ⟨hstop, hswap⟩ hfail
    · obtain ⟨cs', e, herr, hsame⟩ := applyCores_swap_error hnd hl hstop hne hb srv hw
      refine ⟨cs', e, herr, hsame.trans ?_⟩
      rw [hl, atFirst_iff hb hw]
      exact ⟨fun h => ⟨atFirst_of_all hstop, fun _ => h⟩, fun h => h.2 hstop⟩
  · obtain ⟨cs', e, herr, hsame⟩ := applyCores_stop_error srv hnd cs hl hb hk
    refine ⟨cs', e, herr, hsame.trans ?_⟩
    rw [hl, atFirst_iff hb hk]
    refine ⟨fun h => ⟨h, fun hall => absurd (hall k ?_) hk⟩, fun h => h.1⟩
    exact mem_append_right _ mem_cons_self

/-- An errored reply means that nothing has changed exactly if no step fails or the steps before the
    failing one, those of the planes among them, have done no harm. -/
theorem failed_apply_kept_iff (srv : Server) (o : Outcomes) (spec : NodeSpec) (a : AgentState) :
    ((apply srv o noExits spec a).2.state = .errored → a.Same (apply srv o noExits spec a).1) ↔
      Succeeds srv o spec a ∨ Traceless srv o spec a := by
  rcases apply_cases srv o noExits spec a with ⟨configs, hplan, hpass, hreached, hreply⟩ | ⟨hfail, herr⟩
  · refine iff_of_true (fun herr => ?_) (.inl ⟨configs, hplan, hpass⟩)
    -- without exits every core that was started runs
    rw [hreply, reached_errored_iff (plan_keys hplan) hreached] at herr
    obtain ⟨-, w, -, e, hexit⟩ := herr
    have hnone : exitAfter noExits (wanted configs) w.1 = none := findSome?_eq_none_iff.mpr fun _ _ => rfl
    rw [hnone] at hexit
    cases hexit
  · rw [or_iff_right hfail, imp_iff_right herr]
    rcases hplan : plan srv o spec with e | configs
    · have hspec : applySpec srv o noExits spec a = (a.cores, some e) := by rw [applySpec, hplan]
      rw [same_iff_of_error hspec]
      constructor
      · rintro ⟨hplanes, -⟩
        refine ⟨hplanes, fun configs h => ?_, fun configs h => ?_⟩
        · rw [hplan] at h
          cases h
        · rw [hplan] at h
          cases h
      · intro h
        exact ⟨h.planes, fun k => .rfl' _⟩
    · obtain ⟨hnd, hne⟩ := plan_ready hplan
      obtain ⟨cs', e, hcores, hsame⟩ := applyCores_error srv a.cores hnd hne
        fun hpass => hfail ⟨configs, hplan, hpass⟩
      have hspec : applySpec srv o noExits spec a = (cs', some e) := by
        rw [applySpec, hplan]
        simp [hcores]
      rw [same_iff_of_error hspec, hsame]
      constructor
      · rintro ⟨hplanes, hstops, hswaps⟩
        refine ⟨hplanes, fun configs' h => ?_, fun configs' h => ?_⟩
        · rw [hplan] at h
          exact Except.ok.inj h ▸ hstops
        · rw [hplan] at h
          exact Except.ok.inj h ▸ hswaps
      · intro h
        exact ⟨h.planes, h.stops configs hplan, h.swaps configs hplan⟩

/-- An inbound and a WireGuard interface that is new. -/
def officeWithInbound : NodeSpec := { officeSpec [] with inbounds := [vlessOf "singbox"] }

/-- sing-box does not like its config. -/
def badConfig : Outcomes := { smooth with check := fun _ _ _ => some "unknown field" }

/-- The candidate is rejected, and the interface is up. -/
theorem rejected_spec_leaves_interface :
    (apply plainServer badConfig noExits officeWithInbound freshAgent).2.state = .errored ∧
    ¬ freshAgent.Same (apply plainServer badConfig noExits officeWithInbound freshAgent).1 := by
  refine ⟨rfl, fun h => ?_⟩
  have hwg := h.planes.wg "wg-office"
  revert hwg
  decide

end Honey.Agent
