import Honey.Agent.Apply

/-! Calls of `Apply` during which cores exit on their own.

        start w --+-- the rest of the call --> reply        running on the new config
                  +-- exit 0, or with an error              stopped, errored

    The reply summarises three cores in one state, and one core that runs hides the others
    (`accepted_apply_runs_iff`). -/

namespace Honey.Agent
open Honey.Master Honey.Schemes List Function CoreProcess Prod

/-! ### Calls with exits -/

/-- The phase that an exit leaves. -/
def CoreProcess.Exit.phase : CoreProcess.Exit → Phase
  | .clean => .stopped
  | .failed _ => .errored

/-- A core over some points of the call at which nothing is done to it. -/
def reaps (x : Exits) (k : ServerCore) (ps : List Point) (p : CoreProcess) : CoreProcess :=
  ps.foldl (fun p pt => p.reapIf (x pt k)) p

theorem reaps_cons (x : Exits) (k : ServerCore) (pt : Point) (ps : List Point) (p : CoreProcess) :
    reaps x k (pt :: ps) p = reaps x k ps (p.reapIf (x pt k)) := rfl

theorem reapIf_frame (x : Option CoreProcess.Exit) (p : CoreProcess) :
    (p.reapIf x).checks = p.checks ∧ (p.reapIf x).config = p.config := by
  rcases x with _ | e
  · exact ⟨rfl, rfl⟩
  change (p.reap e).checks = p.checks ∧ (p.reap e).config = p.config
  unfold reap
  split
  · exact ⟨rfl, rfl⟩
  · exact ⟨rfl, rfl⟩
  · exact ⟨rfl, rfl⟩

theorem reapIf_of_idle (x : Option CoreProcess.Exit) {p : CoreProcess} (h : p.loaded = none) : p.reapIf x = p := by
  rcases x with _ | e
  · rfl
  change p.reap e = p
  unfold reap
  split
  · rename_i hp
    simp [loaded, hp] at h
  · rename_i hp
    simp [loaded, hp] at h
  · rfl

theorem reaps_of_idle (x : Exits) (k : ServerCore) {p : CoreProcess} (h : p.loaded = none) :
    ∀ ps : List Point, reaps x k ps p = p
  | [] => rfl
  | pt :: ps => by rw [reaps_cons, reapIf_of_idle _ h, reaps_of_idle x k h ps]

theorem phase_reaps (x : Exits) (k : ServerCore) {pid : ℕ} {c : Option String} :
    ∀ (ps : List Point) {p : CoreProcess}, p.phase = .running pid c →
    (reaps x k ps p).phase = ((ps.findSome? (x · k)).map CoreProcess.Exit.phase).getD (.running pid c)
  | [], _, h => h
  | pt :: ps, p, h => by
    rw [reaps_cons, findSome?_cons]
    rcases x pt k with _ | e
    · exact phase_reaps x k ps h
    have hphase : (p.reapIf (some e)).phase = e.phase := by
      cases e with
      | clean | failed err => simp [reapIf, reap, h, CoreProcess.Exit.phase]
    have hidle : (p.reapIf (some e)).loaded = none := by
      rw [loaded, hphase]
      cases e with
      | clean | failed err => rfl
    rw [reaps_of_idle x k hidle, hphase]
    rfl

section

variable {o : Outcomes} {x : Exits}

/-- The first loop gets through exactly if every marker is written, and then the cores are stopped. -/
theorem stopLoop_cases : ∀ (ks : List ServerCore) (cs : CoreMap) (stopped : List ServerCore),
    ((∀ k ∈ ks, o.inactive k = .written) ∧ ∃ cs' stopped', stopLoop o x ks cs stopped = .ok (cs', stopped') ∧
      (∀ k, (cs' k).proc.checks = (cs k).proc.checks) ∧
      (∀ k, (cs k).proc.phase = .stopped ∨ k ∈ ks → (cs' k).proc.phase = .stopped)) ∨
    ((∃ k ∈ ks, o.inactive k ≠ .written) ∧ ∃ r, stopLoop o x ks cs stopped = .error r)
  | [], cs, stopped => .inl ⟨by simp, cs, stopped, rfl, fun _ => rfl, fun k h => by simpa using h⟩
  | k :: ks, cs, stopped => by
    rw [stopLoop]
    by_cases hk : o.inactive k = .written
    · simp only [hk]
      rcases stopLoop_cases ks (update (reapAt (x (.stop k)) cs) k
          ⟨(reapAt (x (.stop k)) cs k).proc.stop, some .inactive⟩)
        (if (reapAt (x (.stop k)) cs k).proc.loaded.isSome then stopped ++ [k] else stopped) with
        ⟨hall, cs', stopped', hok, hchecks, hphase⟩ | ⟨⟨j, hj, hne⟩, r, herr⟩
      · refine .inl ⟨forall_mem_cons.mpr ⟨hk, hall⟩, cs', stopped', hok, fun j => ?_, fun j h => ?_⟩
        · rw [hchecks]
          by_cases hjk : j = k
          · rw [hjk, update_self]
            exact (reapIf_frame _ _).1
          · rw [update_of_ne hjk]
            exact (reapIf_frame _ _).1
        · refine hphase j ?_
          by_cases hjk : j = k
          · rw [hjk, update_self]
            exact .inl rfl
          rcases h with h | h
          · refine .inl ?_
            rw [update_of_ne hjk, reapAt, reapIf_of_idle _ (by rw [loaded, h])]
            exact h
          · exact .inr ((mem_cons.mp h).resolve_left hjk)
      · exact .inr ⟨⟨j, mem_cons_of_mem k hj, hne⟩, r, herr⟩
    · obtain ⟨e, he⟩ := Core.writeRecoveryState_failed hk .inactive (reapAt (x (.stop k)) cs k)
      refine .inr ⟨⟨k, mem_cons_self, hk⟩, ?_⟩
      simp only [Core.markInactive, he]
      exact ⟨_, rfl⟩

/-- The points of the second loop. -/
def rounds (ws : List (ServerCore × String)) : List Point :=
  ws.flatMap fun w => [.apply w.1, .mark w.1]

/-- The points of the second loop after the start of a core. -/
def roundsAfter (k : ServerCore) : List (ServerCore × String) → List Point
  | [] => []
  | w :: ws => if w.1 = k then .mark k :: rounds ws else roundsAfter k ws

/-- The second loop gets through exactly if every swap succeeds and every marker is written, and then
    the cores run on their configs but for exits after their start. -/
theorem applyLoop_cases (sha : String → String) (idle stopped : List ServerCore) :
    ∀ (ws : List (ServerCore × String)) (cs : CoreMap), (ws.map fst).Nodup → (∀ w ∈ ws, w.2 ≠ "") →
    ((∀ w ∈ ws, GoesThrough o cs w) ∧ ∃ cs', applyLoop sha o x idle stopped ws cs = .ok cs' ∧
      (∀ k ∉ ws.map fst, (cs' k).proc = reaps x k (rounds ws) (cs k).proc) ∧
      (∀ w ∈ ws, ∃ pid p, p.phase = .running pid (some w.2) ∧ (cs' w.1).proc = reaps x w.1 (roundsAfter w.1 ws) p)) ∨
    ((∃ w ∈ ws, ¬ GoesThrough o cs w) ∧ ∃ r, applyLoop sha o x idle stopped ws cs = .error r)
  | [], cs, _, _ => .inl ⟨by simp, cs, rfl, fun _ _ => rfl, fun w hw => by cases hw⟩
  | w :: ws, cs, hnd, hne => by
    rw [map_cons, nodup_cons] at hnd
    have hw : w.2 ≠ "" := hne w mem_cons_self
    have hchecks : (reapAt (x (.apply w.1)) cs w.1).proc.checks = (cs w.1).proc.checks := (reapIf_frame _ _).1
    rw [applyLoop]
    rcases hswap : (o.swap w.1).refuses (cs w.1).proc.checks with _ | _
    · obtain ⟨pid, happly⟩ := apply_ok hw (hchecks ▸ hswap)
      simp only [happly]
      set p : CoreProcess := { (reapAt (x (.apply w.1)) cs w.1).proc with
        phase := .running pid (some w.2), lastErr := "", config := some w.2 } with hp
      set cs₁ := reapAt (x (.mark w.1)) (update (reapAt (x (.apply w.1)) cs) w.1
        { reapAt (x (.apply w.1)) cs w.1 with proc := p }) with hcs₁
      have hself : (cs₁ w.1).proc = p.reapIf (x (.mark w.1) w.1) := by simp [hcs₁, reapAt]
      have hother : ∀ k, k ≠ w.1 → (cs₁ k).proc = ((cs k).proc.reapIf (x (.apply w.1) k)).reapIf (x (.mark w.1) k) := by
        intro k hk
        simp [hcs₁, reapAt, update_of_ne hk]
      have hconfig : (cs₁ w.1).proc.config = some w.2 := by
        rw [hself, (reapIf_frame _ p).2]
      by_cases hactive : o.active w.1 = .written
      · simp only [Core.markActive, hconfig, hactive]
        set cs₂ := update cs₁ w.1 { cs₁ w.1 with marker := some (.active (sha w.2)) } with hcs₂
        have hproc : ∀ k, (cs₂ k).proc = (cs₁ k).proc := by
          intro k
          by_cases hk : k = w.1
          · rw [hk, hcs₂, update_self]
          · rw [hcs₂, update_of_ne hk]
        have hthrough : ∀ v ∈ ws, (GoesThrough o cs₂ v ↔ GoesThrough o cs v) := by
          intro v hv
          have hvw : v.1 ≠ w.1 := fun h => hnd.1 (h ▸ mem_map_of_mem hv)
          rw [GoesThrough, GoesThrough, Swaps, Swaps, hproc, hother v.1 hvw, (reapIf_frame _ _).1, (reapIf_frame _ _).1]
        rcases applyLoop_cases sha idle stopped ws cs₂ hnd.2 (fun v hv => hne v (mem_cons_of_mem w hv)) with
          ⟨hall, cs', hok, hrest, hstarted⟩ | ⟨⟨v, hv, hfail⟩, r, herr⟩
        · refine .inl ⟨forall_mem_cons.mpr ⟨⟨hswap, hactive⟩,
            fun v hv => (hthrough v hv).mp (hall v hv)⟩, cs', hok, fun k hk => ?_, fun v hv => ?_⟩
          · rw [map_cons, mem_cons, not_or] at hk
            rw [hrest k hk.2, hproc, hother k hk.1]
            rfl
          · rcases mem_cons.mp hv with rfl | hv
            · refine ⟨pid, p, rfl, ?_⟩
              rw [hrest _ hnd.1, hproc, hself, roundsAfter, if_pos rfl, reaps_cons]
            · have hvw : w.1 ≠ v.1 := fun h => hnd.1 (h ▸ mem_map_of_mem hv)
              rw [roundsAfter, if_neg hvw]
              exact hstarted v hv
        · exact .inr ⟨⟨v, mem_cons_of_mem w hv, fun h => hfail ((hthrough v hv).mpr h)⟩, r, herr⟩
      · obtain ⟨e, he⟩ := Core.writeRecoveryState_failed hactive (.active (sha w.2)) (cs₁ w.1)
        simp only [Core.markActive, hconfig, he]
        exact .inr ⟨⟨w, mem_cons_self, fun h => hactive h.2⟩, _, rfl⟩
    · have hfail : ¬ GoesThrough o cs w := fun h => Bool.false_ne_true (h.1.symm.trans hswap)
      obtain ⟨e, he⟩ := Option.ne_none_iff_exists'.mp (apply_refused hw (hchecks ▸ hswap)).1
      rcases happly : (reapAt (x (.apply w.1)) cs w.1).proc.apply (o.swap w.1) w.2 with ⟨p, err⟩
      rw [happly] at he
      simp only at he
      rw [he]
      exact .inr ⟨⟨w, mem_cons_self, hfail⟩, _, rfl⟩

theorem settleLoop_idle (sha : String → String) (o : Outcomes) (cs : CoreMap) : ∀ ks : List ServerCore,
    (∀ k ∈ ks, (cs k).proc.loaded = none) → settleLoop sha o ks cs = .ok cs
  | [], _ => rfl
  | k :: ks, h => by
    rw [settleLoop, h k mem_cons_self]
    exact settleLoop_idle sha o cs ks fun j hj => h j (mem_cons_of_mem k hj)

theorem loaded_of_stopped {p : CoreProcess} (h : p.phase = .stopped) : p.loaded = none := by
  rw [loaded, h]

theorem reaps_append (x : Exits) (k : ServerCore) (ps qs : List Point) (p : CoreProcess) :
    reaps x k (ps ++ qs) p = reaps x k qs (reaps x k ps p) := foldl_append

variable {srv : Server} {configs : List (ServerCore × Option String)}

theorem applyCores_cases (srv : Server) (o : Outcomes) (x : Exits) (cs : CoreMap) (hnd : (configs.map fst).Nodup)
    (hne : ∀ w ∈ wanted configs, w.2 ≠ "") : (Passes o configs cs ∧ ∃ cs', applyCores srv o x configs cs = .ok cs' ∧
      (∀ k ∈ unwanted configs, (cs' k).proc.phase = .stopped) ∧
      ∀ w ∈ wanted configs, ∃ pid p, p.phase = .running pid (some w.2) ∧
        (cs' w.1).proc = reaps x w.1 (roundsAfter w.1 (wanted configs) ++ [.settle]) p) ∨
    (¬ Passes o configs cs ∧ ∃ r, applyCores srv o x configs cs = .error r) := by
  rcases stopLoop_cases (unwanted configs) cs [] with
    ⟨hstop, cs₁, stopped, hok, hchecks, hphase⟩ | ⟨⟨k, hk, hne'⟩, r, herr⟩
  · have hthrough : ∀ w, GoesThrough o cs₁ w ↔ GoesThrough o cs w := fun w => by
      rw [GoesThrough, GoesThrough, Swaps, Swaps, hchecks]
    rcases applyLoop_cases srv.sha (unwanted configs) stopped (wanted configs) cs₁
      (nodup_wanted hnd) hne with ⟨hall, cs₂, hok₂, hrest, hstarted⟩ | ⟨⟨w, hw, hfail⟩, r, herr⟩
    · have hidle : ∀ k ∈ unwanted configs, (cs₂ k).proc.phase = .stopped := by
        intro k hk
        have hkw : k ∉ (wanted configs).map fst := by
          intro h
          obtain ⟨w, hw, rfl⟩ := mem_map.mp h
          exact not_mem_unwanted hnd hw hk
        have hstopped := hphase k (.inr hk)
        rw [hrest k hkw, reaps_of_idle x k (loaded_of_stopped hstopped)]
        exact hstopped
      have hsettle : ∀ k ∈ unwanted configs, (reapAt (x .settle) cs₂ k).proc.phase = .stopped := by
        intro k hk
        rw [reapAt, reapIf_of_idle _ (loaded_of_stopped (hidle k hk))]
        exact hidle k hk
      refine .inl ⟨⟨hstop, fun w hw => (hthrough w).mp (hall w hw)⟩, reapAt _ cs₂, ?_, hsettle, fun w hw => ?_⟩
      · rw [applyCores, hok]
        change (applyLoop srv.sha o x (unwanted configs) stopped (wanted configs) cs₁ >>= _) = _
        rw [hok₂]
        exact settleLoop_idle srv.sha o _ _ fun k hk => loaded_of_stopped (hsettle k hk)
      · obtain ⟨pid, p, hp, hproc⟩ := hstarted w hw
        refine ⟨pid, p, hp, ?_⟩
        rw [reaps_append, ← hproc]
        rfl
    · refine .inr ⟨fun h => hfail ((hthrough w).mpr (h.2 w hw)), r, ?_⟩
      rw [applyCores, hok]
      change (applyLoop srv.sha o x (unwanted configs) stopped (wanted configs) cs₁ >>= _) = _
      rw [herr]
      rfl
  · refine .inr ⟨fun h => hne' (h.1 k hk), r, ?_⟩
    rw [applyCores, herr]
    rfl

end

/-! ### The reply -/

section

variable {srv : Server} {o : Outcomes} {x : Exits} {spec : NodeSpec} {a : AgentState}

/-- How a core exits after its start and before the reply, if it does. -/
def exitAfter (x : Exits) (ws : List (ServerCore × String)) (k : ServerCore) : Option CoreProcess.Exit :=
  (roundsAfter k ws ++ [Point.settle, Point.reply]).findSome? (x · k)

/-- The cores when the reply is built. -/
structure Reached (x : Exits) (configs : List (ServerCore × Option String)) (cs : CoreMap) : Prop where
  idle : ∀ k ∈ unwanted configs, (cs k).proc.phase = .stopped
  started : ∀ w ∈ wanted configs, ∃ pid, (cs w.1).proc.phase =
    ((exitAfter x (wanted configs) w.1).map CoreProcess.Exit.phase).getD (.running pid (some w.2))

theorem apply_cases (srv : Server) (o : Outcomes) (x : Exits) (spec : NodeSpec) (a : AgentState) :
    (∃ configs, plan srv o spec = .ok configs ∧ Passes o configs a.cores ∧
      Reached x configs (apply srv o x spec a).1.cores ∧
      (apply srv o x spec a).2 = aggregateStatus (apply srv o x spec a).1.cores none) ∨
    (¬ Succeeds srv o spec a ∧ (apply srv o x spec a).2.state = .errored) := by
  rcases hplan : plan srv o spec with e | configs
  · refine .inr ⟨?_, by rw [apply, applySpec, hplan]; rfl⟩
    rintro ⟨configs, h, -⟩
    rw [hplan] at h
    cases h
  obtain ⟨hnd, hne⟩ := plan_ready hplan
  rcases applyCores_cases srv o x a.cores hnd hne with
    ⟨hpass, cs, hok, hidle, hstarted⟩ | ⟨hpass, r, herr⟩
  · have hspec : applySpec srv o x spec a = (cs, none) := by
      rw [applySpec, hplan]
      simp [hok]
    have hcores : (apply srv o x spec a).1.cores = reapAt (x .reply) cs := by rw [apply, hspec]
    refine .inl ⟨configs, rfl, hpass, ⟨fun k hk => ?_, fun w hw => ?_⟩, by rw [apply, hspec]⟩
    · rw [hcores, reapAt, reapIf_of_idle _ (loaded_of_stopped (hidle k hk))]
      exact hidle k hk
    obtain ⟨pid, p, hp, hproc⟩ := hstarted w hw
    refine ⟨pid, ?_⟩
    have hreply : (reapAt (x .reply) cs w.1).proc =
        reaps x w.1 (roundsAfter w.1 (wanted configs) ++ [.settle, .reply]) p := by
      rw [show roundsAfter w.1 (wanted configs) ++ [.settle, .reply] =
        (roundsAfter w.1 (wanted configs) ++ [.settle]) ++ [.reply] by simp, reaps_append, ← hproc]
      rfl
    rw [hcores, hreply, phase_reaps x w.1 _ hp]
    rfl
  · refine .inr ⟨?_, ?_⟩
    · rintro ⟨configs', h, hpass'⟩
      rw [hplan] at h
      exact hpass (Except.ok.inj h ▸ hpass')
    · obtain ⟨cs, e⟩ := r
      have hspec : applySpec srv o x spec a = (cs, some e) := by
        rw [applySpec, hplan]
        simp [herr]
      rw [apply, hspec]
      rfl

/-- Every core with inbounds in the spec runs on the config built from it, and no other core runs. -/
def RunsSpec (srv : Server) (o : Outcomes) (spec : NodeSpec) (cs : CoreMap) : Prop :=
  ∃ spec', o.finalSpec spec = .ok spec' ∧ ∀ k, ((∃ ib ∈ spec.inbounds, serverOf ib = k) →
      ∃ cfg, srv.buildConfig k (coreSpec spec' k) = .ok cfg ∧ (cs k).proc.loaded = some (some cfg)) ∧
    ((∀ ib ∈ spec.inbounds, serverOf ib ≠ k) → (cs k).proc.loaded = none)

/-- No core exits after its start; or all do, and one of them with an error, so that it shows. -/
def ExitsShow (x : Exits) (ws : List (ServerCore × String)) : Prop :=
  (∀ w ∈ ws, exitAfter x ws w.1 = none) ∨
    ((∀ w ∈ ws, exitAfter x ws w.1 ≠ none) ∧ ∃ w ∈ ws, ∃ err, exitAfter x ws w.1 = some (.failed err))

variable {configs : List (ServerCore × Option String)} {cs : CoreMap} {w : ServerCore × String}

theorem Reached.loaded (h : Reached x configs cs) (hw : w ∈ wanted configs) : (cs w.1).proc.loaded =
    if exitAfter x (wanted configs) w.1 = none then some (some w.2) else none := by
  obtain ⟨pid, hphase⟩ := h.started w hw
  rw [CoreProcess.loaded, hphase]
  rcases exitAfter x (wanted configs) w.1 with _ | _ | err
  · rfl
  · rfl
  · rfl

theorem Reached.errored (h : Reached x configs cs) (hw : w ∈ wanted configs) :
    (cs w.1).proc.phase = .errored ↔ ∃ err, exitAfter x (wanted configs) w.1 = some (.failed err) := by
  obtain ⟨pid, hphase⟩ := h.started w hw
  rw [hphase]
  rcases exitAfter x (wanted configs) w.1 with _ | _ | err
  · simp
  · simp [CoreProcess.Exit.phase]
  · simp [CoreProcess.Exit.phase]

theorem mem_wanted_or_unwanted (h : configs.map fst = kinds) (k : ServerCore) :
    k ∈ unwanted configs ∨ ∃ w ∈ wanted configs, w.1 = k := by
  obtain ⟨⟨k', c⟩, hc, rfl⟩ := mem_map.mp (h ▸ mem_kinds k)
  rcases c with _ | cfg
  · exact .inl (mem_unwanted.mpr hc)
  · exact .inr ⟨(k', cfg), mem_wanted.mpr hc, rfl⟩

/-- The node runs the spec exactly if no core exits after its start. -/
theorem runsSpec_iff (hplan : plan srv o spec = .ok configs) (h : Reached x configs cs) :
    RunsSpec srv o spec cs ↔ ∀ w ∈ wanted configs, exitAfter x (wanted configs) w.1 = none := by
  obtain ⟨spec', hfinal, hmem⟩ := plan_mem hplan
  constructor
  · rintro ⟨spec'', -, hruns⟩ w hw
    have hsome : ¬ ∀ ib ∈ spec.inbounds, serverOf ib ≠ w.1 := fun hno => by
      have hnone := (hmem _ (mem_wanted.mp hw)).1.mpr hno
      cases hnone
    push Not at hsome
    obtain ⟨cfg, -, hloaded⟩ := (hruns w.1).1 hsome
    by_contra hexit
    rw [h.loaded hw, if_neg hexit] at hloaded
    cases hloaded
  · intro hnone
    refine ⟨spec', hfinal, fun k => ?_⟩
    rcases mem_wanted_or_unwanted (plan_keys hplan) k with hk | ⟨w, hw, rfl⟩
    · refine ⟨?_, fun _ => loaded_of_stopped (h.idle k hk)⟩
      rintro ⟨ib, hib, hserver⟩
      exact absurd hserver ((hmem _ (mem_unwanted.mp hk)).1.mp rfl ib hib)
    have hloaded := h.loaded hw
    rw [if_pos (hnone w hw)] at hloaded
    refine ⟨fun _ => ⟨w.2, ((hmem _ (mem_wanted.mp hw)).2 w.2 rfl).1, hloaded⟩, fun hno => ?_⟩
    have hcontra := (hmem _ (mem_wanted.mp hw)).1.mpr hno
    cases hcontra

/-- The summary of a call without errors is errored exactly if every core that was started has exited,
    one of them with an error. -/
theorem reached_errored_iff (hkeys : configs.map fst = kinds) (h : Reached x configs cs) :
    (aggregateStatus cs none).state = .errored ↔ (∀ w ∈ wanted configs, exitAfter x (wanted configs) w.1 ≠ none) ∧
        ∃ w ∈ wanted configs, ∃ err, exitAfter x (wanted configs) w.1 = some (.failed err) := by
  rw [aggregateStatus_errored_iff]
  refine and_congr ⟨fun hidle w hw hexit => ?_, fun hexit k => ?_⟩ ⟨?_, ?_⟩
  · have hloaded := h.loaded hw
    rw [if_pos hexit, hidle] at hloaded
    cases hloaded
  · rcases mem_wanted_or_unwanted hkeys k with hk | ⟨w, hw, rfl⟩
    · exact loaded_of_stopped (h.idle k hk)
    · rw [h.loaded hw, if_neg (hexit w hw)]
  · rintro ⟨k, hk⟩
    rcases mem_wanted_or_unwanted hkeys k with hidle | ⟨w, hw, rfl⟩
    · rw [h.idle k hidle] at hk
      cases hk
    · exact ⟨w, hw, (h.errored hw).mp hk⟩
  · rintro ⟨w, hw, herr⟩
    exact ⟨w.1, (h.errored hw).mpr herr⟩

/-- A reply that the master accepts means that the node runs the spec exactly if the call fails in one of
    its steps or the exits of the started cores show. -/
theorem accepted_apply_runs_iff (srv : Server) (o : Outcomes) (x : Exits) (spec : NodeSpec) (a : AgentState) :
    ((∃ s, ensureApplySuccess (apply srv o x spec a).2 = .ok s) → RunsSpec srv o spec (apply srv o x spec a).1.cores) ↔
      ∀ configs, plan srv o spec = .ok configs → Passes o configs a.cores → ExitsShow x (wanted configs) := by
  rw [ensureApplySuccess_ok_iff]
  rcases apply_cases srv o x spec a with ⟨configs, hplan, hpass, hreached, hreply⟩ | ⟨hfail, herr⟩
  · rw [hreply, Ne, reached_errored_iff (plan_keys hplan) hreached, runsSpec_iff hplan hreached]
    have honly : (∀ configs', plan srv o spec = .ok configs' → Passes o configs' a.cores →
        ExitsShow x (wanted configs')) ↔ ExitsShow x (wanted configs) := by
      constructor
      · intro h
        exact h configs hplan hpass
      · intro h configs' hplan' _
        rw [hplan] at hplan'
        exact Except.ok.inj hplan' ▸ h
    rw [honly, ExitsShow, or_comm, or_iff_not_imp_left]
  · constructor
    · intro _ configs hplan hpass
      exact absurd ⟨configs, hplan, hpass⟩ hfail
    · intro _ haccepted
      exact absurd herr haccepted

end

/-- A VLESS inbound of one core. -/
def vlessOf (core : String) : SpecInbound :=
  ⟨core, core ++ "-in", "vless", "::", 443, [], none, "", none, 0, 0, ""⟩

/-- One inbound for sing-box and one for Xray. -/
def twoCores : NodeSpec := { emptySpec with inbounds := [vlessOf "singbox", vlessOf "xray"] }

/-- Xray dies right after the call has started it. -/
def xrayDies : Exits := fun p k => if p = .settle ∧ k = .xray then some (.failed "exit status 1") else none

/-- The reply says that the node is running, and Xray is not. -/
theorem dead_core_hidden : (∃ s, ensureApplySuccess (apply plainServer smooth xrayDies twoCores freshAgent).2 = .ok s) ∧
    ¬ RunsSpec plainServer smooth twoCores (apply plainServer smooth xrayDies twoCores freshAgent).1.cores := by
  refine ⟨⟨_, rfl⟩, ?_⟩
  rintro ⟨spec', -, hruns⟩
  obtain ⟨cfg, -, hloaded⟩ := (hruns .xray).1 ⟨vlessOf "xray", by decide, by decide⟩
  cases hloaded

end Honey.Agent
