import Mentat.Daemon.Section

/-!
# The liveness sentinel

A driver waits on the ref of its actor's `run()`, and the ref resolves when the actor dies. So a
ref may stay pending only while its actor is live: `Sentinel`.

A death resolves the pending refs of its actor in the same section, and a call on a dead actor
gets a resolved ref. One path is left: a registration revives the calls its agent reports, for any
actor the agent holds, without looking at whether the row is dead. `Section.refsLive` says that it
does not happen, and then the sentinel holds over every run.
-/

namespace Mentat

/-- Every pending ref names an actor that is in the table and not dead. -/
def Sentinel (st : State) : Prop :=
  ∀ rid r, st.refs.get rid = some r → r.state = .pending →
    ∃ x a, r.actor = some x ∧ st.actors.get x = some a ∧ a.state.isDead = false

variable {cfg : Cfg} {ops : ClaimOps} {env : Env} {st st' : State}

namespace Sentinel

/-- Refs that only resolve or go, and live actors that stay live. -/
theorem settle (h : Sentinel st)
    (hr : ∀ rid r', st'.refs.get rid = some r' → r'.state = .pending →
      ∃ r, st.refs.get rid = some r ∧ r.state = .pending ∧ r.actor = r'.actor)
    (ha : Ages (fun _ _ _ => False) st.actors st'.actors) : Sentinel st' := by
  intro rid r' hr' hp
  obtain ⟨r, hr0, hp0, hact⟩ := hr rid r' hr' hp
  obtain ⟨x, a, hx, hxa, hl⟩ := h rid r hr0 hp0
  rcases ha.forth hxa hl with ⟨a', ha', hl'⟩ | ⟨_, hf⟩
  · exact ⟨x, a', hact ▸ hx, ha', hl'⟩
  · exact hf.elim

theorem of_eq (h : Sentinel st) (hr : st'.refs = st.refs)
    (ha : Ages (fun _ _ _ => False) st.actors st'.actors) : Sentinel st' :=
  h.settle (fun _ r' hr' hp => ⟨r', hr ▸ hr', hp, rfl⟩) ha

theorem tryPlace (h : Sentinel st) : Sentinel (tryPlace cfg ops env st) :=
  h.of_eq (tryPlace_refs _ _ _ _) (.of_eq (tryPlace_actors _ _ _ _))

/-- A death takes the actor's pending refs with it. -/
theorem markActorDead (h : Sentinel st) (x : ActorId) (reason : String) :
    Sentinel (markActorDead cfg ops env st x reason) := by
  -- A ref still pending after the fan-out is not the actor's, and its own actor is another.
  have hfan : ∀ s : State, (∀ rid r, s.refs.get rid = some r → r.state = .pending →
      r.actor ≠ some x → ∃ y a, r.actor = some y ∧ s.actors.get y = some a ∧
        a.state.isDead = false) → Sentinel (fanOutDeath cfg ops env s x reason) := by
    intro s hs rid r' hr' hp
    rw [fanOutDeath_refs, Table.get_map, Option.map_eq_some_iff] at hr'
    obtain ⟨r, hr, rfl⟩ := hr'
    unfold RefInfo.fail at hp ⊢
    split at hp
    · cases hp
    · next hc =>
      rw [if_neg hc, fanOutDeath_actors]
      exact hs rid r hr hp fun hx => hc ⟨hx, hp⟩
  unfold Mentat.markActorDead
  split
  · exact hfan st fun rid r hr hp _ => h rid r hr hp
  · split
    · exact h
    · refine hfan _ fun rid r hr hp hne => ?_
      obtain ⟨y, b, hy, hyb, hl⟩ := h rid r hr hp
      refine ⟨y, b, hy, ?_, hl⟩
      exact (Table.get_modify_of_ne fun he : y = x => hne (by rw [hy, he])).trans hyb

theorem buryAll (h : Sentinel st) (ids : List ActorId) (reason : String) :
    Sentinel (buryAll cfg ops env st ids reason) :=
  buryAll_keeps cfg ops env st (fun _ x why hs => hs.markActorDead x why) h ids reason

theorem killActor (h : Sentinel st) (x : ActorId) : Sentinel (killActor cfg ops env st x) := by
  rcases killActor_cases cfg ops env st x with he | ⟨_, _, _, _, _, he⟩ | ⟨_, _, _, _, he⟩
  · rw [he]
    exact h
  · rw [he]
    exact h.of_eq rfl (.of_eq rfl)
  · rw [he]
    exact h.markActorDead x _

/-- A new row is live, so nothing is lost even where it replaces another. -/
theorem createActor (h : Sentinel st) (r : ActorCreate) :
    Sentinel (createActor cfg ops env st r).1 := by
  unfold Mentat.createActor
  split
  · exact h
  · next bundle agent ip hc =>
    have h1 : Sentinel (putSpawning st r bundle) := by
      intro rid ref hr hp
      obtain ⟨x, a, hx, hxa, hl⟩ := h rid ref hr hp
      by_cases he : x = r.actorId
      · exact ⟨x, newActor st r bundle, hx, he ▸ Table.get_set_self _ _ _, rfl⟩
      · exact ⟨x, a, hx, (Table.get_set_of_ne he).trans hxa, hl⟩
    simp only
    split
    · exact h1.of_eq rfl (.of_eq rfl)
    · exact h1.markActorDead _ _

/-- A call on a live actor may wait, and one on a dead actor is answered at once. -/
theorem actorCall (h : Sentinel st) (r : ActorCall) : Sentinel (actorCall env st r).1 := by
  have hput : ∀ (refs : Table RefId RefInfo) (rid : RefId) (ref : RefInfo),
      (∀ k q, refs.get k = some q → q.state = .pending →
        ∃ x a, q.actor = some x ∧ st.actors.get x = some a ∧ a.state.isDead = false) →
      (ref.state = .pending → ∃ x a, ref.actor = some x ∧ st.actors.get x = some a ∧
        a.state.isDead = false) →
      ∀ k q, (refs.set rid ref).get k = some q → q.state = .pending →
        ∃ x a, q.actor = some x ∧ st.actors.get x = some a ∧ a.state.isDead = false := by
    intro refs rid ref hrefs href k q hq hp
    rw [Table.get_set] at hq
    split at hq
    · cases hq
      exact href hp
    · exact hrefs k q hq hp
  unfold Mentat.actorCall
  simp only
  split
  · exact h.of_eq rfl (.of_eq rfl)
  · next a ha =>
    replace ha : st.actors.get r.actorId = some a := ha
    simp only
    split
    · exact hput _ _ _ h fun hp => by cases hp
    · next hd =>
      have hl : a.state.isDead = false := by
        cases hs : a.state with
        | dead why ms => exact absurd hs (hd why ms)
        | _ => rfl
      have hpend : ∀ state, Sentinel { st with
          nextRef := (st.nextRef + 1) % 2 ^ 64
          refs := st.refs.set (st.newRefId r.actorId).1 (newRef env r state) } :=
        fun state => hput _ _ _ h fun _ => ⟨r.actorId, a, rfl, ha, hl⟩
      split
      · split
        · exact (hpend .pending).of_eq rfl (.of_eq rfl)
        · exact (hpend .pending).of_eq rfl (holdCall_ages _ r _)
      · split
        · exact (hpend .pending).of_eq rfl (holdCall_ages _ r _)
        · exact hpend _

theorem agentFrame (h : Sentinel st) (agentId : AgentId) (msg : FromAgent) :
    Sentinel (agentFrame cfg ops env st agentId msg) := by
  cases msg with
  | spawnResult x ok error pid =>
    obtain ⟨actors, hn⟩ := notePid_frame st x pid
    have h1 : Sentinel (notePid st x pid) := h.of_eq (by rw [hn]) (notePid_ages st x pid)
    unfold Mentat.agentFrame spawnResult
    simp only
    split
    · have h2 : Sentinel { notePid st x pid with
          actors := (notePid st x pid).actors.modify x fun a =>
            if a.state = .spawning then { a with state := .running } else a } :=
        h1.of_eq rfl (start_ages _ x)
      split
      · exact h2.of_eq rfl (.of_eq rfl)
      · exact h2
    · exact h1.markActorDead x _
  | result ref ok error payload =>
    refine h.settle (fun rid r' hr hp => ?_) (.of_eq rfl)
    simp only [Mentat.agentFrame, actorResult, Table.get_modify] at hr
    split at hr
    · rw [Option.map_eq_some_iff] at hr
      obtain ⟨r, hr, rfl⟩ := hr
      split at hp
      · -- A result resolves a pending ref, whatever it holds.
        simp only at hp
        split at hp <;> cases hp
      · exact ⟨r, hr, hp, by split <;> rfl⟩
    · exact ⟨r', hr, hp, rfl⟩
  | exit x exitCode signal => exact h.markActorDead x _
  | serviceNote service note =>
    unfold Mentat.agentFrame serviceNote
    simp only
    split <;> exact h.of_eq rfl (.of_eq rfl)

theorem sweepAgents (h : Sentinel st) : Sentinel (sweepAgents cfg ops env st) := by
  obtain ⟨e, hd⟩ := degradeLate_frame cfg env st
  refine sweepAgents_keeps cfg ops env st (fun s e hs => hs.of_eq rfl (.of_eq rfl))
    (fun s x why hs => hs.markActorDead x why) ?_
  rw [hd]
  exact h.of_eq rfl (.of_eq rfl)

/-- The sweep forgets dead actors only, and their refs with them. -/
theorem sweepLifecycle (h : Sentinel st) : Sentinel (sweepLifecycle cfg ops env st) := by
  obtain ⟨p, e, ht⟩ := timeOutPgs_frame cfg env st
  have h1 : Sentinel (timeOutPgs cfg env st) := by
    rw [ht]
    refine h.settle (fun rid r' hr hp => ?_) (.of_eq rfl)
    simp only [Table.get_map, Option.map_eq_some_iff] at hr
    obtain ⟨r, hr, rfl⟩ := hr
    unfold RefInfo.warn at hp ⊢
    split at hp
    · next hc => exact ⟨r, hr, hp, by rw [if_pos hc]⟩
    · next hc => exact ⟨r, hr, hp, by rw [if_neg hc]⟩
  have h2 : Sentinel (Mentat.sweepAgents cfg ops env (timeOutPgs cfg env st)) := h1.sweepAgents
  refine h2.settle (fun rid r' hr hp => ?_) (sweepHistory_ages cfg env _)
  unfold Mentat.sweepLifecycle at hr
  rcases sweepHistory_frame cfg env (Mentat.sweepAgents cfg ops env (timeOutPgs cfg env st)) with
    hs | ⟨e, hs⟩
  · rw [hs] at hr
    exact ⟨r', hr, hp, rfl⟩
  · rw [hs] at hr
    simp only [Table.get_filter, Option.filter_eq_some_iff] at hr
    exact ⟨r', hr.1, hp, rfl⟩

/-- A head change forgets every ref along with the actors it gives up. -/
theorem elect (h : Sentinel st) (candidate : NodeId) : Sentinel (elect env st candidate) := by
  rcases elect_frame env st candidate with ⟨_, _, _, -, he⟩ | ⟨_, _, _, -, he⟩
  · rw [he]
    exact h.of_eq rfl (.of_eq rfl)
  · rw [he]
    intro rid r hr
    cases hr

end Sentinel

/-! ## Registration -/

/-- The registration revives no call of an actor whose row is dead. -/
def Section.refsLive (st : State) : Section → Bool
  | .register _ r => decide (∀ rid ∈ r.reported, st.refs.has rid = false →
      ∀ p ∈ rsplitOnce rid, ∀ a ∈ st.actors.get p.1, a.agent = r.agentId → a.state.isDead = false)
  | _ => true

/-- Reviving a call whose actor, if it is this agent's, is live. -/
theorem Sentinel.adoptRef (h : Sentinel st) {agentId : AgentId} {rid : RefId}
    (hl : st.refs.has rid = false → ∀ p ∈ rsplitOnce rid, ∀ a ∈ st.actors.get p.1,
      a.agent = agentId → a.state.isDead = false) : Sentinel (adoptRef env agentId st rid) := by
  unfold Mentat.adoptRef
  split
  · exact h
  · next hn =>
    split
    · exact h
    · next x n hs =>
      split
      · exact h
      · next a ha =>
        split
        · exact h
        · next hag =>
          intro k q hq hp
          rw [Table.get_set] at hq
          split at hq
          · cases hq
            exact ⟨x, a, rfl, ha, hl (Bool.eq_false_iff.mpr hn) (x, n) hs a ha (not_not.mp hag)⟩
          · exact h k q hq hp

theorem Sentinel.adoptRefs (h : Sentinel st) {r : AgentRegister}
    (hl : ∀ rid ∈ r.reported, st.refs.has rid = false → ∀ p ∈ rsplitOnce rid,
      ∀ a ∈ st.actors.get p.1, a.agent = r.agentId → a.state.isDead = false) :
    Sentinel (adoptRefs env st r) := by
  unfold Mentat.adoptRefs
  generalize r.reported = rids at hl
  induction rids generalizing st with
  | nil => exact h
  | cons rid rids ih =>
    refine ih (h.adoptRef (hl rid List.mem_cons_self)) fun rid' hrid hn => ?_
    obtain ⟨refs, n, hframe⟩ := adoptRef_frame env st r.agentId rid
    rw [hframe] at hn ⊢
    refine hl rid' (List.mem_cons_of_mem rid hrid) ?_
    -- A ref unknown after the first was adopted was unknown before.
    by_contra hk
    obtain ⟨q, hq⟩ := Table.has_iff.mp (Bool.eq_true_of_not_eq_false hk)
    have hq' := adoptRef_known env st r.agentId rid hq
    rw [hframe] at hq'
    exact absurd (Table.has_iff.mpr ⟨q, hq'⟩) (by simp [hn])

theorem Sentinel.register (h : Sentinel st) (w : FrameWriter) {r : AgentRegister}
    (hl : (Section.register w r).refsLive st = true) :
    Sentinel (register cfg ops env st w r) := by
  simp only [Section.refsLive, decide_eq_true_eq] at hl
  have hrefs : (adoptActors (insertAgent st w r) r).refs = st.refs := adoptActors_refs _ r
  have h1 : Sentinel (adoptActors (insertAgent st w r) r) := by
    intro rid ref hr hp
    rw [hrefs] at hr
    obtain ⟨x, a, hx, hxa, hlive⟩ := h rid ref hr hp
    exact ⟨x, a, hx, by rw [adoptActors_actors]; exact adoptTable_known _ r hxa, hlive⟩
  have h2 : Sentinel (Mentat.adoptRefs env (adoptActors (insertAgent st w r) r) r) := by
    refine h1.adoptRefs fun rid hrid hn p hp a ha hag => ?_
    rw [adoptActors_actors] at ha
    rcases adoptTable_get (insertAgent st w r) r ha with ha | ⟨-, x, -, -, rfl⟩
    · exact hl rid hrid (by rw [← hn, hrefs]) p hp a ha hag
    · rfl
  have h3 : Sentinel (buryMissing cfg ops env
      (Mentat.adoptRefs env (adoptActors (insertAgent st w r) r) r) r) := h2.buryAll _ _
  have h4 : Sentinel (resumeState cfg ops env st w r) := by
    refine h3.settle (fun rid r' hr hp => ?_) (.of_eq rfl)
    simp only [resumeState, failLost, Table.get_map, Option.map_eq_some_iff] at hr
    obtain ⟨ref, hr, rfl⟩ := hr
    split at hp
    · cases hp
    · next hc => exact ⟨ref, hr, hp, by rw [if_neg hc]⟩
  rw [register_eq]
  have h5 : Sentinel (drainHeld env (repliedState cfg ops env st w r) w r.agentId) :=
    h4.of_eq rfl (drainHeld_ages env (repliedState cfg ops env st w r) w _ r.agentId)
  exact h5.tryPlace

/-! ## Whole runs -/

theorem Sentinel.exec (h : Sentinel st) {sec : Section} (hl : sec.refsLive st = true) :
    Sentinel (exec cfg ops env st sec) := by
  cases sec with
  | hello w hello =>
    cases hh : Mentat.hello env st w hello with
    | none =>
      rw [exec_hello_none _ _ _ hh]
      exact h
    | some p =>
      obtain ⟨st', orphans⟩ := p
      rw [exec_hello_some _ _ _ hh]
      obtain ⟨-, -, e, rfl⟩ := hello_eq_some hh
      exact h
  | claim client name shape =>
    obtain ⟨c, g, e, he⟩ := claim_frame ops st client name shape
    simp only [Mentat.exec, he]
    exact h
  | pgCreate r => exact Sentinel.tryPlace h
  | pgRemove pgId =>
    simp only [Mentat.exec, pgRemove]
    split <;> exact Sentinel.tryPlace h
  | actorCreate r => exact h.createActor r
  | actorCall r => exact h.actorCall r
  | killActor x => exact h.killActor x
  | closeLink w => exact h
  | dropRow client moved =>
    simp only [Mentat.exec, dropRow]
    split <;> exact h
  | reapRow client => exact h
  | reapArm client => exact h
  | reapCheck client group token =>
    rcases reapCheck_cases env st client group token with ⟨-, he⟩ | ⟨-, -, he⟩ | ⟨-, -, he⟩
    · simp only [Mentat.exec, he]
      exact h
    · simp only [Mentat.exec, he]
      exact h
    · obtain ⟨-, e, ht⟩ := reapTake_spec env st client group
      simp only [Mentat.exec, he, ht]
      exact h
  | reapFinish client =>
    refine Sentinel.tryPlace (h.settle (fun rid r hr hp => ?_) (.of_eq rfl))
    simp only [Table.get_filter, Option.filter_eq_some_iff] at hr
    exact ⟨r, hr.1, hp, rfl⟩
  | register w r => exact h.register w hl
  | agentFrame agentId msg => exact h.agentFrame agentId msg
  | agentEof agentId w =>
    obtain ⟨a, e, he⟩ := agentEof_frame cfg env st agentId w
    simp only [Mentat.exec, he]
    exact h
  | sweepLifecycle => exact h.sweepLifecycle
  | elect candidate => exact h.elect candidate
  | commitIslands fresh => exact Sentinel.tryPlace h
  | peers t => exact h

/-- In every run whose registrations revive calls of live actors only, a pending ref names a live
actor. -/
theorem pending_refs_live {st : State}
    (h : (daemon cfg ops).Reach (fun st a => a.2.refsLive st) st) :
    ∀ rid r, st.refs.get rid = some r → r.state = .pending →
      ∃ x a, r.actor = some x ∧ st.actors.get x = some a ∧ a.state.isDead = false := by
  refine h.invariant (I := Sentinel) ?_ ?_
  · rintro st ⟨_, _, _, rfl⟩ rid r hr
    cases hr
  · intro st a st' hst hok hn
    obtain ⟨-, rfl⟩ := daemon_next cfg ops hn
    exact hst.exec hok

/-- An actor with a call running on it. -/
def oneCall : List (Env × Section) := [
  (Sample.at_ 0, .elect "n:1"),
  (Sample.at_ 1, .register 1 (Sample.registration [] [])),
  (Sample.at_ 2, .hello 2 (Sample.driver "c" true)),
  (Sample.at_ 3, Sample.group "c" "p:1"),
  (Sample.at_ 4, Sample.actor "c" "p:1" "a:1"),
  (Sample.at_ 5, Sample.call "c" "a:1")]

/-- The agent reports the call after an outage of its link. -/
def callResumed : List (Env × Section) := oneCall ++ [
  (Sample.at_ 6, .agentEof "ag" 1),
  (Sample.at_ 7, .register 3 (Sample.registration [Sample.resumed "a:1" [0] "c" ["a:1:1"]] []))]

theorem pending_refs_live_callResumed :
    ∃ st, (daemon Sample.cfg Sample.ops).Reach (fun st a => a.2.refsLive st) st ∧
      ∃ r, st.refs.get "a:1:1" = some r ∧ r.state = .pending ∧
        ∃ x a, r.actor = some x ∧ st.actors.get x = some a ∧ a.state.isDead = false := by
  have hrun : ((daemon Sample.cfg Sample.ops).run (fun st a => a.2.refsLive st) Sample.boot
      callResumed).any (fun st => (st.refs.get "a:1:1").any fun r => r.state == .pending) = true := by
    decide +kernel
  obtain ⟨st, hreach, hp⟩ := System.Reach.of_run hrun ⟨_, _, _, rfl⟩
  simp only [Option.any_eq_true, beq_iff_eq] at hp
  obtain ⟨r, hr, hpend⟩ := hp
  exact ⟨st, hreach, r, hr, hpend, pending_refs_live hreach "a:1:1" r hr hpend⟩

/-- The head moves away and comes back with the call still running on the agent. -/
def headReturns : List (Env × Section) := oneCall ++ [
  (Sample.at_ 6, .elect "n:9"),
  (Sample.at_ 7, .agentEof "ag" 1),
  (Sample.at_ 8, .elect "n:1"),
  (Sample.at_ 9, .register 3 (Sample.registration [Sample.resumed "a:1" [0] "c" ["a:1:1"]] []))]

/-- The call is pending again while its actor's row is dead, and no death will resolve it. -/
theorem headReturns_strands_call :
    ∃ st, (daemon Sample.cfg Sample.ops).Reach System.Free st ∧
      ∃ r a, st.refs.get "a:1:1" = some r ∧ r.state = .pending ∧ r.actor = some "a:1" ∧
        st.actors.get "a:1" = some a ∧ a.state.isDead = true := by
  have hrun : ((daemon Sample.cfg Sample.ops).run System.Free Sample.boot headReturns).any (fun st =>
      ((st.refs.get "a:1:1").any fun r => r.state == .pending && r.actor == some "a:1") &&
      (st.actors.get "a:1").any fun a => a.state.isDead) = true := by decide +kernel
  obtain ⟨st, hreach, hp⟩ := System.Reach.of_run hrun ⟨_, _, _, rfl⟩
  simp only [Bool.and_eq_true, Option.any_eq_true, beq_iff_eq] at hp
  obtain ⟨⟨r, hr, hpend, hact⟩, a, ha, hd⟩ := hp
  exact ⟨st, hreach, r, a, hr, hpend, hact, ha, hd⟩

end Mentat
