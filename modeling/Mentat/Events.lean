import Mentat.Publishes

/-!
# Events reproduce the agents

Each section of the daemon publishes what it changes of the agents (`Publishes.exec`), so a consumer
that holds a snapshot and applies every event after it lists the same agents, with the same rows, as
a fresh snapshot does at the end of any section: `events_reproduce_agents`.
-/

namespace Mentat

namespace Publishes

variable {st : State} {cfg : Cfg} {ops : ClaimOps} {env : Env}

/-! ## Requests of a client -/

theorem createActor {r : ActorCreate} (hf : st.actors.has r.actorId = false) :
    Publishes st (createActor cfg ops env st r).1 := by
  unfold Mentat.createActor
  split
  · exact .refl st
  · next bundle agent ip hc =>
    have hput : Publishes st (putSpawning st r bundle) :=
      note _ (.of_eq rfl) rfl (fun p hp => elsewhere_actorPatch hp)
        (listed_of_held rfl (putSpawning_held hc hf))
    simp only
    split
    · exact hput.trans (silent _ (.of_eq rfl) rfl rfl)
    · exact hput.trans (markActorDead _ _)

theorem actorCall (r : ActorCall) : Publishes st (actorCall env st r).1 := by
  have hframe : (Mentat.actorCall env st r).1.events = st.events := by
    unfold Mentat.actorCall
    simp only
    split
    · rfl
    · split
      · rfl
      · split <;> split <;> rfl
  have hagents : (Mentat.actorCall env st r).1.agents = st.agents :=
    (actorCall_quiet env st r).agents
  exact silent _ (.of_eq (actorCall_pgs env st r)) hframe
    (listed_of_held hagents (actorCall_held env st r))

/-- A new group waits, and holds nothing. -/
theorem pgCreate {r : PgCreate} (hf : st.pgs.has r.pgId = false) :
    Publishes st (pgCreate cfg ops env st r) := by
  let st1 : State := { st with pgs := st.pgs.set r.pgId (newPg env st r) }
  have hnew : (newPg env st r).placed = [] := by simp [PgInfo.placed, newPg]
  have hheld : ∀ a n, st1.Held a n ↔ st.Held a n := by
    refine fun a n => or_congr_left (exists_congr fun k => exists_congr fun p => ?_)
    constructor
    · rintro ⟨hk, hh⟩
      rcases Table.get_set_some hk with ⟨-, rfl⟩ | ⟨-, hk⟩
      · exact absurd hh (not_holds_of_unplaced hnew)
      · exact ⟨hk, hh⟩
    · rintro ⟨hk, hh⟩
      refine ⟨(Table.get_set_of_ne ?_).trans hk, hh⟩
      rintro rfl
      rw [Table.has_eq_false, hk] at hf
      cases hf
  have hcreated : Publishes st (st1.emitPatch "pg_created" (pgPatch st1 r.pgId).toList "") := by
    refine intro [⟨"pg_created", (pgPatch st1 r.pgId).toList, ""⟩] ?_ rfl (fun e he p hp => ?_)
      (fun _ a ha => ⟨a, ha, rfl⟩) fun id _ => listed_congr rfl (hheld id)
    · rintro hu id pg ⟨hget, hst⟩
      rcases Table.get_set_some hget with ⟨-, rfl⟩ | ⟨-, hget⟩
      · exact hnew
      · exact hu id pg ⟨hget, hst⟩
    · rw [List.mem_singleton.mp he] at hp
      exact .inl (elsewhere_pgPatch hp)
  exact hcreated.trans (tryPlace env)

/-- The rows of the agents a removed group was on go with it. -/
theorem pgRemove (id : PgId) : Publishes st (pgRemove cfg ops env st id) := by
  let st1 : State := { st with pgs := st.pgs.modify id (·.remove env.now) }
  have hfewer : Fewer st st1 := .of_modify rfl fun _ hp => by cases hp
  unfold Mentat.pgRemove
  simp only
  split
  · next p hp =>
    obtain ⟨pg', hpg', rfl⟩ := Option.map_eq_some_iff.mp hp
    have hpg' : st1.pgs.get id = some pg' := hpg'
    have hget := hpg'
    simp only [st1, Table.get_modify_self, Option.map_eq_some_iff] at hget
    obtain ⟨pg, hpg, rfl⟩ := hget
    refine Publishes.trans ?_ (tryPlace env)
    refine emit st1 (pg.placed.map (·.agent)) hfewer rfl (fun p hp => ?_)
      (fun a ha p hp => List.mem_cons_of_mem _ ((mem_agentPatches hpg').mpr ⟨a, ha, hp⟩))
      (fun _ a ha => ⟨a, ha, rfl⟩) fun a ha => ?_
    · rcases List.mem_cons.mp hp with rfl | hp
      · exact .inl (elsewhere_table (by simp) rfl)
      · obtain ⟨a, -, hp⟩ := (mem_agentPatches hpg').mp hp
        exact .inr ⟨a, hp⟩
    · have hheld : ∀ n, st1.Held a n ↔ st.Held a n := by
        refine fun n => State.held_iff_of_map
          (show st1.pgs = st.pgs.map fun k p => if k = id then p.remove env.now else p from rfl) rfl
          fun k p hk => ?_
        split
        · next hid =>
          subst hid
          cases hpg.symm.trans hk
          refine iff_of_false (not_holds_of_removed rfl) ?_
          rintro ⟨-, b, hb, rfl, -⟩
          exact ha (List.mem_map_of_mem hb)
        · rfl
      exact listed_congr rfl hheld
  · next hno =>
    have hnone : st.pgs.get id = none := by
      have hno : st1.pgs.get id = none := Option.map_eq_none_iff.mp hno
      simpa [st1] using hno
    have hsame : Publishes st st1 := by
      refine silent st1 hfewer rfl (listed_of_held rfl fun a n => ?_)
      have hpgs : st1.pgs = st.pgs := Table.modify_of_get_none hnone _
      simp only [State.Held, hpgs]
      rfl
    exact hsame.trans (tryPlace env)

theorem hello (w : FrameWriter) (h : Hello) :
    Publishes st (((hello env st w h).map (·.1)).getD st) := by
  unfold Mentat.hello
  split
  · exact .refl st
  · simp only [Option.map_some, Option.getD_some]
    split
    · refine Publishes.trans (note { st with clients := st.clients.set h.clientId (helloRow st h) }
        (.of_eq rfl) rfl (fun p hp => ?_) rfl) (silent _ (.of_eq rfl) rfl rfl)
      rw [List.mem_singleton.mp hp]
      exact elsewhere_row (by simp) rfl
    · exact silent _ (.of_eq rfl) rfl rfl

theorem claim (client : ClientId) (name : String) (shape : Value) :
    Publishes st (claim ops st client name shape).1 := by
  unfold Mentat.claim
  simp only
  split
  · exact .refl st
  · split
    · exact .refl st
    · split
      · split
        · exact .refl st
        · exact silent _ (.of_eq rfl) rfl rfl
      · split
        · exact .refl st
        · split
          · exact .refl st
          · refine note _ (.of_eq rfl) rfl (fun p hp => ?_) rfl
            rw [List.mem_singleton.mp hp]
            exact elsewhere_table (by simp) rfl

theorem release (client : ClientId) (key : String × String) :
    Publishes st (release st client key) := by
  unfold Mentat.release
  split
  · exact .refl st
  · simp only
    split
    all_goals
      refine note _ (.of_eq rfl) rfl (fun p hp => ?_) rfl
      rw [List.mem_singleton.mp hp]
      exact elsewhere_table (by simp) rfl

theorem releaseAll (client : ClientId) : Publishes st (releaseAll st client) :=
  List.foldlRecOn _ _ (.refl st) fun _ hs key _ => hs.trans (release client key)

/-! ## The end of a client -/

/-- The event of one group that a reap removes. -/
def reapedEvent (st : State) (id : PgId) : Option Event :=
  (pgPatch st id).map fun p => ⟨"pg_removed", p :: agentPatches st id, "driver session closed"⟩

theorem emitReaped_eq (st : State) (ids : List PgId) (events : List Event) :
    emitReaped { st with events := events } ids =
      { st with events := events ++ ids.filterMap (reapedEvent st) } := by
  induction ids generalizing events with
  | nil => simp [emitReaped]
  | cons id ids ih =>
    -- Neither patch reads the log.
    cases hp : pgPatch st id with
    | none =>
      have hstep : emitReaped { st with events := events } (id :: ids) =
          emitReaped { st with events := events } ids := by
        have hp : pgPatch { st with events := events } id = none := hp
        simp only [emitReaped, List.foldl_cons, hp]
      rw [hstep, ih, List.filterMap_cons_none (by rw [reapedEvent, hp]; rfl)]
    | some p =>
      have hstep : emitReaped { st with events := events } (id :: ids) =
          emitReaped { st with events := events ++
            [⟨"pg_removed", p :: agentPatches st id, "driver session closed"⟩] } ids := by
        have hp : pgPatch { st with events := events } id = some p := hp
        simp only [emitReaped, List.foldl_cons, hp]
        rfl
      rw [hstep, ih, List.append_assoc, List.filterMap_cons_some (by rw [reapedEvent, hp]; rfl)]
      rfl

/-- A reap removes every group of its client, and each one's event has the rows of its agents. -/
theorem reapPgs (env : Env) (client : ClientId) : Publishes st (emitReaped
    { st with pgs := st.pgs.map fun _ p => p.reap client env.now }
    (env.select st.pgs fun _ p => p.owner == client && p.state != .removed)) := by
  let st1 : State := { st with pgs := st.pgs.map fun _ p => p.reap client env.now }
  let ids := env.select st.pgs fun _ p => p.owner == client && p.state != .removed
  have heq : emitReaped st1 ids = { st1 with
      events := st1.events ++ ids.filterMap (reapedEvent st1) } :=
    emitReaped_eq st1 ids st1.events
  have hfewer : Fewer st st1 := by
    refine .of_map rfl fun id pg hp => ?_
    unfold PgInfo.reap at hp ⊢
    split at hp
    · cases hp
    · next hno =>
      rw [if_neg hno]
      exact ⟨hp, rfl, rfl⟩
  suffices h : Publishes st { st1 with events := st1.events ++ ids.filterMap (reapedEvent st1) } by
    rw [← heq] at h
    exact h
  refine intro (ids.filterMap (reapedEvent st1)) (hfewer.trans (.of_eq rfl)).unplaced rfl ?_
    (fun _ a ha => ⟨a, ha, rfl⟩) fun a hno => ?_
  · intro e he p hp
    obtain ⟨id, -, he⟩ := List.mem_filterMap.mp he
    obtain ⟨q, hq, rfl⟩ := Option.map_eq_some_iff.mp he
    rcases List.mem_cons.mp hp with rfl | hp
    · exact .inl (elsewhere_pgPatch (Option.mem_toList.mpr hq))
    · obtain ⟨pg, hpg, -⟩ := Option.map_eq_some_iff.mp hq
      obtain ⟨a, -, hp⟩ := (mem_agentPatches hpg).mp hp
      exact .inr ⟨a, hp⟩
  · cases ha : st.agents.get a with
    | none =>
      intro g
      have hlist : st1.listed g a = st.listed g a := by
        have ha1 : st1.agents.get a = none := ha
        simp [State.listed, ha, ha1]
      exact hlist
    | some row =>
      have hheld : ∀ n, st1.Held a n ↔ st.Held a n := by
        refine fun n => State.held_iff_of_map
          (show st1.pgs = st.pgs.map fun _ p => p.reap client env.now from rfl) rfl fun k p hk => ?_
        unfold PgInfo.reap
        split
        · next hreap =>
          refine iff_of_false (not_holds_of_removed rfl) ?_
          -- Were the group on this agent, its event would have the agent's row.
          rintro ⟨-, b, hb, rfl, -⟩
          have hk1 : st1.pgs.get k = some (p.remove env.now) := by
            simp only [st1, Table.get_map, hk, Option.map_some, PgInfo.reap, if_pos hreap]
          have hid : k ∈ ids :=
            Env.mem_select.mpr ⟨p, hk, by simp [hreap.1, bne_iff_ne.mpr hreap.2]⟩
          have hpatch : agentPatch st1 b.agent =
              some (.set (agentPath row.group b.agent) (.agent (agentRow st1 b.agent row))) := by
            simp [agentPatch, st1, ha]
          have hevent : reapedEvent st1 k = some ⟨"pg_removed", .set (pgPath p.group k)
              (.pg (pgRow (p.remove env.now))) :: agentPatches st1 k, "driver session closed"⟩ := by
            simp only [reapedEvent, pgPatch, hk1, Option.map_some]
            rfl
          refine hno _ (List.mem_filterMap.mpr ⟨k, hid, hevent⟩) _ (List.mem_cons_of_mem _ ?_) hpatch
          exact (mem_agentPatches hk1).mpr ⟨b.agent, List.mem_map_of_mem hb, hpatch⟩
        · rfl
      exact listed_congr rfl hheld

theorem reapTake (client : ClientId) (group : String) :
    Publishes st (reapTake env st client group).1 := by
  have htimer : Publishes st { st with reapPending := st.reapPending.erase client } :=
    silent _ (.of_eq rfl) rfl rfl
  have hreleased := htimer.trans (releaseAll client)
  unfold Mentat.reapTake
  simp only
  generalize Mentat.releaseAll { st with reapPending := st.reapPending.erase client } client = s
    at hreleased
  have hreaped := hreleased.trans (reapPgs env client)
  split
  · exact hreaped
  · exact hreaped.trans (note _ (.refl _) rfl (by simp) rfl)

theorem reapCheck (client : ClientId) (group : String) (token : Option Nat) :
    Publishes st (reapCheck env st client group token).1 := by
  rcases reapCheck_cases env st client group token with ⟨-, he⟩ | ⟨-, -, he⟩ | ⟨-, -, he⟩
  · rw [he]
    exact .refl st
  · rw [he]
    exact silent _ (.of_eq rfl) rfl rfl
  · rw [he]
    exact reapTake client group

/-! ## Agents -/

/-- The agent is listed in the group it was listed in before. -/
theorem insertAgent {w : FrameWriter} {r : AgentRegister}
    (hg : (st.agents.get r.agentId).all (·.group == r.group) = true) :
    Publishes st (insertAgent st w r) := by
  let st1 : State := { st with
    nextSeq := st.nextSeq + 1
    agents := st.agents.set r.agentId (agentOfRegister r w st.nextSeq) }
  refine emit st1 [r.agentId] (.of_eq rfl) rfl
    (fun p hp => .inr ⟨_, Option.mem_toList.mp hp⟩) (fun a ha p hp => ?_) (fun id a ha => ?_)
    fun a ha => ?_
  · rw [List.mem_singleton.mp ha] at hp
    exact Option.mem_toList.mpr hp
  · by_cases hid : id = r.agentId
    · subst hid
      rw [ha] at hg
      exact ⟨_, Table.get_set_self _ _ _, (beq_iff_eq.mp hg).symm⟩
    · exact ⟨a, (Table.get_set_of_ne hid).trans ha, rfl⟩
  · have hget : st1.agents.get a = st.agents.get a :=
      Table.get_set_of_ne fun he => ha (by simp [he])
    exact listed_congr (by rw [hget]) fun n => .rfl

/-- The adopted actors are on the agent that reports them. -/
theorem adoptActors (r : AgentRegister) : Publishes st (adoptActors st r) := by
  let st1 : State := { st with actors := adoptTable st r }
  have hheld : ∀ a, a ≠ r.agentId → ∀ n, st1.Held a n ↔ st.Held a n := by
    refine fun a ha n => or_congr_right (exists_congr fun k => exists_congr fun x => ?_)
    constructor
    · rintro ⟨hk, hh⟩
      rcases adoptTable_get st r hk with hk | ⟨-, y, -, -, rfl⟩
      · exact ⟨hk, hh⟩
      · exact absurd hh.2.1.symm ha
    · rintro ⟨hk, hh⟩
      exact ⟨adoptTable_known st r hk, hh⟩
  unfold Mentat.adoptActors
  simp only
  split
  · next hnone =>
    have hsame : adoptTable st r = st.actors := by
      rw [adoptTable, List.isEmpty_iff.mp hnone]
      rfl
    rw [hsame]
    exact .refl st
  · refine emit st1 [r.agentId] (.of_eq rfl) rfl (fun p hp => ?_) (fun a ha p hp => ?_)
      (fun _ a ha => ⟨a, ha, rfl⟩) fun a ha => listed_congr rfl (hheld a fun he => ha (by simp [he]))
    · refine (List.mem_append.mp hp).imp (fun hp => ?_) fun hp => ⟨_, Option.mem_toList.mp hp⟩
      obtain ⟨x, -, rfl⟩ := List.mem_map.mp hp
      exact elsewhere_table (by simp) rfl
    · rw [List.mem_singleton.mp ha] at hp
      exact List.mem_append_right _ (Option.mem_toList.mpr hp)

/-- Draining the held calls takes nothing from an actor that it holds. -/
theorem drainHeld (w : FrameWriter) (id : AgentId) : Publishes st (drainHeld env st w id) := by
  refine silent _ (.of_eq rfl) rfl (listed_of_held rfl ?_)
  refine State.held_of_actors_map (f := fun _ a => if a.agent = id ∧ a.state.isDead = false then
    { a with queuedCalls := [] } else a) (by rfl) (by rfl) fun k x a g => ?_
  split <;> rfl

theorem register {w : FrameWriter} {r : AgentRegister}
    (hg : (st.agents.get r.agentId).all (·.group == r.group) = true) :
    Publishes st (register cfg ops env st w r) := by
  obtain ⟨refs, n, hrefs⟩ := adoptRefs_frame env (Mentat.adoptActors (Mentat.insertAgent st w r) r) r
  have hadopt : Publishes st (adoptRefs env (Mentat.adoptActors (Mentat.insertAgent st w r) r) r) := by
    rw [hrefs]
    exact ((insertAgent hg).trans (adoptActors r)).trans (silent _ (.of_eq rfl) rfl rfl)
  have hbury : Publishes st (buryMissing cfg ops env
      (adoptRefs env (Mentat.adoptActors (Mentat.insertAgent st w r) r) r) r) :=
    hadopt.trans (buryAll _ _)
  have hreply : Publishes st (repliedState cfg ops env st w r) :=
    hbury.trans (silent _ (.of_eq rfl) rfl rfl)
  rw [register_eq]
  exact (hreply.trans (drainHeld w r.agentId)).trans (tryPlace env)

theorem spawnResult (x : ActorId) (ok : Bool) (error : String) (pid : Nat) :
    Publishes st (spawnResult cfg ops env st x ok error pid) := by
  have hnote : Publishes st (notePid st x pid) := by
    refine silent _ (.of_eq ?_) ?_ (listed_of_held ?_ (notePid_held st x pid))
    all_goals
      unfold notePid
      split <;> rfl
  unfold Mentat.spawnResult
  simp only
  refine hnote.trans ?_
  generalize notePid st x pid = st
  split
  · split
    · next p hp =>
      refine note _ (.of_eq rfl) rfl (fun q hq => ?_) (listed_of_held rfl (start_held st x st.events))
      rw [List.mem_singleton.mp hq]
      exact elsewhere_actorPatch (Option.mem_toList.mpr hp)
    · exact silent _ (.of_eq rfl) rfl (listed_of_held rfl (start_held st x st.events))
  · exact markActorDead x _

/-- The note of a service the agent does not have goes nowhere. -/
theorem serviceNote (id : AgentId) (service note : String) :
    Publishes st (serviceNote st id service note) := by
  let st1 : State := { st with agents := st.agents.modify id fun a =>
    { a with services := a.services.modify service fun s => { s with note } } }
  unfold Mentat.serviceNote
  simp only
  split
  · refine emit st1 [id] (.of_eq rfl) rfl (fun p hp => .inr ⟨_, Option.mem_toList.mp hp⟩)
      (fun a ha p hp => ?_) (fun k a ha => ?_) fun a ha => ?_
    · rw [List.mem_singleton.mp ha] at hp
      exact Option.mem_toList.mpr hp
    · simp only [st1, Table.get_modify, ha]
      split
      · exact ⟨_, rfl, rfl⟩
      · exact ⟨a, rfl, rfl⟩
    · have hget : st1.agents.get a = st.agents.get a :=
        Table.get_modify_of_ne fun he => ha (by simp [he])
      exact listed_congr (by rw [hget]) fun n => .rfl
  · next hunknown =>
    have hsame : ∀ a, st1.agents.get a = st.agents.get a := by
      intro a
      simp only [st1, Table.get_modify]
      split
      · next ha =>
        subst ha
        cases hrow : st.agents.get a with
        | none => rfl
        | some row =>
          have hno : row.services.get service = none := by
            simpa [hrow, Table.has] using hunknown
          simp only [Option.map_some, Table.modify_of_get_none hno]
      · rfl
    exact silent st1 (.of_eq rfl) rfl (funext fun g => funext fun a =>
      listed_congr (by rw [hsame a]) (fun n => show st1.Held a n ↔ st.Held a n from .rfl) g)

theorem agentFrame (id : AgentId) (msg : FromAgent) :
    Publishes st (agentFrame cfg ops env st id msg) := by
  cases msg with
  | spawnResult x ok error pid => exact spawnResult x ok error pid
  | result ref ok error payload => exact silent _ (.of_eq rfl) rfl rfl
  | exit x exitCode signal => exact markActorDead x _
  | serviceNote service note => exact serviceNote id service note

theorem agentEof (id : AgentId) (w : FrameWriter) : Publishes st (agentEof cfg env st id w) := by
  let st1 : State := { st with agents := st.agents.modify id (·.lose env.now) }
  unfold Mentat.agentEof
  split
  · refine emit st1 [id] (.of_eq rfl) rfl (fun p hp => .inr ⟨_, Option.mem_toList.mp hp⟩)
      (fun a ha p hp => ?_) (fun k a ha => ?_) fun a ha => ?_
    · rw [List.mem_singleton.mp ha] at hp
      exact Option.mem_toList.mpr hp
    · simp only [st1, Table.get_modify, ha]
      split
      · exact ⟨_, rfl, rfl⟩
      · exact ⟨a, rfl, rfl⟩
    · have hget : st1.agents.get a = st.agents.get a :=
        Table.get_modify_of_ne fun he => ha (by simp [he])
      exact listed_congr (by rw [hget]) fun n => .rfl
  · exact .refl st

/-! ## The sweeper -/

theorem emitAgent (kind why : String) (id : AgentId) : Publishes st (emitAgent st kind id why) := by
  unfold Mentat.emitAgent
  split
  · next p hp =>
    refine emit st [] (.refl st) rfl (fun q hq => ?_) (by simp) (fun _ a ha => ⟨a, ha, rfl⟩)
      fun _ _ _ => rfl
    exact .inr ⟨id, List.mem_singleton.mp hq ▸ hp⟩
  · exact .refl st

theorem timeOutPg {id : PgId} {pg : PgInfo} (hp : Pending st id pg) :
    Publishes st (timeOutPg env st id) := by
  refine of_unplaced fun hu => ?_
  unfold Mentat.timeOutPg
  rw [hp.1]
  refine note _ (.of_modify rfl fun _ hr => by cases hr) rfl (fun p hp => elsewhere_pgPatch hp)
    (listed_of_held rfl (State.held_of_map (by rfl) (by rfl) fun k p hk a g => ?_))
  split
  · next he =>
    subst he
    cases hp.1.symm.trans hk
    exact iff_of_false (not_holds_of_removed rfl) (not_holds_of_unplaced (hu k pg hp))
  · rfl

theorem timeOutPgs : Publishes st (timeOutPgs cfg env st) := by
  have hfold : ∀ (ids : List PgId) (s : State), ids.Nodup → (∀ id ∈ ids, ∃ pg, Pending s id pg) →
      Publishes s (ids.foldl (Mentat.timeOutPg env) s) := by
    intro ids
    induction ids with
    | nil => exact fun s _ _ => .refl s
    | cons id ids ih =>
      intro s hnd hids
      obtain ⟨hid, hnd⟩ := List.nodup_cons.mp hnd
      obtain ⟨pg, hp⟩ := hids id List.mem_cons_self
      refine (timeOutPg hp).trans (ih _ hnd fun k hk => ?_)
      obtain ⟨q, hq⟩ := hids k (List.mem_cons_of_mem id hk)
      have hne : k ≠ id := fun he => hid (he ▸ hk)
      refine ⟨q, ?_, hq.2⟩
      unfold Mentat.timeOutPg
      rw [hp.1]
      exact (Table.get_modify_of_ne hne).trans hq.1
  have hwarn : Publishes st { st with refs := st.refs.map fun _ r => r.warn cfg env.now } :=
    silent _ (.of_eq rfl) rfl rfl
  refine hwarn.trans (hfold _ _ (env.select_nodup _ _) fun id hid => ?_)
  obtain ⟨pg, hget, hst⟩ := Env.mem_select.mp hid
  simp only [pgTimedOut, Bool.and_eq_true, beq_iff_eq] at hst
  exact ⟨pg, hget, hst.1⟩

/-- The event of one agent in a series. -/
def agentEvent (st : State) (kind : String) (why : AgentId → String) (id : AgentId) : Option Event :=
  (agentPatch st id).map fun p => ⟨kind, [p], why id⟩

theorem foldl_emitAgent_eq (st : State) (kind : String) (why : AgentId → String)
    (ids : List AgentId) (events : List Event) :
    ids.foldl (fun s id => Mentat.emitAgent s kind id (why id)) { st with events := events } =
      { st with events := events ++ ids.filterMap (agentEvent st kind why) } := by
  induction ids generalizing events with
  | nil => simp
  | cons id ids ih =>
    rw [List.foldl_cons]
    cases hp : agentPatch st id with
    | none =>
      have hstep : Mentat.emitAgent { st with events := events } kind id (why id) =
          { st with events := events } := by
        have hp : agentPatch { st with events := events } id = none := hp
        simp only [Mentat.emitAgent, hp]
      rw [hstep, ih, List.filterMap_cons_none (by rw [agentEvent, hp]; rfl)]
    | some p =>
      have hstep : Mentat.emitAgent { st with events := events } kind id (why id) =
          { st with events := events ++ [⟨kind, [p], why id⟩] } := by
        have hp : agentPatch { st with events := events } id = some p := hp
        simp only [Mentat.emitAgent, hp, State.emitPatch]
      rw [hstep, ih, List.append_assoc, List.filterMap_cons_some (by rw [agentEvent, hp]; rfl)]
      rfl

/-- The windows change the row of an agent that is newly degraded, and no other shows. -/
theorem degradeLate : Publishes st (degradeLate cfg env st) := by
  let st1 : State := { st with agents := st.agents.map fun _ a => a.window cfg env.now }
  let late := env.select st.agents fun _ a => !downFor cfg.agentDeadAfterMs env.now a &&
    downFor cfg.agentDegradedAfterMs env.now a && !a.degraded
  let why (id : AgentId) := "down " ++ toString (downMs env.now st.agents id) ++ " ms"
  have heq : Mentat.degradeLate cfg env st = { st1 with
      events := st1.events ++ late.filterMap (agentEvent st1 "agent_degraded" why) } :=
    foldl_emitAgent_eq st1 "agent_degraded" why late st1.events
  rw [heq]
  refine intro _ (Fewer.of_eq rfl).unplaced rfl (fun e he p hp => ?_) (fun id a ha => ?_)
    fun id hno => ?_
  · obtain ⟨id, -, he⟩ := List.mem_filterMap.mp he
    obtain ⟨q, hq, rfl⟩ := Option.map_eq_some_iff.mp he
    exact .inr ⟨id, List.mem_singleton.mp hp ▸ hq⟩
  · refine ⟨a.window cfg env.now, by simp [st1, ha], ?_⟩
    unfold AgentInfo.window
    split
    · rfl
    · split <;> rfl
  · have hshown : (st1.agents.get id).map (·.shown) = (st.agents.get id).map (·.shown) := by
      simp only [st1, Table.get_map, Option.map_map]
      cases ha : st.agents.get id with
      | none => rfl
      | some a =>
        simp only [Option.map_some, Function.comp_apply, Option.some.injEq]
        unfold AgentInfo.window
        split
        · rfl
        · next hdead =>
          split
          · next hdeg =>
            cases hd : a.degraded with
            | true => simp [AgentInfo.shown, hd]
            | false =>
              -- Newly degraded, so it is among those with an event.
              have hid : id ∈ late := Env.mem_select.mpr ⟨a, ha, by simp [hdead, hdeg, hd]⟩
              have hpatch : agentPatch st1 id = some (.set (agentPath (a.window cfg env.now).group id)
                  (.agent (agentRow st1 id (a.window cfg env.now)))) := by
                simp [agentPatch, st1, ha]
              exact absurd hpatch (hno _ (List.mem_filterMap.mpr ⟨id, hid, by
                rw [agentEvent, hpatch]; rfl⟩) _ List.mem_cons_self)
          · rfl
    exact listed_congr hshown fun n => .rfl

theorem sweepAgents : Publishes st (sweepAgents cfg ops env st) := by
  unfold Mentat.sweepAgents
  refine List.foldlRecOn _ _ degradeLate fun s hs id _ => ?_
  exact (hs.trans (emitAgent _ _ id)).trans (buryAll _ _)

open Classical in
theorem foldl_remove {ps : List Patch} (h : ∀ p ∈ ps, p.value = none) (f : Listing) (g : String)
    (id : AgentId) : ps.foldl Patch.on f g id =
      if ∃ p ∈ ps, p.path <+: agentPath g id then none else f g id := by
  induction ps generalizing f with
  | nil => simp
  | cons p ps ih =>
    rw [List.foldl_cons, ih fun q hq => h q (List.mem_cons_of_mem p hq)]
    simp only [List.exists_mem_cons_iff, Patch.on, h p List.mem_cons_self]
    by_cases hp : p.path <+: agentPath g id <;> simp [hp]

/-- The state once the old rows are gone. -/
def sweptState (cfg : Cfg) (env : Env) (st : State) : State :=
  let actors := st.actors.filter fun _ a => !goneActor cfg env.now st a
  { st with
    actors := actors
    pgs := st.pgs.filter fun _ p => !gonePg cfg env.now st p
    agents := st.agents.filter fun id a => !goneAgent cfg env.now st id a
    refs := st.refs.filter fun _ r => r.actor.all actors.has }

/-- What a patch of the sweep removes: a row of another table, an agent that goes, or a group with
no agent left. -/
def Removes (cfg : Cfg) (env : Env) (st : State) (p : Patch) : Prop :=
  p.Elsewhere ∨
    (∃ id a, st.agents.get id = some a ∧ goneAgent cfg env.now st id a = true ∧
      p = .remove (agentPath a.group id)) ∨
    ∃ g, (∀ id a, (sweptState cfg env st).agents.get id = some a → a.group ≠ g) ∧
      p = .remove ["groups", g]

theorem sweepHistory_cases (cfg : Cfg) (env : Env) (st : State) :
    Mentat.sweepHistory cfg env st = st ∨
    ∃ patch why, Mentat.sweepHistory cfg env st =
        (sweptState cfg env st).emitPatch "history_swept" patch why ∧
      (∀ p ∈ patch, p.value = none ∧ Removes cfg env st p) ∧
      ∀ id a, st.agents.get id = some a → goneAgent cfg env.now st id a = true →
        .remove (agentPath a.group id) ∈ patch := by
  unfold Mentat.sweepHistory
  simp only
  split
  · exact .inl rfl
  · refine .inr ⟨_, _, rfl, fun p hp => ?_, fun id a ha hgone => ?_⟩
    · simp only [List.mem_append, List.mem_filterMap, List.mem_map, Option.map_eq_some_iff] at hp
      rcases hp with ((⟨id, -, a, -, rfl⟩ | ⟨id, -, pg, -, rfl⟩) | ⟨id, hid, a, ha, rfl⟩) | ⟨g, hg, rfl⟩
      · exact ⟨rfl, .inl (elsewhere_table (by simp) rfl)⟩
      · exact ⟨rfl, .inl (elsewhere_table (by simp) rfl)⟩
      · obtain ⟨a', ha', hgone⟩ := Env.mem_select.mp hid
        cases ha.symm.trans ha'
        exact ⟨rfl, .inr (.inl ⟨id, a, ha, hgone, rfl⟩)⟩
      · refine ⟨rfl, .inr (.inr ⟨g, fun id a ha hag => ?_, rfl⟩)⟩
        simp only [mem_sortDedup, List.mem_filter, Bool.and_eq_true, Bool.not_eq_true',
          List.any_eq_false, Table.mem_values] at hg
        exact hg.2.1 a ⟨id, ha⟩ (beq_iff_eq.mpr hag)
    · refine List.mem_append_left _ (List.mem_append_right _ (List.mem_filterMap.mpr ⟨id, ?_, ?_⟩))
      · exact Env.mem_select.mpr ⟨a, ha, hgone⟩
      · rw [ha]
        rfl

/-- What the sweep drops held nothing, so the rows that stay are as they were. -/
theorem sweepHistory : Publishes st (sweepHistory cfg env st) := by
  have hheld := sweepHistory_held cfg env st
  rcases sweepHistory_cases cfg env st with he | ⟨patch, why, he, hremove, hgone⟩
  · rw [he]
    exact .refl st
  rw [he] at hheld ⊢
  have hget : ∀ id, (sweptState cfg env st).agents.get id =
      (st.agents.get id).filter fun a => !goneAgent cfg env.now st id a :=
    fun id => Table.get_filter _ _ id
  refine ⟨fun hu id pg hp => hu id pg ⟨?_, hp.2⟩, fun _ => ⟨[⟨"history_swept", patch, why⟩], rfl,
    fun e hmem p hp => ?_, funext fun g => funext fun id => ?_⟩⟩
  · have hpg : (st.pgs.filter fun _ p => !gonePg cfg env.now st p).get id = some pg := hp.1
    rw [Table.get_filter] at hpg
    exact (Option.filter_eq_some_iff.mp hpg).1
  · rw [List.mem_singleton.mp hmem] at hp
    rcases (hremove p hp).2 with helse | ⟨id, a, -, -, rfl⟩ | ⟨g, -, rfl⟩
    · exact helse.inPlace
    · exact inPlace_table (by simp)
    · exact inPlace_group
  · have hfold : [(⟨"history_swept", patch, why⟩ : Event)].foldl Event.on st.listed g id =
        patch.foldl Patch.on st.listed g id := rfl
    rw [hfold, foldl_remove fun p hp => (hremove p hp).1]
    have hlist : ∀ kind ps w, ((sweptState cfg env st).emitPatch kind ps w).listed g id =
        (sweptState cfg env st).listed g id := fun _ _ _ => rfl
    rw [hlist]
    split
    · next hex =>
      obtain ⟨p, hp, hpre⟩ := hex
      rcases (hremove p hp).2 with helse | ⟨id', a, ha, hg, rfl⟩ | ⟨g', hnone, rfl⟩
      · exact absurd hpre (helse.aside g id)
      · obtain ⟨-, rfl⟩ := agentPath_prefix.mp hpre
        simp [State.listed, hget, ha, hg]
      · have hgg : g' = g := by simpa [Patch.path, agentPath] using hpre
        subst hgg
        cases ha : (sweptState cfg env st).agents.get id with
        | none => simp [State.listed, ha]
        | some a => simp [State.listed, ha, hnone id a ha]
    · next hno =>
      cases ha : st.agents.get id with
      | none => simp [State.listed, hget, ha]
      | some a =>
        by_cases hg : goneAgent cfg env.now st id a = true
        · -- Its row is removed from its own group, and it was in no other.
          have hne : a.group ≠ g := by
            rintro rfl
            exact hno ⟨_, hgone id a ha hg, List.prefix_rfl⟩
          have hdropped : (sweptState cfg env st).agents.get id = none := by
            rw [hget, ha, Option.filter_some_neg (by simp [hg])]
          rw [State.listed, State.listed, hdropped, ha, Option.filter_some_neg (by simpa using hne)]
          rfl
        · have hkept : (sweptState cfg env st).agents.get id = st.agents.get id := by
            rw [hget, ha, Option.filter_some_pos (by simp [hg])]
          exact (listed_congr (congrArg (Option.map AgentInfo.shown) hkept) (hheld id) g).symm

theorem sweepLifecycle : Publishes st (sweepLifecycle cfg ops env st) :=
  (timeOutPgs.trans sweepAgents).trans sweepHistory

/-! ## The head -/

/-- The state of a daemon that has stopped being head. -/
def movedState (env : Env) (st : State) : State :=
  { st with
    clientLinks := []
    clients := ∅
    claims := ∅
    refs := ∅
    actors := st.actors.map fun _ a => a.move (movedReason st.headNodeId) env.now
    pgs := st.pgs.map fun _ p => p.move env.now }

theorem movedState_fewer (env : Env) (st : State) : Fewer st (movedState env st) := by
  refine .of_map rfl fun id pg hp => ?_
  unfold PgInfo.move at hp
  split at hp
  · next hr =>
    rw [hr] at hp
    cases hp
  · cases hp

/-- It holds nothing any more. -/
theorem movedState_held (env : Env) (st : State) (a : AgentId) (n : Nat) :
    ¬ (movedState env st).Held a n := by
  rintro (⟨k, p, hk, hh⟩ | ⟨k, x, hk, hh⟩)
  · simp only [movedState, Table.get_map, Option.map_eq_some_iff] at hk
    obtain ⟨q, -, rfl⟩ := hk
    refine hh.1 ?_
    unfold PgInfo.move
    split
    · next hr => exact hr
    · rfl
  · simp only [movedState, Table.get_map, Option.map_eq_some_iff] at hk
    obtain ⟨y, -, rfl⟩ := hk
    have hlive := hh.1
    unfold ActorInfo.move at hlive
    split at hlive
    · next hd =>
      rw [hd] at hlive
      cases hlive
    · cases hlive

/-- The agents that had a device in use are among those whose rows it sends. -/
theorem headMoved : Publishes st (headMoved env st) := by
  unfold Mentat.headMoved
  split
  · exact .refl st
  simp only
  let actors := env.select st.actors fun _ a => !a.state.isDead
  let pgs := env.select st.pgs fun _ p => p.state != .removed
  let touched := sortDedup
    (actors.filterMap (fun id => ((movedState env st).actors.get id).map (·.agent)) ++
      pgs.flatMap fun id => (((movedState env st).pgs.get id).map fun p => p.placed.map (·.agent)).getD [])
  refine emit (movedState env st) touched (movedState_fewer env st) rfl (fun p hp => ?_)
    (fun a ha p hp => ?_) (fun _ a ha => ⟨a, ha, rfl⟩) fun a ha => ?_
  · simp only [List.mem_append, List.mem_map, List.mem_filterMap] at hp
    rcases hp with (((⟨id, -, rfl⟩ | ⟨key, -, rfl⟩) | ⟨id, -, hp⟩) | ⟨id, -, hp⟩) | ⟨id, -, hp⟩
    · exact .inl (elsewhere_row (by simp) rfl)
    · exact .inl (elsewhere_table (by simp) rfl)
    · exact .inr ⟨id, hp⟩
    · exact .inl (elsewhere_actorPatch (Option.mem_toList.mpr hp))
    · exact .inl (elsewhere_pgPatch (Option.mem_toList.mpr hp))
  · simp only [List.append_assoc]
    refine List.mem_append_right _ (List.mem_append_right _ (List.mem_append_left _ ?_))
    exact List.mem_filterMap.mpr ⟨a, ha, hp⟩
  · refine listed_congr rfl fun n => iff_of_false (movedState_held env st a n) ?_
    rintro (⟨k, p, hk, hh⟩ | ⟨k, x, hk, hh⟩)
    · obtain ⟨hst, b, hb, rfl, -⟩ := hh
      refine ha (mem_sortDedup.mpr (List.mem_append_right _ (List.mem_flatMap.mpr ⟨k, ?_, ?_⟩)))
      · exact Env.mem_select.mpr ⟨p, hk, bne_iff_ne.mpr hst⟩
      · simp only [movedState, Table.get_map, hk, Option.map_some, Option.getD_some, PgInfo.move,
          if_neg hst]
        exact List.mem_map_of_mem hb
    · obtain ⟨hl, rfl, -⟩ := hh
      refine ha (mem_sortDedup.mpr (List.mem_append_left _ (List.mem_filterMap.mpr ⟨k, ?_, ?_⟩)))
      · exact Env.mem_select.mpr ⟨x, hk, by simp [hl]⟩
      · simp [movedState, hk, ActorInfo.move, hl]

theorem elect (candidate : NodeId) : Publishes st (elect env st candidate) := by
  refine Publishes.trans (note { st with
    headNodeId := candidate
    headGeneration := st.headGeneration + 1
    headSinceMs := if candidate = st.nodeId then some env.now else none } (.of_eq rfl) rfl
    (fun p hp => ?_) rfl) headMoved
  simp only [List.mem_cons, List.not_mem_nil, or_false] at hp
  rcases hp with rfl | rfl
  · exact elsewhere_field (by simp) rfl
  · exact elsewhere_field (by simp) rfl

theorem commitIslands (fresh : Fabrics) : Publishes st (commitIslands cfg ops env st fresh) := by
  have hnote : Publishes st (State.emitPatch { st with fabrics := fresh } "islands_changed"
      [.set ["islands"] (.islands fresh.islands)] (toString fresh.tagged.card ++ " tagged nodes")) := by
    refine note _ (.of_eq rfl) rfl (fun p hp => ?_) rfl
    rw [List.mem_singleton.mp hp]
    exact elsewhere_field (by simp) rfl
  exact hnote.trans (tryPlace env)

/-- Every section publishes what it changes of the agents, as long as an agent registers under the
group it is in. -/
theorem exec {sec : Section} (hfresh : sec.fresh st = true)
    (hgroup : ∀ w r, sec = .register w r →
      (st.agents.get r.agentId).all (·.group == r.group) = true) :
    Publishes st (exec cfg ops env st sec) := by
  cases sec with
  | hello w h => exact hello w h
  | claim client name shape => exact claim client name shape
  | pgCreate r => exact pgCreate (by simpa [Section.fresh] using hfresh)
  | pgRemove id => exact pgRemove id
  | actorCreate r => exact createActor (by simpa [Section.fresh] using hfresh)
  | actorCall r => exact actorCall r
  | killActor x => exact killActor x
  | closeLink w => exact silent _ (.of_eq rfl) rfl rfl
  | dropRow client moved =>
    simp only [Mentat.exec, Mentat.dropRow]
    split
    · exact silent _ (.of_eq rfl) rfl rfl
    · exact .refl st
  | reapRow client =>
    refine note _ (.of_eq rfl) rfl (fun p hp => ?_) rfl
    rw [List.mem_singleton.mp hp]
    exact elsewhere_row (by simp) rfl
  | reapArm client => exact silent _ (.of_eq rfl) rfl rfl
  | reapCheck client group token => exact reapCheck client group token
  | reapFinish client =>
    have hrefs : Publishes st { st with refs := st.refs.filter fun _ r => r.owner != client } :=
      silent _ (.of_eq rfl) rfl rfl
    exact hrefs.trans (tryPlace env)
  | register w r => exact register (hgroup w r rfl)
  | agentFrame id msg => exact agentFrame id msg
  | agentEof id w => exact agentEof id w
  | sweepLifecycle => exact sweepLifecycle
  | elect candidate => exact elect candidate
  | commitIslands fresh => exact commitIslands fresh
  | peers t => exact silent _ (.of_eq rfl) rfl rfl

end Publishes

/-! ## Runs -/

/-- What a daemon does under its lock: a section, or an event of the mesh about its peers' rows. -/
inductive Doing where
  | run (env : Env) (sec : Section)
  | mesh (kind why : String) (rows : List (NodeId × Option Row))

/-- The patch of a peer's row. -/
def peerPatch (row : NodeId × Option Row) : Patch :=
  match row.2 with
  | some r => .set ["peers", row.1] r
  | none => .remove ["peers", row.1]

def publishing (cfg : Cfg) (ops : ClaimOps) : System State Doing where
  init := (daemon cfg ops).init
  next st
    | .run env sec => (daemon cfg ops).next st (env, sec)
    | .mesh kind why rows => some (st.emitPatch kind (rows.map peerPatch) why)

/-- An agent registers under the group it is in. -/
def Doing.oneGroup (st : State) : Doing → Bool
  | .run _ (.register _ r) => (st.agents.get r.agentId).all (·.group == r.group)
  | _ => true

section Runs

variable {cfg : Cfg} {ops : ClaimOps} {st st' : State}

theorem publishing_step {d : Doing} (hd : d.oneGroup st = true)
    (hs : (publishing cfg ops).next st d = some st') : Publishes st st' := by
  cases d with
  | run env sec =>
    obtain ⟨hfresh, rfl⟩ := daemon_next cfg ops hs
    refine .exec hfresh ?_
    rintro w r rfl
    exact hd
  | mesh kind why rows =>
    cases hs
    refine .note st (.refl st) rfl (fun p hp => ?_) rfl
    obtain ⟨row, -, rfl⟩ := List.mem_map.mp hp
    have hpath : (peerPatch row).path = ["peers", row.1] := by
      unfold peerPatch
      split <;> rfl
    exact elsewhere_row (by simp) hpath

theorem reach_unplaced (h : (publishing cfg ops).Reach Doing.oneGroup st) : Unplaced st := by
  refine h.invariant ?_ fun s d s' hu hd hs => (publishing_step hd hs).unplaced hu
  rintro s ⟨_, _, _, rfl⟩ id pg ⟨hget, -⟩
  cases hget

/-- Starting from any snapshot, the events emitted after it apply and give the agents of a fresh
snapshot, row for row. A snapshot with a scope is compared within its group. -/
theorem events_reproduce_agents {trace : List Doing}
    (hreach : (publishing cfg ops).Reach Doing.oneGroup st)
    (hrun : (publishing cfg ops).run Doing.oneGroup st trace = some st') (scope : Option String) :
    ∃ new view, st'.events = st.events ++ new ∧
      applyEvents (snapshot st scope) new = some view ∧
      ∀ g id, scope.all (· == g) = true →
        view.at_ (agentPath g id) = (snapshot st' scope).at_ (agentPath g id) := by
  have hpub : Publishes st st' :=
    System.run_keeps (I := Publishes st) hrun (.refl st) fun _ _ _ h hd hs =>
      h.trans (publishing_step hd hs)
  obtain ⟨new, he, hin, hl⟩ := hpub.events (reach_unplaced hreach)
  obtain ⟨view, hview, hlisting⟩ := applyEvents_listing (snapshot_shaped st scope) hin
  refine ⟨new, view, he, hview, fun g id hs => ?_⟩
  calc view.at_ (agentPath g id)
    _ = new.foldl Event.on (snapshot st scope).listing g id := congrFun (congrFun hlisting g) id
    _ = new.foldl Event.on st.listed g id := foldl_event_congr new (snapshot_listing hs id)
    _ = st'.listed g id := congrFun (congrFun hl g) id
    _ = (snapshot st' scope).at_ (agentPath g id) := (snapshot_listing hs id).symm

end Runs

namespace Sample

/-- One agent, one group on it and an actor in it. -/
def groupUp : List Doing := [
  .run (at_ 0) (.elect "n:1"),
  .run (at_ 1) (.register 1 (registration [] [])),
  .run (at_ 2) (.hello 2 (driver "c" true)),
  .run (at_ 3) (group "c" "p:1"),
  .run (at_ 4) (actor "c" "p:1" "a:1")]

/-- The devices that a document shows as free on the agent. -/
def freeIn (d : Doc Row) : Option (List Nat) :=
  match d.at_ (agentPath "g" "ag") with
  | some (.row (.agent row)) => some row.gpusFree
  | _ => none

end Sample

/-- A consumer that read the snapshot before the group was removed and its actor had died shows both
devices as free afterwards. -/
theorem events_reproduce_agents_freed : ∃ st new view,
    Sample.freeIn (snapshot st none) = some [1] ∧
    applyEvents (snapshot st none) new = some view ∧ Sample.freeIn view = some [0, 1] := by
  have hrun : ((publishing Sample.cfg Sample.ops).run Doing.oneGroup Sample.boot Sample.groupUp).any
      (fun st => decide (Sample.freeIn (snapshot st none) = some [1]) &&
        ((publishing Sample.cfg Sample.ops).run Doing.oneGroup st
          [.run (Sample.at_ 5) (.agentFrame "ag" (.exit "a:1" (some 0) none)),
            .run (Sample.at_ 6) (.pgRemove "p:1")]).any fun st' =>
          decide (Sample.freeIn (snapshot st' none) = some [0, 1])) = true := by
    decide +kernel
  obtain ⟨st, hreach, hp⟩ := System.Reach.of_run hrun ⟨_, _, _, rfl⟩
  simp only [Bool.and_eq_true, decide_eq_true_eq, Option.any_eq_true] at hp
  obtain ⟨hbefore, st', hst', hafter⟩ := hp
  obtain ⟨new, view, -, hview, hsame⟩ := events_reproduce_agents hreach hst' none
  refine ⟨st, new, view, hbefore, hview, ?_⟩
  rw [Sample.freeIn, hsame "g" "ag" rfl]
  exact hafter

end Mentat
