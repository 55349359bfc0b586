import Mentat.Daemon.Agents

/-!
# The sweeper and the head

The sections no request causes: the lifecycle sweeper's tick (`sweep_lifecycle`,
`sweep_history`), the election's commit (`mesh.rs`, `elector`) with `head_moved`, and the commit
of new fabric islands (`island.rs`, `run`).
-/

namespace Mentat

/-! ## `sweep_lifecycle` -/

/-- A call that has been pending for long is complained about once. -/
def RefInfo.warn (cfg : Cfg) (now : Nat) (r : RefInfo) : RefInfo :=
  if r.state = .pending ∧ r.method ≠ "run" ∧ r.warned = false ∧
      cfg.slowCallWarnMs < now - r.createdMs then
    { r with warned := true }
  else r

def pgTimedOut (cfg : Cfg) (now : Nat) (p : PgInfo) : Bool :=
  p.state == .pending && cfg.pgPendingTimeoutMs < now - p.createdMs

/-- One group fails for having waited too long. -/
def timeOutPg (env : Env) (st : State) (pgId : PgId) : State :=
  match st.pgs.get pgId with
  | none => st
  | some pg =>
    let age := toString (env.now - pg.createdMs)
    let why := pg.pendingReason.getD
      ("group '" ++ pg.group ++ "' never had enough registered GPUs")
    let st := { st with pgs := st.pgs.modify pgId fun pg =>
      { pg.remove env.now with failReason := some ("placement group still PENDING after " ++ age ++
          "ms: " ++ why ++ " (MENTAT_PG_PENDING_TIMEOUT_MS)") } }
    st.emitPatch "pg_timeout" (pgPatch st pgId).toList ("waited " ++ age ++ " ms: " ++ why)

/-- The agent has been gone for longer than `after`. -/
def downFor (after now : Nat) (a : AgentInfo) : Bool := a.lostAtMs.any fun t => after ≤ now - t

def AgentInfo.window (cfg : Cfg) (now : Nat) (a : AgentInfo) : AgentInfo :=
  if downFor cfg.agentDeadAfterMs now a then { a with lostAtMs := none }
  else if downFor cfg.agentDegradedAfterMs now a then { a with degraded := true }
  else a

/-- The event of an agent's degrade or give-up. -/
def emitAgent (st : State) (kind : String) (id : AgentId) (why : String) : State :=
  match agentPatch st id with
  | some p => st.emitPatch kind [p] why
  | none => st

/-- What the death rows of a give-up say. -/
def gaveUpReason (down : Nat) : String :=
  "agent link lost for " ++ toString down ++ "ms, past MENTAT_AGENT_DEAD_AFTER_MS"

/-- The live actors on one agent. -/
def actorsOn (env : Env) (st : State) (id : AgentId) : List ActorId :=
  env.select st.actors fun _ a => a.agent == id && !a.state.isDead

/-- Give up on an agent: its live actors are declared dead. -/
def giveUp (cfg : Cfg) (ops : ClaimOps) (env : Env) (st : State) (id : AgentId) (down : Nat) :
    State :=
  let orphaned := actorsOn env st id
  let why := "down " ++ toString down ++ " ms, " ++ toString orphaned.length ++ " actors orphaned"
  buryAll cfg ops env (emitAgent st "agent_dead" id why) orphaned (gaveUpReason down)

/-- How long the agent has been gone. -/
def downMs (now : Nat) (t : Table AgentId AgentInfo) (id : AgentId) : Nat :=
  now - (((t.get id).bind (·.lostAtMs)).getD now)

/-- The windows applied to every row, and the event of each agent that is newly degraded. -/
def degradeLate (cfg : Cfg) (env : Env) (st : State) : State :=
  let late := env.select st.agents fun _ a => !downFor cfg.agentDeadAfterMs env.now a &&
    downFor cfg.agentDegradedAfterMs env.now a && !a.degraded
  late.foldl (fun s id => emitAgent s "agent_degraded" id
      ("down " ++ toString (downMs env.now st.agents id) ++ " ms"))
    { st with agents := st.agents.map fun _ a => a.window cfg env.now }

/-- The degrade and give-up windows. -/
def sweepAgents (cfg : Cfg) (ops : ClaimOps) (env : Env) (st : State) : State :=
  let gone := env.select st.agents fun _ a => downFor cfg.agentDeadAfterMs env.now a
  gone.foldl (fun s id => giveUp cfg ops env s id (downMs env.now st.agents id))
    (degradeLate cfg env st)

/-! ## `sweep_history` -/

section History

variable (cfg : Cfg) (now : Nat) (st : State)

def aged (at_ : Nat) : Bool := cfg.historyKeepMs < now - at_

/-- A dead actor whose owner is gone, old enough to be forgotten. -/
def goneActor (a : ActorInfo) : Bool :=
  !st.clients.has a.owner && match a.state with
    | .dead _ atMs => aged cfg now atMs
    | _ => false

def gonePg (p : PgInfo) : Bool :=
  p.state == .removed && !st.clients.has p.owner && p.removedMs.any (aged cfg now)

/-- An agent past its window with no actor left but those going with it. -/
def goneAgent (id : AgentId) (a : AgentInfo) : Bool :=
  !a.alive && a.goneSinceMs.any (aged cfg now) &&
    st.actors.values.all fun x => x.agent != id || goneActor cfg now st x

end History

/-- Drops finished rows once they are old: dead actors and removed placement groups whose owner
is gone, and agents past the give-up threshold. A ref goes with its actor. -/
def sweepHistory (cfg : Cfg) (env : Env) (st : State) : State :=
  let deadActor := goneActor cfg env.now st
  let deadPg := gonePg cfg env.now st
  let deadAgent := goneAgent cfg env.now st
  let actors := env.select st.actors fun _ a => deadActor a
  let pgs := env.select st.pgs fun _ p => deadPg p
  let agents := env.select st.agents deadAgent
  if actors.isEmpty && pgs.isEmpty && agents.isEmpty then st
  else
    let groupsOf := actors.filterMap (fun id => (st.actors.get id).map (·.group)) ++
      agents.filterMap (fun id => (st.agents.get id).map (·.group))
    let gone :=
      actors.filterMap (fun id => (st.actors.get id).map fun a => .remove (actorPath a.group id)) ++
      pgs.filterMap (fun id => (st.pgs.get id).map fun p => .remove (pgPath p.group id)) ++
      agents.filterMap (fun id => (st.agents.get id).map fun a => .remove (agentPath a.group id))
    let keptActors := st.actors.filter fun _ a => !deadActor a
    let st := { st with
      actors := keptActors
      pgs := st.pgs.filter fun _ p => !deadPg p
      agents := st.agents.filter fun id a => !deadAgent id a
      refs := st.refs.filter fun _ r => r.actor.all keptActors.has }
    let emptied := sortDedup (groupsOf.filter fun g =>
      !st.agents.values.any (·.group == g) && !st.actors.values.any (·.group == g))
    st.emitPatch "history_swept" (gone ++ emptied.map fun g => .remove ["groups", g])
      ("kept " ++ toString cfg.historyKeepMs ++ " ms")

/-- The first half of a tick: slow calls, and the groups that waited too long. -/
def timeOutPgs (cfg : Cfg) (env : Env) (st : State) : State :=
  let st := { st with refs := st.refs.map fun _ r => r.warn cfg env.now }
  (env.select st.pgs fun _ p => pgTimedOut cfg env.now p).foldl (timeOutPg env) st

/-- One tick of the lifecycle sweeper. -/
def sweepLifecycle (cfg : Cfg) (ops : ClaimOps) (env : Env) (st : State) : State :=
  sweepHistory cfg env (sweepAgents cfg ops env (timeOutPgs cfg env st))

/-! ## The head -/

/-- What the death rows of a head change say. -/
def movedReason (head : NodeId) : String := "group moved to head " ++ head

/-- The row of an actor that goes to another head. Unlike `die`, the held calls stay on it. -/
def ActorInfo.move (reason : String) (now : Nat) (a : ActorInfo) : ActorInfo :=
  if a.state.isDead then a else { a with state := .dead reason now }

def PgInfo.move (now : Nat) (p : PgInfo) : PgInfo :=
  if p.state = .removed then p else p.remove now

/-- Called when the head changes. A daemon that has stopped being head drops every group it held:
its driver rows go without a reap, since the actors are alive and the new head adopts them. -/
def headMoved (env : Env) (st : State) : State :=
  if st.headNodeId = st.nodeId ∨ (st.agents.isEmpty ∧ st.clients.isEmpty) then st
  else
    let reason := movedReason st.headNodeId
    let cleared := (env.ids st.clients).map (fun id => Patch.remove ["clients", id]) ++
      st.claims.keys.map fun (g, name) => .remove (claimPath g name)
    let actors := env.select st.actors fun _ a => !a.state.isDead
    let pgs := env.select st.pgs fun _ p => p.state != .removed
    let st : State := { st with
      clientLinks := []
      clients := ∅
      claims := ∅
      refs := ∅
      actors := st.actors.map fun _ a => a.move reason env.now
      pgs := st.pgs.map fun _ p => p.move env.now }
    let touched := sortDedup (actors.filterMap (fun id => (st.actors.get id).map (·.agent)) ++
      pgs.flatMap fun id => ((st.pgs.get id).map fun p => p.placed.map (·.agent)).getD [])
    st.emitPatch "head_moved" (cleared ++ touched.filterMap (agentPatch st) ++
      actors.filterMap (actorPatch st) ++ pgs.filterMap (pgPatch st)) reason

/-- The election commits a new head. -/
def elect (env : Env) (st : State) (candidate : NodeId) : State :=
  let old := st.headNodeId
  let st := { st with
    headNodeId := candidate
    headGeneration := st.headGeneration + 1
    headSinceMs := if candidate = st.nodeId then some env.now else none }
  let st := st.emitPatch "head_change" [.set ["head_node_id"] (.text candidate),
    .set ["head_generation"] (.count st.headGeneration)] ("was " ++ old)
  headMoved env st

/-! ## Islands -/

/-- New islands have held still for the hold-down: placement may use them. -/
def commitIslands (cfg : Cfg) (ops : ClaimOps) (env : Env) (st : State) (fresh : Fabrics) : State :=
  let st := { st with fabrics := fresh }
  let st := st.emitPatch "islands_changed" [.set ["islands"] (.islands fresh.islands)]
    (toString fresh.tagged.card ++ " tagged nodes")
  tryPlace cfg ops env st

/-! ## What the sweeper changes -/

section Sweep

variable (cfg : Cfg) (ops : ClaimOps) (env : Env) (st : State)

theorem emitAgent_frame (kind : String) (id : AgentId) (why : String) :
    ∃ events, emitAgent st kind id why = { st with events := events } := by
  unfold emitAgent
  split <;> exact ⟨_, rfl⟩

theorem foldl_emitAgent_frame (kind : String) (why : AgentId → String) (ids : List AgentId) :
    ∃ events, ids.foldl (fun st id => emitAgent st kind id (why id)) st =
      { st with events := events } := by
  induction ids generalizing st with
  | nil => exact ⟨_, rfl⟩
  | cons id ids ih =>
    obtain ⟨e, h⟩ := emitAgent_frame st kind id (why id)
    rw [List.foldl_cons, h]
    exact ih _

theorem timeOutPg_frame (id : PgId) :
    ∃ pgs events, timeOutPg env st id = { st with pgs := pgs, events := events } := by
  unfold timeOutPg
  split <;> exact ⟨_, _, rfl⟩

theorem foldl_timeOutPg_frame (ids : List PgId) :
    ∃ pgs events, ids.foldl (timeOutPg env) st = { st with pgs := pgs, events := events } := by
  induction ids generalizing st with
  | nil => exact ⟨_, _, rfl⟩
  | cons id ids ih =>
    obtain ⟨p, e, h⟩ := timeOutPg_frame env st id
    rw [List.foldl_cons, h]
    exact ih _

theorem giveUp_quiet (id : AgentId) (down : Nat) : Quiet st (giveUp cfg ops env st id down) := by
  unfold giveUp
  obtain ⟨e, h⟩ := emitAgent_frame st "agent_dead" id ("down " ++ toString down ++ " ms, " ++
    toString (actorsOn env st id).length ++ " actors orphaned")
  simp only [h]
  exact Quiet.trans (Eq.refl st.registry) (buryAll_quiet _ _ _ _ _ _)

theorem giveUp_ages (id : AgentId) (down : Nat) :
    Ages (fun _ ag r => ag = id ∧ r = gaveUpReason down) st.actors
      (giveUp cfg ops env st id down).actors := by
  unfold giveUp
  obtain ⟨e, h⟩ := emitAgent_frame st "agent_dead" id ("down " ++ toString down ++ " ms, " ++
    toString (actorsOn env st id).length ++ " actors orphaned")
  simp only [h]
  refine (buryAll_ages cfg ops env { st with events := e } _ _).known.mono ?_
  rintro k ag r ⟨⟨hk, rfl⟩, a, ha, -, rfl⟩
  obtain ⟨b, hb, hp⟩ := Env.mem_select.mp hk
  cases hb.symm.trans ha
  simp only [Bool.and_eq_true, beq_iff_eq] at hp
  exact ⟨hp.1, rfl⟩

theorem degradeLate_frame : ∃ events, degradeLate cfg env st =
    { st with agents := st.agents.map fun _ a => a.window cfg env.now, events := events } :=
  foldl_emitAgent_frame _ _ _ _

/-- What deaths and events keep, giving up the agents that are gone keeps. -/
theorem sweepAgents_keeps {I : State → Prop} (hev : ∀ s e, I s → I { s with events := e })
    (hdead : ∀ s x reason, I s → I (markActorDead cfg ops env s x reason))
    (h : I (degradeLate cfg env st)) : I (sweepAgents cfg ops env st) := by
  refine List.foldlRecOn _ _ h fun s hs id _ => ?_
  obtain ⟨e, he⟩ := emitAgent_frame s "agent_dead" id ("down " ++
    toString (downMs env.now st.agents id) ++ " ms, " ++ toString (actorsOn env s id).length ++
    " actors orphaned")
  simp only [giveUp, he]
  exact buryAll_keeps cfg ops env _ hdead (hev s e hs) _ _

theorem window_later (now : Nat) (a : AgentInfo) : a.Later (a.window cfg now) := by
  unfold AgentInfo.window
  split
  · exact ⟨rfl, rfl, rfl, fun h => ⟨h, fun _ => rfl⟩⟩
  · split
    · exact ⟨rfl, rfl, rfl, fun h => ⟨h, id⟩⟩
    · exact .refl a

/-- The sweep gave up on the actor's agent: its link had been gone for long enough. -/
def GaveUp (ag : AgentId) (r : String) : Prop :=
  (∃ row, st.agents.get ag = some row ∧ downFor cfg.agentDeadAfterMs env.now row = true) ∧
    r = gaveUpReason (downMs env.now st.agents ag)

theorem sweepAgents_ages :
    Ages (fun _ ag r => GaveUp cfg env st ag r) st.actors (sweepAgents cfg ops env st).actors := by
  unfold sweepAgents
  obtain ⟨e, h⟩ := degradeLate_frame cfg env st
  have hd : (degradeLate cfg env st).actors = st.actors := by rw [h]
  rw [← hd]
  refine Ages.foldl (fun s id hid => (giveUp_ages cfg ops env s id _).mono ?_) _
  rintro k ag r ⟨rfl, rfl⟩
  exact ⟨Env.mem_select.mp hid, rfl⟩

theorem sweepAgents_quiet : Quiet (degradeLate cfg env st) (sweepAgents cfg ops env st) :=
  Quiet.foldl (fun s id => giveUp_quiet cfg ops env s id _) _ _

theorem sweepAgents_wire : (sweepAgents cfg ops env st).wire = st.wire := by
  obtain ⟨e, h⟩ := degradeLate_frame cfg env st
  refine sweepAgents_keeps cfg ops env st (I := fun s => s.wire = st.wire) (fun s e hs => hs)
    (fun s x why hs => ?_) ?_
  · rw [markActorDead_wire, hs]
  · rw [h]

/-- The history sweep drops rows and changes none. -/
theorem sweepHistory_frame : sweepHistory cfg env st = st ∨ ∃ events, sweepHistory cfg env st =
    { st with
      actors := st.actors.filter fun _ a => !goneActor cfg env.now st a
      pgs := st.pgs.filter fun _ p => !gonePg cfg env.now st p
      agents := st.agents.filter fun id a => !goneAgent cfg env.now st id a
      refs := st.refs.filter fun _ r =>
        r.actor.all (st.actors.filter fun _ a => !goneActor cfg env.now st a).has
      events := events } := by
  unfold sweepHistory
  simp only
  split
  · exact .inl rfl
  · exact .inr ⟨_, rfl⟩

theorem goneActor_dead {now : Nat} {a : ActorInfo} (h : goneActor cfg now st a = true) :
    a.state.isDead = true ∧ st.clients.has a.owner = false := by
  unfold goneActor at h
  simp only [Bool.and_eq_true, Bool.not_eq_true'] at h
  refine ⟨?_, h.1⟩
  cases hs : a.state with
  | dead _ _ => rfl
  | spawning => simp [hs] at h
  | running => simp [hs] at h

theorem sweepHistory_ages {why : ActorId → AgentId → String → Prop} :
    Ages why st.actors (sweepHistory cfg env st).actors := by
  rcases sweepHistory_frame cfg env st with h | ⟨e, h⟩
  · exact .of_eq (by rw [h])
  · rw [h]
    constructor
    · intro k a ha
      simp only [Table.get_filter, Option.filter_eq_some_iff] at ha
      exact (Ages.refl st.actors).back ha.1
    · intro k a ha hl
      refine .inl ⟨a, ?_, hl⟩
      simp only [Table.get_filter, Option.filter_eq_some_iff]
      refine ⟨ha, ?_⟩
      cases hg : goneActor cfg env.now st a with
      | false => rfl
      | true => exact absurd (goneActor_dead cfg st hg).1 (by simp [hl])

theorem timeOutPgs_frame : ∃ pgs events, timeOutPgs cfg env st =
    { st with
      refs := st.refs.map fun _ r => r.warn cfg env.now
      pgs := pgs
      events := events } := foldl_timeOutPg_frame env _ _

theorem sweepLifecycle_ages :
    Ages (fun _ ag r => GaveUp cfg env st ag r) st.actors
      (sweepLifecycle cfg ops env st).actors := by
  obtain ⟨p, e, h⟩ := timeOutPgs_frame cfg env st
  have ha := sweepAgents_ages cfg ops env (timeOutPgs cfg env st)
  rw [h] at ha
  rw [sweepLifecycle, h]
  exact ha.trans (sweepHistory_ages cfg env _)

theorem sweepLifecycle_agents :
    AgentsAge st.agents (sweepLifecycle cfg ops env st).agents := by
  obtain ⟨p, e, h⟩ := timeOutPgs_frame cfg env st
  obtain ⟨e', hd⟩ := degradeLate_frame cfg env (timeOutPgs cfg env st)
  have hq := (sweepAgents_quiet cfg ops env (timeOutPgs cfg env st)).agents
  have hw : AgentsAge st.agents (sweepAgents cfg ops env (timeOutPgs cfg env st)).agents := by
    refine .of_map (f := fun _ a => a.window cfg env.now) ?_ fun _ a => window_later cfg env.now a
    rw [hq, hd, h]
  refine hw.trans ?_
  unfold sweepLifecycle
  rcases sweepHistory_frame cfg env (sweepAgents cfg ops env (timeOutPgs cfg env st)) with
    hs | ⟨e', hs⟩
  · exact .of_eq (by rw [hs])
  · rw [hs]
    intro id a ha
    simp only [Table.get_filter, Option.filter_eq_some_iff] at ha
    exact ⟨a, ha.1, .refl a⟩

/-- What the sweeper leaves alone, the agents' own rows apart. -/
theorem sweepLifecycle_sansAgents :
    (sweepLifecycle cfg ops env st).sansAgents = st.sansAgents := by
  obtain ⟨p, e, h⟩ := timeOutPgs_frame cfg env st
  obtain ⟨e', hd⟩ := degradeLate_frame cfg env (timeOutPgs cfg env st)
  have ha : (sweepAgents cfg ops env (timeOutPgs cfg env st)).sansAgents = st.sansAgents := by
    refine (congrArg (fun s : State => { s with agents := ∅ })
      (sweepAgents_quiet cfg ops env (timeOutPgs cfg env st))).trans ?_
    rw [hd, h]
    rfl
  unfold sweepLifecycle
  rcases sweepHistory_frame cfg env (sweepAgents cfg ops env (timeOutPgs cfg env st)) with
    hs | ⟨e', hs⟩
  · rw [hs, ha]
  · rw [hs]
    exact ha

theorem sweepLifecycle_wire : (sweepLifecycle cfg ops env st).wire = st.wire := by
  obtain ⟨p, e, h⟩ := timeOutPgs_frame cfg env st
  have hw : (sweepAgents cfg ops env (timeOutPgs cfg env st)).wire = st.wire := by
    rw [sweepAgents_wire, h]
  unfold sweepLifecycle
  rcases sweepHistory_frame cfg env (sweepAgents cfg ops env (timeOutPgs cfg env st)) with
    hs | ⟨e', hs⟩
  · rw [hs, hw]
  · rw [hs]
    exact hw

end Sweep

/-! ## What a head change changes -/

section Head

variable (env : Env) (st : State) (candidate : NodeId)

/-- A daemon that is head, or holds nothing, keeps its tables. Any other drops its clients,
claims and refs, and its actors and groups are gone from it. -/
theorem headMoved_frame :
    ((st.headNodeId = st.nodeId ∨ (st.agents.isEmpty = true ∧ st.clients.isEmpty = true)) ∧
      headMoved env st = st) ∨
    (st.headNodeId ≠ st.nodeId ∧ ∃ events, headMoved env st = { st with
        clientLinks := []
        clients := ∅
        claims := ∅
        refs := ∅
        actors := st.actors.map fun _ a => a.move (movedReason st.headNodeId) env.now
        pgs := st.pgs.map fun _ p => p.move env.now
        events := events }) := by
  unfold headMoved
  split
  · next h => exact .inl ⟨h, rfl⟩
  · next h => exact .inr ⟨fun he => h (.inl he), _, rfl⟩

theorem elect_frame :
    (∃ generation since events,
      (candidate = st.nodeId ∨ (st.agents.isEmpty = true ∧ st.clients.isEmpty = true)) ∧
      elect env st candidate = { st with
        headNodeId := candidate
        headGeneration := generation
        headSinceMs := since
        events := events }) ∨
    (∃ generation since events, candidate ≠ st.nodeId ∧
      elect env st candidate = { st with
        headNodeId := candidate
        headGeneration := generation
        headSinceMs := since
        clientLinks := []
        clients := ∅
        claims := ∅
        refs := ∅
        actors := st.actors.map fun _ a => a.move (movedReason candidate) env.now
        pgs := st.pgs.map fun _ p => p.move env.now
        events := events }) := by
  unfold elect
  simp only
  rcases headMoved_frame env (State.emitPatch { st with
      headNodeId := candidate
      headGeneration := st.headGeneration + 1
      headSinceMs := if candidate = st.nodeId then some env.now else none }
    "head_change" [.set ["head_node_id"] (.text candidate),
      .set ["head_generation"] (.count (st.headGeneration + 1))] ("was " ++ st.headNodeId))
    with ⟨h, he⟩ | ⟨h, events, he⟩
  · exact .inl ⟨_, _, _, h, he⟩
  · exact .inr ⟨_, _, events, h, he⟩

theorem elect_ages :
    Ages (fun _ _ r => candidate ≠ st.nodeId ∧ r = movedReason candidate) st.actors
      (elect env st candidate).actors := by
  rcases elect_frame env st candidate with ⟨_, _, _, _, h⟩ | ⟨_, _, _, hne, h⟩
  · exact .of_eq (by rw [h])
  · refine .of_map (by rw [h]) (fun k a => ?_) fun k a hl => .inr ?_
    · unfold ActorInfo.move
      split
      · exact .refl a
      · next hd => exact ⟨rfl, rfl, rfl, rfl, rfl, fun hd' => absurd hd' hd⟩
    · exact ⟨movedReason candidate, env.now, by simp [ActorInfo.move, hl], hne, rfl⟩

end Head

theorem commitIslands_quiet (cfg : Cfg) (ops : ClaimOps) (env : Env) (st : State)
    (fresh : Fabrics) : Quiet { st with fabrics := fresh } (commitIslands cfg ops env st fresh) :=
  Quiet.trans (Eq.refl (State.registry { st with fabrics := fresh }))
    (tryPlace_quiet cfg ops env _)

end Mentat
