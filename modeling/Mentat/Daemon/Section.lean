import Mentat.Daemon.Lifecycle
import Mentat.Lib.Transition

/-!
# The daemon as a system of sections

Every thread of the daemon changes the state only under the mutex, so a run of the daemon is a
run of sections in some order. `exec` runs one. `daemon` is the system of all of them: any
section, in any order, with any clock and any hash order. Which sections a given thread really
runs next is left open here, so what holds of every run of `daemon` holds of the program.

Each part of the state has one lemma that says what a section makes of it:

* `exec_ages`: the actors. `opened` is the table once a section has added the rows it adds, and
  `Fells` lists why a row may die.
* `exec_sessions`: the clients, the reap timers and the head.
* `exec_agents`: the agents.
* `exec_wire`: what is written to the agents.
-/

namespace Mentat

inductive Section where
  | hello (w : FrameWriter) (h : Hello)
  | claim (client : ClientId) (name : String) (shape : Value)
  | pgCreate (r : PgCreate)
  | pgRemove (pgId : PgId)
  | actorCreate (r : ActorCreate)
  | actorCall (r : ActorCall)
  | killActor (actorId : ActorId)
  | closeLink (w : FrameWriter)
  | dropRow (client : ClientId) (moved : Bool)
  | reapRow (client : ClientId)
  | reapArm (client : ClientId)
  | reapCheck (client : ClientId) (group : String) (token : Option Nat)
  | reapFinish (client : ClientId)
  | register (w : FrameWriter) (r : AgentRegister)
  | agentFrame (agentId : AgentId) (msg : FromAgent)
  | agentEof (agentId : AgentId) (w : FrameWriter)
  | sweepLifecycle
  | elect (candidate : NodeId)
  | commitIslands (fresh : Fabrics)
  /-- The mesh threads replace the peers' rows. -/
  | peers (t : Table NodeId PeerInfo)

section Exec

variable (cfg : Cfg) (ops : ClaimOps) (env : Env)

def exec (st : State) : Section → State
  | .hello w h => ((hello env st w h).map (·.1)).getD st
  | .claim client name shape => (claim ops st client name shape).1
  | .pgCreate r => pgCreate cfg ops env st r
  | .pgRemove id => pgRemove cfg ops env st id
  | .actorCreate r => (createActor cfg ops env st r).1
  | .actorCall r => (actorCall env st r).1
  | .killActor id => killActor cfg ops env st id
  | .closeLink w => closeLink st w
  | .dropRow client moved => dropRow st client moved
  | .reapRow client => reapRow st client
  | .reapArm client => (reapArm st client).1
  | .reapCheck client group token => (reapCheck env st client group token).1
  | .reapFinish client => reapFinish cfg ops env st client
  | .register w r => register cfg ops env st w r
  | .agentFrame id msg => agentFrame cfg ops env st id msg
  | .agentEof id w => agentEof cfg env st id w
  | .sweepLifecycle => sweepLifecycle cfg ops env st
  | .elect candidate => elect env st candidate
  | .commitIslands fresh => commitIslands cfg ops env st fresh
  | .peers t => { st with peers := t }

/-- The ids and sockets a section brings in are new: `new_pg_id` and `new_actor_id` draw at random,
and a registration comes over a connection of its own. -/
def Section.fresh (st : State) : Section → Bool
  | .pgCreate r => !st.pgs.has r.pgId
  | .actorCreate r => !st.actors.has r.actorId
  | .register w _ => !st.wire.any (·.1 == w) && !st.agents.values.any (·.writer == w)
  | _ => true

/-- Every run of the sections, from boot. -/
def daemon : System State (Env × Section) where
  init st := ∃ nodeId nodeIp controlAddr, st = State.new nodeId nodeIp controlAddr
  next st l := if l.2.fresh st then some (exec cfg ops l.1 st l.2) else none

theorem daemon_next {st st' : State} {l : Env × Section}
    (h : (daemon cfg ops).next st l = some st') :
    l.2.fresh st = true ∧ st' = exec cfg ops l.1 st l.2 := by
  simp only [daemon] at h
  split at h
  · next hf => exact ⟨hf, (Option.some.inj h).symm⟩
  · cases h

/-! ## Actors -/

/-- The actors once the section has added the rows it adds. -/
def Section.opened (st : State) : Section → Table ActorId ActorInfo
  | .actorCreate r => createTable st r
  | .register _ r => adoptTable st r
  | _ => st.actors

/-- Why a section may make the row of actor `k`, on agent `ag`, dead. -/
def Section.Fells (st : State) (k : ActorId) (ag : AgentId) (why : String) : Section → Prop
  | .killActor x => k = x ∧ liveAgent st ag = none ∧ why = "killed while its agent was down"
  | .actorCreate r => k = r.actorId ∧ ∃ e agent, r.sendError = some e ∧
      why = "spawn did not reach agent " ++ agent ++ ": " ++ e
  | .register _ r => ag = r.agentId ∧ k ∉ r.resumed ∧ why = "agent reconnected without this actor"
  | .agentFrame _ msg => frameCause msg k why
  | .sweepLifecycle => GaveUp cfg env st ag why
  | .elect candidate => candidate ≠ st.nodeId ∧ why = movedReason candidate
  | _ => False

/-- What a section makes of the actors. -/
theorem exec_ages (st : State) (sec : Section) :
    Ages (fun k ag why => sec.Fells cfg env st k ag why) (sec.opened st)
      (exec cfg ops env st sec).actors := by
  cases sec with
  | hello w h =>
    cases hh : hello env st w h with
    | none => exact .of_eq (by simp [exec, hh]; rfl)
    | some p =>
      obtain ⟨st', orphans⟩ := p
      obtain ⟨-, -, e, rfl⟩ := hello_eq_some hh
      exact .of_eq (by simp [exec, hh]; rfl)
  | claim client name shape =>
    obtain ⟨c, g, e, h⟩ := claim_frame ops st client name shape
    exact .of_eq (by simp only [exec, h]; rfl)
  | pgCreate r => exact .of_eq (tryPlace_actors _ _ _ _)
  | pgRemove id =>
    refine .of_eq ?_
    simp only [exec, pgRemove, tryPlace_actors]
    split <;> rfl
  | actorCreate r => exact createActor_ages cfg ops env st r
  | actorCall r => exact actorCall_ages env st r
  | killActor x => exact killActor_ages cfg ops env st x
  | closeLink w => exact .of_eq rfl
  | dropRow client moved =>
    refine .of_eq ?_
    simp only [exec, dropRow]
    split <;> rfl
  | reapRow client => exact .of_eq rfl
  | reapArm client => exact .of_eq rfl
  | reapCheck client group token =>
    rcases reapCheck_cases env st client group token with ⟨-, h⟩ | ⟨-, -, h⟩ | ⟨-, -, h⟩
    · exact .of_eq (by simp only [exec, h]; rfl)
    · exact .of_eq (by simp only [exec, h]; rfl)
    · obtain ⟨-, e, ht⟩ := reapTake_spec env st client group
      exact .of_eq (by simp only [exec, h, ht]; rfl)
  | reapFinish client => exact .of_eq (tryPlace_actors _ _ _ _)
  | register w r => exact register_ages cfg ops env st w r
  | agentFrame id msg => exact agentFrame_ages cfg ops env st id msg
  | agentEof id w =>
    obtain ⟨a, e, h⟩ := agentEof_frame cfg env st id w
    exact .of_eq (by simp only [exec, h]; rfl)
  | sweepLifecycle => exact sweepLifecycle_ages cfg ops env st
  | elect candidate => exact elect_ages env st candidate
  | commitIslands fresh => exact .of_eq (tryPlace_actors _ _ _ _)
  | peers t => exact .of_eq rfl

/-- A row after a section is a later version of a row before, the new row of a creation, or a row
the registration adopted. -/
theorem exec_actor {st : State} {sec : Section} {k : ActorId} {a' : ActorInfo}
    (h : (exec cfg ops env st sec).actors.get k = some a') :
    (∃ a, st.actors.get k = some a ∧ a.Later a') ∨
    (∃ r bundle agent ip, sec = .actorCreate r ∧ r.actorId = k ∧
      createTarget st r = .ok (bundle, agent, ip) ∧ (newActor st r bundle).Later a') ∨
    (∃ w r x, sec = .register w r ∧ st.actors.get k = none ∧ x ∈ r.resume ∧ x.actorId = k ∧
      (adoptedActor r x).Later a') := by
  obtain ⟨a, ha, hl, -⟩ := (exec_ages cfg ops env st sec).back h
  cases sec with
  | actorCreate r =>
    simp only [Section.opened, createTable] at ha
    split at ha
    · exact .inl ⟨a, ha, hl⟩
    · next bundle agent ip hc =>
      rw [Table.get_set] at ha
      split at ha
      · next hk =>
        cases ha
        exact .inr (.inl ⟨r, bundle, agent, ip, rfl, hk.symm, hc, hl⟩)
      · exact .inl ⟨a, ha, hl⟩
  | register w r =>
    rcases adoptTable_get st r ha with ha | ⟨hn, x, hx, hxk, rfl⟩
    · exact .inl ⟨a, ha, hl⟩
    · exact .inr (.inr ⟨w, r, x, rfl, hn, hx, hxk, hl⟩)
  | _ => exact .inl ⟨a, ha, hl⟩

/-- A row there is before a section is in the opened table, unless a creation reuses its id. -/
theorem opened_get {st : State} {sec : Section} {k : ActorId} {a : ActorInfo}
    (hf : sec.fresh st = true) (h : st.actors.get k = some a) : (sec.opened st).get k = some a := by
  cases sec with
  | actorCreate r =>
    simp only [Section.opened, createTable]
    split
    · exact h
    · simp only [Section.fresh, Bool.not_eq_true', Table.has_eq_false] at hf
      rw [Table.get_set_of_ne (fun hk => by rw [← hk, h] at hf; cases hf), h]
  | register w r => exact adoptTable_known st r h
  | _ => exact h

/-- A live row stays live through a section, unless the section fells it. -/
theorem exec_live {st : State} {sec : Section} {k : ActorId} {a : ActorInfo}
    (hf : sec.fresh st = true) (h : st.actors.get k = some a) (hl : a.state.isDead = false) :
    (∃ a', (exec cfg ops env st sec).actors.get k = some a' ∧ a.Later a' ∧
      a'.state.isDead = false) ∨ ∃ why, sec.Fells cfg env st k a.agent why := by
  have hages := exec_ages cfg ops env st sec
  rcases hages.forth (opened_get hf h) hl with ⟨a', ha', hl'⟩ | hr
  · obtain ⟨b, hb, hlater, -⟩ := hages.back ha'
    cases hb.symm.trans (opened_get hf h)
    exact .inl ⟨a', ha', hlater, hl'⟩
  · exact .inr hr

/-! ## Clients and reap timers -/

/-- The clients after a section. -/
def Section.clientsAfter (st : State) : Section → Table ClientId ClientInfo
  | .hello _ h =>
    if h.session && duplicateSession st h.group h.clientId then st.clients
    else st.clients.set h.clientId (helloRow st h)
  | .dropRow client moved =>
    if (st.clients.get client).any fun c => !c.hasSession || moved then st.clients.erase client
    else st.clients
  | .reapRow client => st.clients.erase client
  | .elect candidate => if candidate = st.nodeId then st.clients else ∅
  | _ => st.clients

/-- The reap timers after a section. -/
def Section.timersAfter (st : State) : Section → Table ClientId Nat
  | .reapArm client => st.reapPending.set client st.nextReap
  | .reapCheck client _ token =>
    if token.isSome && st.reapPending.get client != token then st.reapPending
    else st.reapPending.erase client
  | _ => st.reapPending

theorem exec_hello_none {st : State} {w : FrameWriter} {h : Hello} (hh : hello env st w h = none) :
    exec cfg ops env st (.hello w h) = st := by
  simp [exec, hh]

theorem exec_hello_some {st st' : State} {w : FrameWriter} {h : Hello} {orphans : List ActorId}
    (hh : hello env st w h = some (st', orphans)) : exec cfg ops env st (.hello w h) = st' := by
  simp [exec, hh]

theorem hello_eq_none {st : State} {w : FrameWriter} {h : Hello} (hh : hello env st w h = none) :
    (h.session && duplicateSession st h.group h.clientId) = true := by
  unfold hello at hh
  split at hh
  · assumption
  · cases hh

/-- The counter of reap tokens after a section. -/
def Section.nextReapAfter (st : State) : Section → Nat
  | .reapArm _ => st.nextReap + 1
  | _ => st.nextReap

/-- The head a section leaves. -/
def Section.headAfter (st : State) : Section → NodeId
  | .elect candidate => candidate
  | _ => st.headNodeId

/-- The part of the state that says who is connected, who is to be reaped, and who is head. -/
structure Sessions where
  clients : Table ClientId ClientInfo
  reapPending : Table ClientId Nat
  nextReap : Nat
  nodeId : NodeId
  headNodeId : NodeId

def State.sessions (st : State) : Sessions :=
  ⟨st.clients, st.reapPending, st.nextReap, st.nodeId, st.headNodeId⟩

theorem Quiet.sessions {st st' : State} (h : Quiet st st') : st'.sessions = st.sessions :=
  (congrArg State.sessions h :)

theorem reapCheck_timers (st : State) (client : ClientId) (token : Option Nat) :
    (token.isSome && st.reapPending.get client != token) = true ↔
      ∃ t, token = some t ∧ st.reapPending.get client ≠ some t := by
  cases token <;> simp

theorem exec_sessions (st : State) (sec : Section) : (exec cfg ops env st sec).sessions =
    ⟨sec.clientsAfter st, sec.timersAfter st, sec.nextReapAfter st, st.nodeId, sec.headAfter st⟩ := by
  cases sec with
  | hello w h =>
    cases hh : hello env st w h with
    | none =>
      rw [exec_hello_none _ _ _ hh, Section.clientsAfter, if_pos (hello_eq_none env hh)]
      rfl
    | some p =>
      obtain ⟨st', orphans⟩ := p
      rw [exec_hello_some _ _ _ hh]
      obtain ⟨hd, -, e, rfl⟩ := hello_eq_some hh
      rw [Section.clientsAfter, hd]
      rfl
  | claim client name shape =>
    obtain ⟨c, g, e, h⟩ := claim_frame ops st client name shape
    simp only [exec, h]
    rfl
  | pgCreate r => exact (pgCreate_quiet cfg ops env st r).sessions
  | pgRemove id => exact (pgRemove_quiet cfg ops env st id).sessions
  | actorCreate r => exact (createActor_quiet cfg ops env st r).sessions
  | actorCall r => exact (actorCall_quiet env st r).sessions
  | killActor x => exact (killActor_quiet cfg ops env st x).sessions
  | dropRow client moved =>
    simp only [exec, dropRow, Section.clientsAfter]
    split <;> rfl
  | reapCheck client group token =>
    have hmatch := reapCheck_timers st client token
    rcases reapCheck_cases env st client group token with ⟨ht, h⟩ | ⟨ht, -, h⟩ | ⟨ht, -, h⟩
    · simp only [exec, h, Section.timersAfter, if_pos (hmatch.mpr ht)]
      rfl
    · rw [Section.timersAfter, if_neg fun hc => (hmatch.mp hc).elim fun t hc => hc.2 (ht t hc.1)]
      simp only [exec, h]
      rfl
    · rw [Section.timersAfter, if_neg fun hc => (hmatch.mp hc).elim fun t hc => hc.2 (ht t hc.1)]
      obtain ⟨-, e, hs⟩ := reapTake_spec env st client group
      simp only [exec, h, hs]
      rfl
  | reapFinish client => exact (reapFinish_quiet cfg ops env st client).sessions
  | register w r => exact (register_quiet cfg ops env st w r).sessions
  | agentFrame id msg =>
    exact (congrArg State.sessions (agentFrame_sansAgents cfg ops env st id msg) :)
  | agentEof id w =>
    obtain ⟨a, e, h⟩ := agentEof_frame cfg env st id w
    simp only [exec, h]
    rfl
  | sweepLifecycle => exact (congrArg State.sessions (sweepLifecycle_sansAgents cfg ops env st) :)
  | elect candidate =>
    simp only [exec, Section.clientsAfter]
    rcases elect_frame env st candidate with ⟨_, _, _, hor, h⟩ | ⟨_, _, _, hne, h⟩
    · rw [h]
      split
      · rfl
      · next hne =>
        have he := Table.eq_empty_of_isEmpty (hor.resolve_left hne).2
        simp only [State.sessions, he]
        rfl
    · rw [h, if_neg hne]
      rfl
  | commitIslands fresh => exact (commitIslands_quiet cfg ops env st fresh).sessions
  | _ => rfl

theorem exec_clients (st : State) (sec : Section) :
    (exec cfg ops env st sec).clients = sec.clientsAfter st :=
  (congrArg Sessions.clients (exec_sessions cfg ops env st sec) :)

theorem exec_reapPending (st : State) (sec : Section) :
    (exec cfg ops env st sec).reapPending = sec.timersAfter st :=
  (congrArg Sessions.reapPending (exec_sessions cfg ops env st sec) :)

theorem exec_nodeId (st : State) (sec : Section) :
    (exec cfg ops env st sec).nodeId = st.nodeId :=
  (congrArg Sessions.nodeId (exec_sessions cfg ops env st sec) :)

theorem exec_headNodeId (st : State) (sec : Section) :
    (exec cfg ops env st sec).headNodeId = sec.headAfter st :=
  (congrArg Sessions.headNodeId (exec_sessions cfg ops env st sec) :)

/-! ## Agents -/

/-- The sections that change an agent's row. -/
def Section.movesAgents : Section → Bool
  | .register _ _ => true
  | .agentFrame _ _ => true
  | .agentEof _ _ => true
  | .sweepLifecycle => true
  | _ => false

theorem exec_agents_same {st : State} {sec : Section} (h : sec.movesAgents = false) :
    (exec cfg ops env st sec).agents = st.agents := by
  cases sec with
  | hello w hl =>
    cases hh : hello env st w hl with
    | none => rw [exec_hello_none _ _ _ hh]
    | some p =>
      obtain ⟨st', orphans⟩ := p
      rw [exec_hello_some _ _ _ hh]
      obtain ⟨-, -, e, rfl⟩ := hello_eq_some hh
      rfl
  | claim client name shape =>
    obtain ⟨c, g, e, hc⟩ := claim_frame ops st client name shape
    simp only [exec, hc]
  | pgCreate r => exact (pgCreate_quiet cfg ops env st r).agents
  | pgRemove id => exact (pgRemove_quiet cfg ops env st id).agents
  | actorCreate r => exact (createActor_quiet cfg ops env st r).agents
  | actorCall r => exact (actorCall_quiet env st r).agents
  | killActor x => exact (killActor_quiet cfg ops env st x).agents
  | dropRow client moved =>
    simp only [exec, dropRow]
    split <;> rfl
  | reapCheck client group token =>
    rcases reapCheck_cases env st client group token with ⟨-, hc⟩ | ⟨-, -, hc⟩ | ⟨-, -, hc⟩
    · simp only [exec, hc]
    · simp only [exec, hc]
    · obtain ⟨-, e, ht⟩ := reapTake_spec env st client group
      simp only [exec, hc, ht]
  | reapFinish client => exact (reapFinish_quiet cfg ops env st client).agents
  | elect candidate =>
    rcases elect_frame env st candidate with ⟨_, _, _, _, hc⟩ | ⟨_, _, _, _, hc⟩ <;>
      simp only [exec, hc]
  | commitIslands fresh => exact (commitIslands_quiet cfg ops env st fresh).agents
  | register _ _ | agentFrame _ _ | agentEof _ _ | sweepLifecycle => cases h
  | _ => rfl

/-- A registration replaces its agent's row. Any other section leaves later versions of the rows
there were. -/
theorem exec_agents (st : State) (sec : Section) :
    (∃ w r, sec = .register w r ∧ (exec cfg ops env st sec).agents =
      st.agents.set r.agentId (agentOfRegister r w st.nextSeq)) ∨
    AgentsAge st.agents (exec cfg ops env st sec).agents := by
  cases sec with
  | register w r => exact .inl ⟨w, r, rfl, (register_quiet cfg ops env st w r).agents⟩
  | agentFrame id msg => exact .inr (agentFrame_agents cfg ops env st id msg)
  | agentEof id w => exact .inr (agentEof_agents cfg env st id w)
  | sweepLifecycle => exact .inr (sweepLifecycle_agents cfg ops env st)
  | _ => exact .inr (.of_eq (exec_agents_same cfg ops env rfl))

/-- An agent's row after a section is the one its registration has just put there, or a later
version of the one before. -/
theorem exec_agent {st : State} {sec : Section} {g : AgentId} {row' : AgentInfo}
    (h : (exec cfg ops env st sec).agents.get g = some row') :
    (∃ w r, sec = .register w r ∧ r.agentId = g ∧ row' = agentOfRegister r w st.nextSeq) ∨
    ((∀ w r, sec = .register w r → r.agentId ≠ g) ∧
      ∃ row, st.agents.get g = some row ∧ row.Later row') := by
  by_cases hreg : ∃ w r, sec = .register w r
  · obtain ⟨w, r, rfl⟩ := hreg
    rw [exec, (register_quiet cfg ops env st w r).agents] at h
    rcases Table.get_set_some h with ⟨hg, rfl⟩ | ⟨hg, h⟩
    · exact .inl ⟨w, r, rfl, hg.symm, rfl⟩
    · refine .inr ⟨fun _ _ he => ?_, row', h, .refl row'⟩
      cases he
      exact fun hr => hg hr.symm
  · rcases exec_agents cfg ops env st sec with ⟨w, r, he, -⟩ | hages
    · exact absurd ⟨w, r, he⟩ hreg
    · exact .inr ⟨fun w r he => absurd ⟨w, r, he⟩ hreg, hages _ _ h⟩

/-! ## The wire -/

/-- The frames a section may write: the section, the socket and the frame. -/
def Section.Writes (st : State) (w : FrameWriter) (m : ToAgent) : Section → Prop
  | .killActor x => ∃ a agent, st.actors.get x = some a ∧ a.state.isDead = false ∧
      liveAgent st a.agent = some agent ∧ w = agent.writer ∧ m = .actorKill x
  | .actorCreate r => ∃ bundle agent ip, createTarget st r = .ok (bundle, agent, ip) ∧
      r.sendError = none ∧ w = agent.writer ∧
      m = .actorSpawn r.actorId r.name (spawnEnv st r bundle agent ip) bundle.gpuIds r.client r.payload
  | .actorCall r => ∃ a agent, st.actors.get r.actorId = some a ∧ a.state.isDead = false ∧
      liveAgent st a.agent = some agent ∧ r.sent = true ∧ w = agent.writer ∧
      m = .actorDispatch r.actorId (st.newRefId r.actorId).1 r.method r.payload
  | .register w' r => w = w' ∧ (m = .registerOk r.nodeId ∨
      (∃ x ∈ resumeKills st r, m = .actorKill x) ∨ ∃ x ref method payload,
        m = .actorDispatch x ref method payload)
  | _ => False

theorem createActor_wire (st : State) (r : ActorCreate) :
    ∃ l, (createActor cfg ops env st r).1.wire = st.wire ++ l ∧
      ∀ f ∈ l, (Section.actorCreate r).Writes st f.1 f.2 := by
  unfold createActor
  split
  · exact ⟨[], (List.append_nil _).symm, by simp⟩
  · next bundle agent ip hc =>
    simp only
    split
    · next hs =>
      refine ⟨[_], rfl, fun f hf => ?_⟩
      cases List.mem_singleton.mp hf
      exact ⟨bundle, agent, ip, hc, hs, rfl, rfl⟩
    · exact ⟨[], by rw [markActorDead_wire, List.append_nil]; rfl, by simp⟩

theorem actorCall_wire (st : State) (r : ActorCall) :
    ∃ l, (actorCall env st r).1.wire = st.wire ++ l ∧
      ∀ f ∈ l, (Section.actorCall r).Writes st f.1 f.2 := by
  unfold actorCall
  simp only
  split
  · exact ⟨[], (List.append_nil _).symm, by simp⟩
  · next a ha =>
    simp only
    split
    · exact ⟨[], (List.append_nil _).symm, by simp⟩
    · next hd =>
      have hl : a.state.isDead = false := by
        cases hs : a.state with
        | dead r t => exact absurd hs (hd r t)
        | _ => rfl
      split
      · next agent hag =>
        split
        · next hsent =>
          refine ⟨[_], rfl, fun f hf => ?_⟩
          cases List.mem_singleton.mp hf
          exact ⟨a, agent, ha, hl, hag, hsent, rfl, rfl⟩
        · exact ⟨[], (List.append_nil _).symm, by simp⟩
      · split <;> exact ⟨[], (List.append_nil _).symm, by simp⟩

/-- A section only adds to the wire, and only such frames. -/
theorem exec_wire (st : State) (sec : Section) :
    ∃ l, (exec cfg ops env st sec).wire = st.wire ++ l ∧ ∀ f ∈ l, sec.Writes st f.1 f.2 := by
  have hsame : ∀ {st' : State}, st'.wire = st.wire →
      ∃ l, st'.wire = st.wire ++ l ∧ ∀ f ∈ l, sec.Writes st f.1 f.2 :=
    fun h => ⟨[], by rw [h, List.append_nil], by simp⟩
  cases sec with
  | hello w h =>
    cases hh : hello env st w h with
    | none => exact hsame (by rw [exec_hello_none _ _ _ hh])
    | some p =>
      obtain ⟨st', orphans⟩ := p
      refine hsame ?_
      rw [exec_hello_some _ _ _ hh]
      obtain ⟨-, -, e, rfl⟩ := hello_eq_some hh
      rfl
  | claim client name shape =>
    obtain ⟨c, g, e, h⟩ := claim_frame ops st client name shape
    exact hsame (by simp only [exec, h])
  | pgCreate r => exact hsame (tryPlace_wire _ _ _ _)
  | pgRemove id =>
    refine hsame ?_
    simp only [exec, pgRemove, tryPlace_wire]
    split <;> rfl
  | actorCreate r => exact createActor_wire cfg ops env st r
  | actorCall r => exact actorCall_wire env st r
  | killActor x =>
    rcases killActor_cases cfg ops env st x with h | ⟨a, ag, ha, hl, hag, h⟩ | ⟨a, ha, hl, hag, h⟩
    · exact hsame (by simp only [exec, h])
    · refine ⟨[_], by simp only [exec, h]; rfl, fun f hf => ?_⟩
      cases List.mem_singleton.mp hf
      exact ⟨a, ag, ha, hl, hag, rfl, rfl⟩
    · exact hsame (by simp only [exec, h, markActorDead_wire])
  | closeLink w => exact hsame rfl
  | dropRow client moved =>
    refine hsame ?_
    simp only [exec, dropRow]
    split <;> rfl
  | reapRow client => exact hsame rfl
  | reapArm client => exact hsame rfl
  | reapCheck client group token =>
    refine hsame ?_
    rcases reapCheck_cases env st client group token with ⟨-, h⟩ | ⟨-, -, h⟩ | ⟨-, -, h⟩
    · simp only [exec, h]
    · simp only [exec, h]
    · obtain ⟨-, e, ht⟩ := reapTake_spec env st client group
      simp only [exec, h, ht]
  | reapFinish client => exact hsame (tryPlace_wire _ _ _ _)
  | register w r =>
    obtain ⟨held, hheld, h⟩ := register_wire cfg ops env st w r
    refine ⟨resumeFrames st w r ++ held, h, fun f hf => ?_⟩
    rcases List.mem_append.mp hf with hf | hf
    · rcases List.mem_cons.mp hf with rfl | hf
      · exact ⟨rfl, .inl rfl⟩
      · obtain ⟨x, hx, rfl⟩ := List.mem_map.mp hf
        exact ⟨rfl, .inr (.inl ⟨x, hx, rfl⟩)⟩
    · obtain ⟨x, ref, method, payload, rfl⟩ := hheld f hf
      exact ⟨rfl, .inr (.inr ⟨x, ref, method, payload, rfl⟩)⟩
  | agentFrame id msg => exact hsame (agentFrame_wire cfg ops env st id msg)
  | agentEof id w =>
    obtain ⟨a, e, h⟩ := agentEof_frame cfg env st id w
    exact hsame (by simp only [exec, h])
  | sweepLifecycle => exact hsame (sweepLifecycle_wire cfg ops env st)
  | elect candidate =>
    refine hsame ?_
    rcases elect_frame env st candidate with ⟨_, _, _, _, h⟩ | ⟨_, _, _, _, h⟩ <;>
      simp only [exec, h]
  | commitIslands fresh => exact hsame (tryPlace_wire _ _ _ _)
  | peers t => exact hsame rfl

/-! ## A registration -/

/-- A registration writes a kill to its own socket for the resumed actors it rejects, and for no
other. -/
theorem register_kill {st : State} {w : FrameWriter} {r : AgentRegister} {x : ActorId}
    (hf : (Section.register w r).fresh st = true)
    (h : (w, ToAgent.actorKill x) ∈ (exec cfg ops env st (.register w r)).wire) :
    x ∈ r.resumed ∧ ∃ a, st.actors.get x = some a ∧
      (st.clients.has a.owner = false ∨ a.state.isDead = true) := by
  obtain ⟨l, hl, hw⟩ := exec_wire cfg ops env st (.register w r)
  rw [hl, List.mem_append] at h
  rcases h with h | h
  · simp only [Section.fresh, Bool.and_eq_true, Bool.not_eq_true', List.any_eq_false] at hf
    exact absurd (beq_self_eq_true w) (by simpa using hf.1 _ h)
  · obtain ⟨-, hm | ⟨y, hy, hm⟩ | ⟨_, _, _, _, hm⟩⟩ := hw _ h
    · cases hm
    · cases hm
      simp only [resumeKills, List.mem_filter, rejects, Option.any_eq_true, Bool.or_eq_true,
        Bool.not_eq_true'] at hy
      exact hy
    · cases hm

/-- An actor a registration lists has a live row after it, unless the row was dead. -/
theorem register_live {st : State} {w : FrameWriter} {r : AgentRegister} {x : ActorId}
    (hx : x ∈ r.resumed) (hl : ∀ a, st.actors.get x = some a → a.state.isDead = false) :
    ∃ a, (exec cfg ops env st (.register w r)).actors.get x = some a ∧ a.state.isDead = false := by
  obtain ⟨a, ha⟩ := adoptTable_has st r hx
  have hlive : a.state.isDead = false := by
    rcases adoptTable_get st r ha with hk | ⟨-, y, -, -, rfl⟩
    · exact hl a hk
    · rfl
  rcases (exec_ages cfg ops env st (.register w r)).forth ha hlive with h | ⟨_, -, hno, -⟩
  · exact h
  · exact absurd hx hno

end Exec

/-! ## Sample inputs

Concrete inputs for the runs that show a property's premises can be met, or how it fails. -/

namespace Sample

def cfg : Cfg where
  pgPendingTimeoutMs := 60000
  agentDegradedAfterMs := 15000
  agentDeadAfterMs := 120000
  historyKeepMs := 600000
  slowCallWarnMs := 30000
  sessionReapGraceMs := 10000
  islandPlacement := false

/-- Claims play no part in the runs. -/
def ops : ClaimOps where
  canonical v := v
  parse _ := .error "a shape is an object"
  solve _ _ := .error "no node fits"
  nodeIpOf _ := none

/-- The clock at `now`, with every hash map in insertion order. -/
def at_ (now : Nat) : Env := ⟨now, .insertion⟩

def boot : State := State.new "n:1" "10.0.0.1" "10.0.0.1:7070"

def machine (gpus : Nat) : Machine :=
  ⟨0, 8, (List.range gpus).map fun i => ⟨i, "nvidia", "gpu", 0, false⟩⟩

/-- A registration of the agent `ag` with two devices. -/
def registration (resume : List ResumeActor) (unacked : List RefId) : AgentRegister where
  agentId := "ag"
  group := "g"
  nodeIp := "10.0.0.2"
  nodeId := "n:2"
  machine := machine 2
  container := "box"
  pid := 7
  services := ∅
  resume := resume
  unackedRefs := unacked
  metaInfo := ∅

def resumed (id : ActorId) (gpuIds : List Nat) (owner : ClientId) (refs : List RefId) :
    ResumeActor :=
  ⟨id, id, gpuIds, 1000, owner, refs⟩

def driver (client : ClientId) (session : Bool) : Hello := ⟨client, "g", session, "driver", "n:1"⟩

def group (client : ClientId) (id : PgId) : Section := .pgCreate ⟨client, id, [1], "PACK", ""⟩

def actor (client : ClientId) (pg : PgId) (id : ActorId) : Section :=
  .actorCreate ⟨client, id, id, 1, pg, 0, ∅, [], none⟩

def call (client : ClientId) (id : ActorId) : Section :=
  .actorCall ⟨client, id, "run", [], true⟩

end Sample

end Mentat
