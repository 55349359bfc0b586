import Mentat.Placement

/-!
# Actors and calls

`daemon.rs`, the requests that act on actors: `create_actor`, the `ActorCall` arm,
`kill_actor`, `mark_actor_dead`, and what a ref resolves to. Each function is one section of the
daemon that runs under the state mutex, or is called inside one.
-/

namespace Mentat

/-- The daemon's answer to a request. -/
inductive Reply where
  | ok
  | error (text : String)
  | refused (code text : String)
  | pgCreateOk (pgId : PgId)
  | actorCreateOk (actorId : ActorId) (nodeId : NodeId) (gpuIds : List Nat)
  | actorCallOk (refId : RefId)
  | claimOk (generation : Nat) (view : Value)

def clientGroup (st : State) (client : ClientId) : String :=
  ((st.clients.get client).map (·.group)).getD "default"

/-- The agent's row while its link is up. -/
def liveAgent (st : State) (id : AgentId) : Option AgentInfo := (st.agents.get id).filter (·.alive)

/-! ## Death -/

/-- The row of an actor declared dead. A row already dead keeps its first reason. -/
def ActorInfo.die (reason : String) (now : Nat) (a : ActorInfo) : ActorInfo :=
  if a.state.isDead then a else { a with state := .dead reason now, queuedCalls := [] }

/-- A pending ref of a dead actor resolves with the reason. -/
def RefInfo.fail (actorId : ActorId) (reason : String) (r : RefInfo) : RefInfo :=
  if r.actor = some actorId ∧ r.state = .pending then { r with state := .actorDied reason } else r

/-- Fan a death out to every pending ref that belongs to the actor, and place what its devices
free. -/
def fanOutDeath (cfg : Cfg) (ops : ClaimOps) (env : Env) (st : State) (actorId : ActorId)
    (reason : String) : State :=
  tryPlace cfg ops env { st with refs := st.refs.map fun _ r => r.fail actorId reason }

/-- Mark an actor dead and fan the death out. A row that is dead already is left alone, refs
included. -/
def markActorDead (cfg : Cfg) (ops : ClaimOps) (env : Env) (st : State) (actorId : ActorId)
    (reason : String) : State :=
  match st.actors.get actorId with
  | none => fanOutDeath cfg ops env st actorId reason
  | some actor =>
    if actor.state.isDead then st
    else
      let st := { st with actors := st.actors.modify actorId (·.die reason env.now) }
      let st := st.emitPatch "actor_dead"
        ((actorPatch st actorId).toList ++ (agentPatch st actor.agent).toList) reason
      fanOutDeath cfg ops env st actorId reason

/-- Kill an actor: its agent is told, and reports the exit. With the agent's link down the row
goes dead at once. -/
def killActor (cfg : Cfg) (ops : ClaimOps) (env : Env) (st : State) (actorId : ActorId) : State :=
  match st.actors.get actorId with
  | none => st
  | some actor =>
    if actor.state.isDead then st
    else
      match liveAgent st actor.agent with
      | some agent => st.send agent.writer (.actorKill actorId)
      | none => markActorDead cfg ops env st actorId "killed while its agent was down"

/-! ## `actor_create` -/

structure ActorCreate where
  client : ClientId
  /-- The id `new_actor_id` drew. -/
  actorId : ActorId
  name : String
  numGpus : Nat
  pgId : PgId
  bundleIndex : Nat
  env : Table String String
  payload : Payload
  /-- The error of writing the spawn to the agent's socket, none when it was written. -/
  sendError : Option String

/-- The checks before an actor is created: the bundle it goes in, the agent that hosts it and the
address it listens on inside its group's fabric. -/
def createTarget (st : State) (r : ActorCreate) :
    Except String (BundleAssignment × AgentInfo × Option String) := do
  let group := clientGroup st r.client
  if st.actors.values.any fun a => a.group == group && a.name == r.name && !a.state.isDead then
    .error ("actor name '" ++ r.name ++ "' already exists in group '" ++ group ++ "'")
  else match st.pgs.get r.pgId with
  | none => .error ("no such placement group " ++ r.pgId)
  | some pg =>
    if pg.state ≠ .created then .error ("placement group " ++ r.pgId ++ " is not ready")
    else match pg.assignment[r.bundleIndex]? with
    | some (some bundle) =>
      if bundle.gpuIds.length < r.numGpus then
        .error ("actor wants " ++ toString r.numGpus ++ " GPUs but bundle " ++
          toString r.bundleIndex ++ " reserves " ++ toString bundle.gpuIds.length)
      else match liveAgent st bundle.agent with
      | none => .error ("agent " ++ bundle.agent ++ " for bundle " ++ toString r.bundleIndex ++
          " is gone")
      | some agent => .ok (bundle, agent, pg.island.bind fun i => i.addr.get bundle.nodeId)
    | _ => .error ("bundle " ++ toString r.bundleIndex ++ " of placement group " ++ r.pgId ++
        " is not placed")

/-- What the checks establish: the bundle is one of a created group's. -/
theorem createTarget_bundle {st : State} {r : ActorCreate} {bundle : BundleAssignment}
    {agent : AgentInfo} {ip : Option String} (h : createTarget st r = .ok (bundle, agent, ip)) :
    ∃ pg, st.pgs.get r.pgId = some pg ∧ bundle ∈ pg.placed ∧ pg.state ≠ .removed := by
  unfold createTarget at h
  simp only at h
  split at h
  · cases h
  · split at h
    · cases h
    · next pg hpg =>
      split at h
      · cases h
      · next hst =>
        split at h
        · next hb =>
          split at h
          · cases h
          · split at h
            · cases h
            · cases h
              refine ⟨pg, hpg, ?_, fun he => hst (by simp [he])⟩
              exact List.mem_filterMap.mpr ⟨_, List.mem_of_getElem? hb, rfl⟩
        · cases h

/-- The environment of the spawned process. The bundle's own variables come last. -/
def spawnEnv (st : State) (r : ActorCreate) (bundle : BundleAssignment) (agent : AgentInfo)
    (fabricIp : Option String) : Table String String :=
  let env := r.env.set "MENTAT_ACTOR_ID" r.actorId
  let env := env.set "MENTAT_NODE_ID" bundle.nodeId
  let env := env.set "MENTAT_GPU_IDS" (",".intercalate (bundle.gpuIds.map toString))
  let env := env.set "MENTAT_GCS_ADDRESS" st.controlAddr
  let env := if agent.nodeIp = "" then env else env.set "MENTAT_NODE_IP" agent.nodeIp
  let env := match fabricIp with
    | some ip => env.set "MENTAT_FABRIC_IP" ip
    | none => env
  bundle.env.rows.foldl (fun env (k, v) => env.set k v) env

/-- The row of an actor just created. -/
def newActor (st : State) (r : ActorCreate) (bundle : BundleAssignment) : ActorInfo where
  name := r.name
  group := clientGroup st r.client
  agent := bundle.agent
  nodeId := bundle.nodeId
  gpuIds := bundle.gpuIds
  owner := r.client
  state := .spawning
  pid := none
  queuedCalls := []

/-- The row goes in before the agent is told. -/
def putSpawning (st : State) (r : ActorCreate) (bundle : BundleAssignment) : State :=
  let st := { st with actors := st.actors.set r.actorId (newActor st r bundle) }
  st.emitPatch "actor_spawning" (actorPatch st r.actorId).toList ""

def createActor (cfg : Cfg) (ops : ClaimOps) (env : Env) (st : State) (r : ActorCreate) :
    State × Reply :=
  match createTarget st r with
  | .error e => (st, .error e)
  | .ok (bundle, agent, fabricIp) =>
    let spawn := ToAgent.actorSpawn r.actorId r.name (spawnEnv st r bundle agent fabricIp)
      bundle.gpuIds r.client r.payload
    let st := putSpawning st r bundle
    match r.sendError with
    | none => (st.send agent.writer spawn, .actorCreateOk r.actorId bundle.nodeId bundle.gpuIds)
    | some e =>
      let why := "spawn did not reach agent " ++ bundle.agent ++ ": " ++ e
      (markActorDead cfg ops env st r.actorId why, .error why)

/-! ## `actor_call` -/

structure ActorCall where
  client : ClientId
  actorId : ActorId
  method : String
  payload : Payload
  /-- Whether the dispatch was written to the agent's socket. -/
  sent : Bool

def newRef (env : Env) (r : ActorCall) (state : RefState) : RefInfo where
  state := state
  actor := some r.actorId
  owner := r.client
  method := r.method
  createdMs := env.now
  warned := false

/-- Keep a call for when the agent's link is back. -/
def holdCall (st : State) (r : ActorCall) (refId : RefId) : State :=
  { st with actors := st.actors.modify r.actorId fun a =>
      { a with queuedCalls := a.queuedCalls ++ [(refId, r.method, r.payload)] } }

def actorCall (env : Env) (st : State) (r : ActorCall) : State × Reply :=
  let (refId, st) := st.newRefId r.actorId
  match st.actors.get r.actorId with
  | none => (st, .error ("no such actor " ++ r.actorId))
  | some actor =>
    let put (state : RefState) : State := { st with refs := st.refs.set refId (newRef env r state) }
    let st := match actor.state with
      | .dead reason _ => put (.actorDied reason)
      | _ =>
        match liveAgent st actor.agent with
        | some agent =>
          if r.sent then
            (put .pending).send agent.writer (.actorDispatch r.actorId refId r.method r.payload)
          -- The link is dying under us: the call waits for the next registration.
          else holdCall (put .pending) r refId
        | none =>
          if st.agents.has actor.agent then holdCall (put .pending) r refId
          else put (.actorDied ("agent " ++ actor.agent ++ " is not registered"))
    (st, .actorCallOk refId)

/-! ## What a ref holds -/

inductive Res where
  | pending
  | ready (ok : Bool) (payload : Payload)
  | actorDied (reason : String)
  | unknown
deriving DecidableEq, Repr

/-- What a ref currently holds. A `p:` id is a placement group, which resolves once created. -/
def resolveRef (st : State) (refId : RefId) : Res :=
  if refId.toList.take 2 = ['p', ':'] then
    match st.pgs.get refId with
    | none => .unknown
    | some pg => match pg.state with
      | .created => .ready true []
      | .pending => .pending
      | .removed => .actorDied (pg.failReason.getD "placement group removed")
  else
    match st.refs.get refId with
    | none => .unknown
    | some r => match r.state with
      | .pending => .pending
      | .ready ok payload => .ready ok payload
      | .actorDied reason => .actorDied reason

/-! ## Sections that leave the registry alone -/

/-- The part of the state that deaths, calls and placement do not touch. -/
def State.registry (st : State) : State :=
  { st with actors := ∅, refs := ∅, pgs := ∅, events := [], nextRef := 0, wire := [] }

/-- Only actors, refs, placement groups and the two logs changed. -/
def Quiet (st st' : State) : Prop := st'.registry = st.registry

namespace Quiet

variable {st st' st'' : State}

theorem refl (st : State) : Quiet st st := rfl

theorem trans (h : Quiet st st') (h' : Quiet st' st'') : Quiet st st'' := Eq.trans h' h

theorem agents (h : Quiet st st') : st'.agents = st.agents := (congrArg State.agents h :)

theorem claims (h : Quiet st st') : st'.claims = st.claims := (congrArg State.claims h :)

theorem foldl {α : Type} {f : State → α → State} (hf : ∀ st x, Quiet st (f st x)) (l : List α)
    (st : State) : Quiet st (l.foldl f st) := by
  induction l generalizing st with
  | nil => exact refl st
  | cons x l ih => exact (hf st x).trans (ih _)

end Quiet

variable (cfg : Cfg) (ops : ClaimOps) (env : Env) (st : State)

theorem tryPlace_quiet : Quiet st (tryPlace cfg ops env st) := by
  have h := tryPlace_sansPgs cfg ops env st
  exact (congrArg State.registry h :)

theorem fanOutDeath_quiet (x : ActorId) (reason : String) :
    Quiet st (fanOutDeath cfg ops env st x reason) :=
  tryPlace_quiet cfg ops env { st with refs := st.refs.map fun _ r => r.fail x reason }

@[simp] theorem fanOutDeath_wire (x : ActorId) (reason : String) :
    (fanOutDeath cfg ops env st x reason).wire = st.wire := by
  simp [fanOutDeath]

theorem markActorDead_quiet (x : ActorId) (reason : String) :
    Quiet st (markActorDead cfg ops env st x reason) := by
  unfold markActorDead
  split
  · exact fanOutDeath_quiet _ _ _ _ _ _
  · split
    · exact Quiet.refl st
    · exact Quiet.trans (Eq.refl st.registry) (fanOutDeath_quiet _ _ _ _ _ _)

theorem killActor_quiet (x : ActorId) : Quiet st (killActor cfg ops env st x) := by
  unfold killActor
  split
  · exact Quiet.refl st
  · split
    · exact Quiet.refl st
    · split
      · exact Eq.refl st.registry
      · exact markActorDead_quiet _ _ _ _ _ _

theorem createActor_quiet (r : ActorCreate) : Quiet st (createActor cfg ops env st r).1 := by
  unfold createActor
  split
  · exact Quiet.refl st
  · simp only
    split
    · exact Eq.refl st.registry
    · exact Quiet.trans (Eq.refl st.registry) (markActorDead_quiet _ _ _ _ _ _)

theorem actorCall_quiet (r : ActorCall) : Quiet st (actorCall env st r).1 := by
  unfold actorCall
  simp only
  split
  · exact Eq.refl st.registry
  · simp only
    split
    · exact Eq.refl st.registry
    · split
      · split <;> exact Eq.refl st.registry
      · split <;> exact Eq.refl st.registry

/-! ## What a death changes -/

@[simp] theorem fanOutDeath_actors (x : ActorId) (reason : String) :
    (fanOutDeath cfg ops env st x reason).actors = st.actors := by
  simp [fanOutDeath]

@[simp] theorem fanOutDeath_refs (x : ActorId) (reason : String) :
    (fanOutDeath cfg ops env st x reason).refs = st.refs.map fun _ r => r.fail x reason := by
  simp [fanOutDeath]

theorem ActorInfo.die_of_dead {a : ActorInfo} (h : a.state.isDead = true) (reason : String)
    (now : Nat) : a.die reason now = a := by
  simp [die, h]

theorem markActorDead_get (x k : ActorId) (reason : String) :
    (markActorDead cfg ops env st x reason).actors.get k =
      if k = x then (st.actors.get k).map (·.die reason env.now) else st.actors.get k := by
  unfold markActorDead
  split
  · next h =>
    rw [fanOutDeath_actors]
    split
    · next hk => rw [hk, h, Option.map_none]
    · rfl
  · next a h =>
    split
    · next hd =>
      split
      · next hk => rw [hk, h, Option.map_some, ActorInfo.die_of_dead hd]
      · rfl
    · rw [fanOutDeath_actors]
      exact Table.get_modify _ _ _ _

@[simp] theorem markActorDead_wire (x : ActorId) (reason : String) :
    (markActorDead cfg ops env st x reason).wire = st.wire := by
  unfold markActorDead
  split
  · exact fanOutDeath_wire _ _ _ _ _ _
  · split
    · rfl
    · exact fanOutDeath_wire _ _ _ _ _ _

/-- A death forgets no ref. -/
theorem markActorDead_ref_stays {x : ActorId} {reason : String} {rid : RefId} {r : RefInfo}
    (h : st.refs.get rid = some r) :
    ∃ r', (markActorDead cfg ops env st x reason).refs.get rid = some r' := by
  have hfan : ∀ s : State, s.refs.get rid = some r →
      ∃ r', (fanOutDeath cfg ops env s x reason).refs.get rid = some r' := by
    intro s hs
    exact ⟨r.fail x reason, by rw [fanOutDeath_refs, Table.get_map, hs, Option.map_some]⟩
  unfold markActorDead
  split
  · exact hfan st h
  · split
    · exact ⟨r, h⟩
    · exact hfan _ h

/-- A death removes no group. -/
theorem markActorDead_standing {x : ActorId} {reason : String} {p : PgId} {P : PgInfo}
    (h : st.pgs.get p = some P) (hs : P.state ≠ .removed) :
    ∃ P', (markActorDead cfg ops env st x reason).pgs.get p = some P' ∧ P'.state ≠ .removed := by
  unfold markActorDead
  split
  · exact tryPlace_standing h hs
  · split
    · exact ⟨P, h, hs⟩
    · exact tryPlace_standing h hs

/-- What killing an actor can do: nothing, tell its agent, or declare it dead. -/
theorem killActor_cases (x : ActorId) :
    killActor cfg ops env st x = st ∨
    (∃ a agent, st.actors.get x = some a ∧ a.state.isDead = false ∧
      liveAgent st a.agent = some agent ∧
      killActor cfg ops env st x = st.send agent.writer (.actorKill x)) ∨
    (∃ a, st.actors.get x = some a ∧ a.state.isDead = false ∧ liveAgent st a.agent = none ∧
      killActor cfg ops env st x =
        markActorDead cfg ops env st x "killed while its agent was down") := by
  unfold killActor
  cases ha : st.actors.get x with
  | none => exact .inl rfl
  | some a =>
    cases hd : a.state.isDead with
    | true => exact .inl (by simp [hd])
    | false =>
      cases hl : liveAgent st a.agent with
      | none => exact .inr (.inr ⟨a, rfl, hd, hl, by simp [hd, hl]⟩)
      | some agent => exact .inr (.inl ⟨a, agent, rfl, hd, hl, by simp [hd, hl]⟩)

theorem liveAgent_eq_some {st : State} {id : AgentId} {a : AgentInfo} :
    liveAgent st id = some a ↔ st.agents.get id = some a ∧ a.alive = true := by
  simp [liveAgent, Option.filter_eq_some_iff]

theorem liveAgent_eq_none {st : State} {id : AgentId} :
    liveAgent st id = none ↔ ∀ a, st.agents.get id = some a → a.alive = false := by
  cases h : st.agents.get id with
  | none => simp [liveAgent, h]
  | some a => cases ha : a.alive <;> simp [liveAgent, h, ha]

/-! ## How a row may change -/

/-- A later version of one actor's row: what names it stays, and a death is final. -/
structure ActorInfo.Later (a a' : ActorInfo) : Prop where
  name : a'.name = a.name
  group : a'.group = a.group
  agent : a'.agent = a.agent
  gpuIds : a'.gpuIds = a.gpuIds
  owner : a'.owner = a.owner
  dead : a.state.isDead = true → a'.state = a.state

namespace ActorInfo.Later

theorem refl (a : ActorInfo) : a.Later a := ⟨rfl, rfl, rfl, rfl, rfl, fun _ => rfl⟩

theorem trans {a b c : ActorInfo} (h : a.Later b) (h' : b.Later c) : a.Later c where
  name := h'.name.trans h.name
  group := h'.group.trans h.group
  agent := h'.agent.trans h.agent
  gpuIds := h'.gpuIds.trans h.gpuIds
  owner := h'.owner.trans h.owner
  dead hd := by
    have hb := h.dead hd
    exact (h'.dead (by rw [hb]; exact hd)).trans hb

/-- A row that is live now was live before. -/
theorem live {a a' : ActorInfo} (h : a.Later a') (hl : a'.state.isDead = false) :
    a.state.isDead = false := by
  cases hd : a.state.isDead with
  | false => rfl
  | true =>
    rw [h.dead hd, hd] at hl
    exact hl

theorem die (a : ActorInfo) (reason : String) (now : Nat) : a.Later (a.die reason now) := by
  unfold ActorInfo.die
  split
  · exact refl a
  · next h => exact ⟨rfl, rfl, rfl, rfl, rfl, fun hd => absurd hd h⟩

end ActorInfo.Later

/-- `t'` has no rows but later versions of those of `t`, and each row that died on the way did so
for a reason `why` gives. The reason may depend on the agent the actor is on. -/
structure Ages (why : ActorId → AgentId → String → Prop) (t t' : Table ActorId ActorInfo) :
    Prop where
  back {k : ActorId} {a' : ActorInfo} : t'.get k = some a' →
    ∃ a, t.get k = some a ∧ a.Later a' ∧
      (a.state.isDead = false → ∀ r ms, a'.state = .dead r ms → why k a.agent r)
  forth {k : ActorId} {a : ActorInfo} : t.get k = some a → a.state.isDead = false →
    (∃ a', t'.get k = some a' ∧ a'.state.isDead = false) ∨ ∃ r, why k a.agent r

namespace Ages

variable {why why' : ActorId → AgentId → String → Prop} {t t' t'' : Table ActorId ActorInfo}

theorem refl (t : Table ActorId ActorInfo) : Ages why t t where
  back {_ a'} h := ⟨a', h, .refl a', fun hl r ms hd => by simp [hd, ActorState.isDead] at hl⟩
  forth {_ a} h hl := .inl ⟨a, h, hl⟩

theorem of_eq (h : t' = t) : Ages why t t' := by
  rw [h]
  exact refl t

theorem mono (h : Ages why t t') (hle : ∀ k a r, why k a r → why' k a r) : Ages why' t t' where
  back hk := by
    obtain ⟨a, ha, hl, hd⟩ := h.back hk
    exact ⟨a, ha, hl, fun hlive r ms he => hle _ _ _ (hd hlive r ms he)⟩
  forth hk hl := (h.forth hk hl).imp id (.imp fun r hr => hle _ _ _ hr)

theorem trans (h : Ages why t t') (h' : Ages why t' t'') : Ages why t t'' where
  back hk := by
    obtain ⟨b, hb, hbc, hdb⟩ := h'.back hk
    obtain ⟨a, ha, hab, hda⟩ := h.back hb
    refine ⟨a, ha, hab.trans hbc, fun hl r ms hr => ?_⟩
    cases hlb : b.state.isDead with
    | false => exact hab.agent ▸ hdb hlb r ms hr
    | true => exact hda hl r ms ((hbc.dead hlb) ▸ hr)
  forth hk hl := by
    rcases h.forth hk hl with ⟨b, hb, hlb⟩ | hr
    · obtain ⟨a, ha, hab, -⟩ := h.back hb
      cases ha.symm.trans hk
      exact hab.agent ▸ h'.forth hb hlb
    · exact .inr hr

/-- A live row after comes from a live row before. -/
theorem live (h : Ages why t t') {k : ActorId} {a' : ActorInfo} (hk : t'.get k = some a')
    (hl : a'.state.isDead = false) :
    ∃ a, t.get k = some a ∧ a.state.isDead = false ∧ a.Later a' := by
  obtain ⟨a, ha, hla, -⟩ := h.back hk
  exact ⟨a, ha, hla.live hl, hla⟩

/-- A reason is only ever needed for a live row, and for the agent that row names. -/
theorem known (h : Ages why t t') : Ages (fun k ag r => why k ag r ∧
    ∃ a, t.get k = some a ∧ a.state.isDead = false ∧ a.agent = ag) t t' where
  back hk := by
    obtain ⟨a, ha, hl, hd⟩ := h.back hk
    exact ⟨a, ha, hl, fun hlive r ms hr => ⟨hd hlive r ms hr, a, ha, hlive, rfl⟩⟩
  forth hk hl := (h.forth hk hl).imp id (.imp fun r hr => ⟨hr, _, hk, hl, rfl⟩)

theorem foldl {α : Type} {f : State → α → State} {l : List α}
    (hf : ∀ st, ∀ x ∈ l, Ages why st.actors (f st x).actors) (st : State) :
    Ages why st.actors (l.foldl f st).actors := by
  induction l generalizing st with
  | nil => exact refl _
  | cons x l ih =>
    exact (hf st x List.mem_cons_self).trans
      (ih (fun st y hy => hf st y (List.mem_cons_of_mem x hy)) _)

/-- Rows changed in place, each to a later version of itself that lives if it did, or dies for a
reason. -/
theorem of_map {f : ActorId → ActorInfo → ActorInfo} (h : t' = t.map f)
    (hf : ∀ (k : ActorId) (a : ActorInfo), a.Later (f k a))
    (hd : ∀ (k : ActorId) (a : ActorInfo), a.state.isDead = false →
      (f k a).state.isDead = false ∨ ∃ r ms, (f k a).state = .dead r ms ∧ why k a.agent r) :
    Ages why t t' := by
  subst h
  constructor
  · intro k a' ha
    rw [Table.get_map, Option.map_eq_some_iff] at ha
    obtain ⟨a, ha, rfl⟩ := ha
    refine ⟨a, ha, hf k a, fun hl r ms hr => ?_⟩
    rcases hd k a hl with hl' | ⟨r', ms', hr', hw⟩
    · simp [hr, ActorState.isDead] at hl'
    · cases hr'.symm.trans hr
      exact hw
  · intro k a ha hl
    rcases hd k a hl with hl' | ⟨r, ms, -, hw⟩
    · exact .inl ⟨f k a, by rw [Table.get_map, ha, Option.map_some], hl'⟩
    · exact .inr ⟨r, hw⟩

/-- One row changed in place, and not to a dead one. -/
theorem of_modify {x : ActorId} {f : ActorInfo → ActorInfo} (h : t' = t.modify x f)
    (hf : ∀ a : ActorInfo, a.Later (f a))
    (hd : ∀ a : ActorInfo, a.state.isDead = false → (f a).state.isDead = false) :
    Ages why t t' := by
  refine of_map h (fun k a => ?_) fun k a hl => .inl ?_
  · split
    · exact hf a
    · exact .refl a
  · split
    · exact hd a hl
    · exact hl

end Ages

theorem markActorDead_ages (x : ActorId) (reason : String) :
    Ages (fun k _ r => k = x ∧ r = reason) st.actors
      (markActorDead cfg ops env st x reason).actors where
  back {k a'} ha := by
    rw [markActorDead_get] at ha
    split at ha
    · next hk =>
      rw [Option.map_eq_some_iff] at ha
      obtain ⟨a, ha, rfl⟩ := ha
      refine ⟨a, ha, .die a _ _, fun hl r ms hr => ⟨hk, ?_⟩⟩
      simp only [ActorInfo.die, hl, Bool.false_eq_true, if_false, ActorState.dead.injEq] at hr
      exact hr.1.symm
    · refine ⟨a', ha, .refl a', fun hl r ms hr => ?_⟩
      simp [hr, ActorState.isDead] at hl
  forth {k a} ha hl := by
    by_cases hk : k = x
    · exact .inr ⟨reason, hk, rfl⟩
    · exact .inl ⟨a, by rw [markActorDead_get, if_neg hk, ha], hl⟩

theorem killActor_ages (x : ActorId) :
    Ages (fun k a r => k = x ∧ liveAgent st a = none ∧ r = "killed while its agent was down")
      st.actors (killActor cfg ops env st x).actors := by
  rcases killActor_cases cfg ops env st x with h | ⟨_, _, _, _, _, h⟩ | ⟨a, ha, hl, hag, h⟩
  · rw [h]
    exact .refl _
  · rw [h]
    exact .of_eq rfl
  · rw [h]
    refine (markActorDead_ages cfg ops env st x _).known.mono ?_
    rintro k ag r ⟨⟨rfl, rfl⟩, b, hb, -, rfl⟩
    cases ha.symm.trans hb
    exact ⟨rfl, hag, rfl⟩

/-! ## What a creation and a call change -/

/-- The table once `create_actor` has put the new row in. -/
def createTable (st : State) (r : ActorCreate) : Table ActorId ActorInfo :=
  match createTarget st r with
  | .error _ => st.actors
  | .ok (bundle, _, _) => st.actors.set r.actorId (newActor st r bundle)

theorem createActor_ages (r : ActorCreate) :
    Ages (fun k _ why => k = r.actorId ∧ ∃ e agent, r.sendError = some e ∧
        why = "spawn did not reach agent " ++ agent ++ ": " ++ e)
      (createTable st r) (createActor cfg ops env st r).1.actors := by
  unfold createTable createActor
  split
  · exact .refl _
  · next bundle agent ip _ =>
    simp only
    split
    · exact .of_eq rfl
    · next e he =>
      refine (markActorDead_ages cfg ops env (putSpawning st r bundle) r.actorId _).mono ?_
      rintro k ag why ⟨rfl, rfl⟩
      exact ⟨rfl, e, bundle.agent, he, rfl⟩

theorem holdCall_ages {why : ActorId → AgentId → String → Prop} (r : ActorCall) (rid : RefId) :
    Ages why st.actors (holdCall st r rid).actors :=
  .of_modify rfl (fun _ => ⟨rfl, rfl, rfl, rfl, rfl, fun _ => rfl⟩) fun _ h => h

theorem actorCall_ages {why : ActorId → AgentId → String → Prop} (r : ActorCall) :
    Ages why st.actors (actorCall env st r).1.actors := by
  unfold actorCall
  simp only
  split
  · exact .of_eq rfl
  · simp only
    split
    · exact .of_eq rfl
    · split
      · split
        · exact .of_eq rfl
        · exact holdCall_ages _ _ _
      · split
        · exact holdCall_ages _ _ _
        · exact .of_eq rfl

/-! ## A list of deaths -/

/-- Declare several actors dead, one after another. -/
def buryAll (ids : List ActorId) (reason : String) : State :=
  ids.foldl (fun st x => markActorDead cfg ops env st x reason) st

/-- What every single death keeps, a series of them keeps. -/
theorem buryAll_keeps {I : State → Prop}
    (hdead : ∀ s x reason, I s → I (markActorDead cfg ops env s x reason)) (h : I st)
    (ids : List ActorId) (reason : String) : I (buryAll cfg ops env st ids reason) :=
  List.foldlRecOn ids _ h fun s hs x _ => hdead s x reason hs

theorem buryAll_quiet (ids : List ActorId) (reason : String) :
    Quiet st (buryAll cfg ops env st ids reason) :=
  Quiet.foldl (fun st x => markActorDead_quiet cfg ops env st x reason) ids st

theorem buryAll_ages (ids : List ActorId) (reason : String) :
    Ages (fun k _ r => k ∈ ids ∧ r = reason) st.actors
      (buryAll cfg ops env st ids reason).actors :=
  Ages.foldl (fun st x hx => (markActorDead_ages cfg ops env st x reason).mono
    fun _ _ _ h => ⟨h.1 ▸ hx, h.2⟩) st

@[simp] theorem buryAll_wire (ids : List ActorId) (reason : String) :
    (buryAll cfg ops env st ids reason).wire = st.wire :=
  buryAll_keeps cfg ops env st (I := fun s => s.wire = st.wire)
    (fun s x reason hs => (markActorDead_wire cfg ops env s x reason).trans hs) rfl ids reason

/-- Every row in the list is dead afterwards. -/
theorem buryAll_dead {ids : List ActorId} {reason : String} {k : ActorId} {a : ActorInfo}
    (hk : k ∈ ids) (h : (buryAll cfg ops env st ids reason).actors.get k = some a) :
    a.state.isDead = true := by
  unfold buryAll at h
  induction ids generalizing st with
  | nil => cases hk
  | cons x ids ih =>
    rw [List.foldl_cons] at h
    by_cases hk' : k ∈ ids
    · exact ih (markActorDead cfg ops env st x reason) hk' h
    · have hx : k = x := (List.mem_cons.mp hk).resolve_right hk'
      obtain ⟨b, hb, hl, -⟩ :=
        (buryAll_ages cfg ops env (markActorDead cfg ops env st x reason) ids reason).back h
      rw [markActorDead_get, if_pos hx, Option.map_eq_some_iff] at hb
      obtain ⟨c, -, rfl⟩ := hb
      have hd : (c.die reason env.now).state.isDead = true := by
        unfold ActorInfo.die
        split
        · assumption
        · rfl
      rw [hl.dead hd, hd]

end Mentat
