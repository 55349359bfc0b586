import Mentat.Daemon.Clients

/-!
# Agent connections

`daemon.rs`, `agent_conn`: the registration section with its resume, adoption and drain, the
frames an agent sends afterwards, and the end of its link. The registration is one section. It is
written here as the steps it takes in order, each a function of its own.
-/

namespace Mentat

/-- One actor process the agent still holds. -/
structure ResumeActor where
  actorId : ActorId
  name : String
  gpuIds : List Nat
  pid : Nat
  owner : ClientId
  pendingRefs : List RefId

structure AgentRegister where
  agentId : AgentId
  group : String
  nodeIp : String
  /-- The node the agent was filed under. -/
  nodeId : NodeId
  machine : Machine
  container : String
  pid : Nat
  services : Table String Service
  resume : List ResumeActor
  unackedRefs : List RefId
  metaInfo : Table String String

namespace AgentRegister

/-- The ids of the actors the agent reports. -/
def resumed (r : AgentRegister) : List ActorId := r.resume.map (·.actorId)

/-- The calls the agent reports: those it is working on, and those whose result it holds. -/
def reported (r : AgentRegister) : List RefId :=
  r.resume.flatMap (·.pendingRefs) ++ r.unackedRefs

end AgentRegister

/-! ## Ref ids -/

/-- `rsplit_once(':')`: what stands before and after the last colon. -/
def rsplitOnce (s : String) : Option (String × String) :=
  let l := s.toList.reverse
  match l.dropWhile (· ≠ ':') with
  | [] => none
  | _ :: before => some (.ofList before.reverse, .ofList (l.takeWhile (· ≠ ':')).reverse)

/-- `parse::<u64>()`: an optional plus sign, then digits, with a value below `2^64`. -/
def parseU64 (s : String) : Option Nat :=
  let digits := match s.toList with
    | '+' :: l => l
    | l => l
  if digits.isEmpty || !digits.all Char.isDigit then none
  else (some (digits.foldl (fun n c => n * 10 + (c.toNat - '0'.toNat)) 0)).filter (· < 2 ^ 64)

/-! ## Registration -/

/-- The agent's row, fresh and alive on the new socket. -/
def agentOfRegister (r : AgentRegister) (w : FrameWriter) (seq : Nat) : AgentInfo where
  group := r.group
  nodeId := r.nodeId
  nodeIp := r.nodeIp
  machine := r.machine
  container := r.container
  pid := r.pid
  services := r.services
  metaInfo := r.metaInfo
  writer := w
  alive := true
  lostAtMs := none
  degraded := false
  goneSinceMs := none
  seq := seq

/-- Re-registration replaces the previous connection outright. -/
def insertAgent (st : State) (w : FrameWriter) (r : AgentRegister) : State :=
  let st := { st with
    nextSeq := st.nextSeq + 1
    agents := st.agents.set r.agentId (agentOfRegister r w st.nextSeq) }
  st.emitPatch "agent_register" (agentPatch st r.agentId).toList ""

/-- A resumed actor that the registration kills: it has a row, and the row is dead or its owner
has no client row. -/
def rejects (st : State) (x : ActorId) : Bool :=
  (st.actors.get x).any fun a => !st.clients.has a.owner || a.state.isDead

def resumeKills (st : State) (r : AgentRegister) : List ActorId := r.resumed.filter (rejects st)

/-- The row of an actor adopted from what its agent reports. -/
def adoptedActor (r : AgentRegister) (x : ResumeActor) : ActorInfo where
  name := x.name
  group := r.group
  agent := r.agentId
  nodeId := r.nodeId
  gpuIds := x.gpuIds
  owner := x.owner
  state := .running
  pid := if x.pid = 0 then none else some x.pid
  queuedCalls := []

/-- The resumed actors this daemon has no row for. -/
def adoptions (st : State) (r : AgentRegister) : List ResumeActor :=
  r.resume.filter fun x => !st.actors.has x.actorId

/-- The table with the adopted rows in it. -/
def adoptTable (st : State) (r : AgentRegister) : Table ActorId ActorInfo :=
  (adoptions st r).foldl (fun t x => t.set x.actorId (adoptedActor r x)) st.actors

def adoptActors (st : State) (r : AgentRegister) : State :=
  let adopt := adoptions st r
  let st := { st with actors := adoptTable st r }
  if adopt.isEmpty then st
  else st.emitPatch "actor_adopted"
    (adopt.map (fun x => .set (actorPath r.group x.actorId) (.actor (actorRow (adoptedActor r x)))) ++
      (agentPatch st r.agentId).toList) ""

/-- Revive one reported ref, and move the counter past it. Only for an actor this agent holds. -/
def adoptRef (env : Env) (agentId : AgentId) (st : State) (rid : RefId) : State :=
  if st.refs.has rid then st
  else match rsplitOnce rid with
  | none => st
  | some (actor, n) =>
    match st.actors.get actor with
    | none => st
    | some a =>
      if a.agent ≠ agentId then st
      else { st with
        nextRef := match parseU64 n with
          | some n => max st.nextRef ((n + 1) % 2 ^ 64)
          | none => st.nextRef
        refs := st.refs.set rid ⟨.pending, some actor, a.owner, "", env.now, false⟩ }

def adoptRefs (env : Env) (st : State) (r : AgentRegister) : State :=
  r.reported.foldl (adoptRef env r.agentId) st

/-- The agent's live actors that its resume list omits. -/
def missingActors (env : Env) (st : State) (r : AgentRegister) : List ActorId :=
  env.select st.actors fun id a => a.agent == r.agentId && !a.state.isDead && !r.resumed.contains id

def buryMissing (cfg : Cfg) (ops : ClaimOps) (env : Env) (st : State) (r : AgentRegister) : State :=
  buryAll cfg ops env st (missingActors env st r) "agent reconnected without this actor"

/-- A pending ref of this agent's that neither the agent nor the held-call queue knows. -/
def isLost (st : State) (r : AgentRegister) (rid : RefId) (ref : RefInfo) : Bool :=
  let queued := st.actors.values.any fun a =>
    a.agent == r.agentId && a.queuedCalls.any fun c => c.1 == rid
  ref.state == .pending &&
    (ref.actor.bind st.actors.get).any (fun a => a.agent == r.agentId) &&
    !r.reported.contains rid && !queued

def failLost (st : State) (r : AgentRegister) : State :=
  { st with refs := st.refs.map fun rid ref =>
      if isLost st r rid ref then
        { ref with state := .actorDied "call lost while the agent link was down" }
      else ref }

/-- The calls held for an actor, as frames. -/
def heldFrames (w : FrameWriter) (id : ActorId) (a : ActorInfo) : List (FrameWriter × ToAgent) :=
  a.queuedCalls.map fun (ref, method, payload) => (w, .actorDispatch id ref method payload)

/-- Send the calls held during the outage, each actor's in arrival order. -/
def drainHeld (env : Env) (st : State) (w : FrameWriter) (agentId : AgentId) : State :=
  let ids := env.select st.actors fun _ a =>
    a.agent == agentId && !a.state.isDead && !a.queuedCalls.isEmpty
  { st with
    wire := st.wire ++ ids.flatMap fun id =>
      match st.actors.get id with
      | some a => heldFrames w id a
      | none => []
    actors := st.actors.map fun _ a =>
      if a.agent = agentId ∧ a.state.isDead = false then { a with queuedCalls := [] } else a }

/-- The registration section of `agent_conn`. -/
def register (cfg : Cfg) (ops : ClaimOps) (env : Env) (st : State) (w : FrameWriter)
    (r : AgentRegister) : State :=
  let st := insertAgent st w r
  let kills := resumeKills st r
  let st := adoptActors st r
  let st := adoptRefs env st r
  let st := buryMissing cfg ops env st r
  let st := failLost st r
  -- The handshake wants `AgentRegisterOk` first, so the kills and the drain follow it.
  let st := st.send w (.registerOk r.nodeId)
  let st := kills.foldl (fun st x => st.send w (.actorKill x)) st
  let st := drainHeld env st w r.agentId
  tryPlace cfg ops env st

/-! ## What a registration changes -/

section Register

variable (cfg : Cfg) (ops : ClaimOps) (env : Env) (st : State) (w : FrameWriter)
  (r : AgentRegister)

/-- A row after the adoption is the row there was, or one of the adopted. -/
theorem adoptTable_get {k : ActorId} {a : ActorInfo} (h : (adoptTable st r).get k = some a) :
    st.actors.get k = some a ∨
      (st.actors.get k = none ∧ ∃ x ∈ r.resume, x.actorId = k ∧ a = adoptedActor r x) := by
  have hfold : ∀ (l : List ResumeActor) (t : Table ActorId ActorInfo),
      (l.foldl (fun t x => t.set x.actorId (adoptedActor r x)) t).get k = some a →
      t.get k = some a ∨ ∃ x ∈ l, x.actorId = k ∧ a = adoptedActor r x := by
    intro l
    induction l with
    | nil => exact fun t h => .inl h
    | cons x l ih =>
      intro t h
      rcases ih _ h with h | ⟨y, hy, he⟩
      · rw [Table.get_set] at h
        split at h
        · next hk => exact .inr ⟨x, List.mem_cons_self, hk.symm, (Option.some.inj h).symm⟩
        · exact .inl h
      · exact .inr ⟨y, List.mem_cons_of_mem x hy, he⟩
  rcases hfold _ _ h with h | ⟨x, hx, rfl, rfl⟩
  · exact .inl h
  · simp only [adoptions, List.mem_filter, Bool.not_eq_true', Table.has_eq_false] at hx
    exact .inr ⟨hx.2, x, hx.1, rfl, rfl⟩

/-- A row known before the adoption stays, and a resumed actor has a row after it. -/
theorem adoptTable_known {k : ActorId} {a : ActorInfo} (h : st.actors.get k = some a) :
    (adoptTable st r).get k = some a := by
  have hfold : ∀ (l : List ResumeActor) (t : Table ActorId ActorInfo), (∀ x ∈ l, x.actorId ≠ k) →
      t.get k = some a → (l.foldl (fun t x => t.set x.actorId (adoptedActor r x)) t).get k = some a := by
    intro l
    induction l with
    | nil => exact fun t _ h => h
    | cons x l ih =>
      intro t hne h
      refine ih _ (fun y hy => hne y (List.mem_cons_of_mem x hy)) ?_
      rw [Table.get_set_of_ne (hne x List.mem_cons_self).symm, h]
  refine hfold _ _ (fun x hx he => ?_) h
  simp only [adoptions, List.mem_filter, Bool.not_eq_true', Table.has_eq_false] at hx
  rw [he, h] at hx
  cases hx.2

theorem adoptTable_has {k : ActorId} (h : k ∈ r.resumed) : ∃ a, (adoptTable st r).get k = some a := by
  cases hk : st.actors.get k with
  | some a => exact ⟨a, adoptTable_known st r hk⟩
  | none =>
    have hfold : ∀ (l : List ResumeActor) (t : Table ActorId ActorInfo),
        ((∃ x ∈ l, x.actorId = k) ∨ ∃ a, t.get k = some a) →
        ∃ a, (l.foldl (fun t x => t.set x.actorId (adoptedActor r x)) t).get k = some a := by
      intro l
      induction l with
      | nil => exact fun t h => h.resolve_left (by simp)
      | cons x l ih =>
        intro t h
        refine ih _ ?_
        by_cases he : x.actorId = k
        · exact .inr ⟨adoptedActor r x, he ▸ Table.get_set_self t x.actorId (adoptedActor r x)⟩
        · rcases h with ⟨y, hy, hyk⟩ | ⟨a, ha⟩
          · rcases List.mem_cons.mp hy with rfl | hy
            · exact absurd hyk he
            · exact .inl ⟨y, hy, hyk⟩
          · exact .inr ⟨a, by rw [Table.get_set_of_ne (Ne.symm he), ha]⟩
    obtain ⟨x, hx, hxk⟩ := List.mem_map.mp h
    refine hfold _ _ (.inl ⟨x, ?_, hxk⟩)
    simp only [adoptions, List.mem_filter, Bool.not_eq_true', Table.has_eq_false]
    exact ⟨hx, hxk ▸ hk⟩

@[simp] theorem adoptActors_actors : (adoptActors st r).actors = adoptTable st r := by
  unfold adoptActors
  simp only
  split <;> rfl

@[simp] theorem adoptActors_refs : (adoptActors st r).refs = st.refs := by
  unfold adoptActors
  simp only
  split <;> rfl

@[simp] theorem adoptActors_nextRef : (adoptActors st r).nextRef = st.nextRef := by
  unfold adoptActors
  simp only
  split <;> rfl

theorem adoptActors_quiet : Quiet st (adoptActors st r) := by
  unfold adoptActors
  simp only
  split <;> exact Eq.refl st.registry

/-- Adopting a ref leaves everything but the refs and the counter alone. -/
theorem adoptRef_frame (id : AgentId) (rid : RefId) :
    ∃ refs nextRef, adoptRef env id st rid = { st with refs := refs, nextRef := nextRef } := by
  unfold adoptRef
  split
  · exact ⟨_, _, rfl⟩
  · split
    · exact ⟨_, _, rfl⟩
    · split
      · exact ⟨_, _, rfl⟩
      · split <;> exact ⟨_, _, rfl⟩

/-- Adopting a ref leaves the others, and one that is known, as they are. -/
theorem adoptRef_known (agentId : AgentId) (rid : RefId) {k : RefId} {ref : RefInfo}
    (h : st.refs.get k = some ref) : (adoptRef env agentId st rid).refs.get k = some ref := by
  unfold adoptRef
  split
  · exact h
  · next hn =>
    have hk : k ≠ rid := by
      rintro rfl
      exact hn (Table.has_iff.mpr ⟨ref, h⟩)
    split
    · exact h
    · split
      · exact h
      · split
        · exact h
        · exact (Table.get_set_of_ne hk).trans h

theorem adoptRefs_frame :
    ∃ refs nextRef, adoptRefs env st r = { st with refs := refs, nextRef := nextRef } := by
  unfold adoptRefs
  generalize r.reported = rids
  induction rids generalizing st with
  | nil => exact ⟨_, _, rfl⟩
  | cons rid rids ih =>
    obtain ⟨refs, n, h⟩ := adoptRef_frame env st r.agentId rid
    rw [List.foldl_cons, h]
    exact ih _

theorem adoptRefs_quiet : Quiet st (adoptRefs env st r) := by
  obtain ⟨refs, n, h⟩ := adoptRefs_frame env st r
  rw [h]
  exact Eq.refl st.registry

@[simp] theorem adoptRefs_actors : (adoptRefs env st r).actors = st.actors := by
  obtain ⟨refs, n, h⟩ := adoptRefs_frame env st r
  rw [h]

theorem buryMissing_quiet : Quiet st (buryMissing cfg ops env st r) := buryAll_quiet _ _ _ _ _ _

theorem failLost_quiet : Quiet st (failLost st r) := rfl

/-- The registration up to the reply: what it makes of the tables. -/
def resumeState : State :=
  let st := adoptActors (insertAgent st w r) r
  let st := adoptRefs env st r
  let st := buryMissing cfg ops env st r
  failLost st r

/-- The frames a registration writes before the held calls. -/
def resumeFrames : List (FrameWriter × ToAgent) :=
  (w, .registerOk r.nodeId) :: (resumeKills st r).map fun x => (w, .actorKill x)

theorem foldl_send_kill (kills : List ActorId) :
    kills.foldl (fun st x => st.send w (.actorKill x)) st =
      { st with wire := st.wire ++ kills.map fun x => (w, .actorKill x) } := by
  induction kills generalizing st with
  | nil => simp
  | cons x kills ih =>
    rw [List.foldl_cons, ih]
    simp [State.send]

/-- The registration once those frames are written. -/
def repliedState : State :=
  { resumeState cfg ops env st w r with
    wire := (resumeState cfg ops env st w r).wire ++ resumeFrames st w r }

theorem register_eq : register cfg ops env st w r =
    tryPlace cfg ops env (drainHeld env (repliedState cfg ops env st w r) w r.agentId) := by
  unfold register
  simp only [foldl_send_kill]
  have : resumeKills (insertAgent st w r) r = resumeKills st r := rfl
  rw [this]
  simp only [State.send, repliedState, resumeFrames, List.append_assoc, List.singleton_append]
  rfl

theorem resumeState_quiet : Quiet (insertAgent st w r) (resumeState cfg ops env st w r) :=
  (adoptActors_quiet _ r).trans ((adoptRefs_quiet env _ r).trans
    ((buryMissing_quiet cfg ops env _ r).trans (failLost_quiet _ r)))

/-- The actors a registration leaves: those known and those adopted, with the omitted ones of
the agent dead. -/
theorem resumeState_ages :
    Ages (fun k ag why => ag = r.agentId ∧ k ∉ r.resumed ∧
        why = "agent reconnected without this actor")
      (adoptTable st r) (resumeState cfg ops env st w r).actors := by
  have h := (buryAll_ages cfg ops env (adoptRefs env (adoptActors (insertAgent st w r) r) r)
    (missingActors env (adoptRefs env (adoptActors (insertAgent st w r) r) r) r)
    "agent reconnected without this actor").known
  rw [adoptRefs_actors, adoptActors_actors] at h
  refine h.mono ?_
  rintro k ag why ⟨⟨hk, rfl⟩, a, ha, -, rfl⟩
  obtain ⟨b, hb, hp⟩ := Env.mem_select.mp hk
  rw [adoptRefs_actors, adoptActors_actors] at hb
  cases hb.symm.trans ha
  simp only [Bool.and_eq_true, beq_iff_eq, Bool.not_eq_true', List.contains_eq_mem,
    decide_eq_false_iff_not] at hp
  exact ⟨hp.1.1, hp.2, rfl⟩

theorem resumeState_wire : (resumeState cfg ops env st w r).wire = st.wire := by
  obtain ⟨refs, n, h⟩ := adoptRefs_frame env (adoptActors (insertAgent st w r) r) r
  have hb := buryAll_wire cfg ops env (adoptRefs env (adoptActors (insertAgent st w r) r) r)
    (missingActors env (adoptRefs env (adoptActors (insertAgent st w r) r) r) r)
    "agent reconnected without this actor"
  refine Eq.trans (b := (adoptRefs env (adoptActors (insertAgent st w r) r) r).wire) hb ?_
  rw [h]
  unfold adoptActors
  simp only
  split <;> rfl

theorem drainHeld_quiet (id : AgentId) : Quiet st (drainHeld env st w id) := rfl

theorem register_quiet : Quiet (insertAgent st w r) (register cfg ops env st w r) := by
  rw [register_eq]
  exact (resumeState_quiet cfg ops env st w r).trans
    ((drainHeld_quiet env (repliedState cfg ops env st w r) w r.agentId).trans
      (tryPlace_quiet _ _ _ _))

theorem drainHeld_ages (why : ActorId → AgentId → String → Prop) (id : AgentId) :
    Ages why st.actors (drainHeld env st w id).actors := by
  refine .of_map rfl (fun k a => ?_) fun k a hl => .inl ?_
  · split
    · exact ⟨rfl, rfl, rfl, rfl, rfl, fun _ => rfl⟩
    · exact .refl a
  · split
    · exact hl
    · exact hl

theorem register_ages :
    Ages (fun k ag why => ag = r.agentId ∧ k ∉ r.resumed ∧
        why = "agent reconnected without this actor")
      (adoptTable st r) (register cfg ops env st w r).actors := by
  rw [register_eq, tryPlace_actors]
  exact (resumeState_ages cfg ops env st w r).trans
    (drainHeld_ages env (repliedState cfg ops env st w r) w _ r.agentId)

/-- Of an agent's actors, the live ones after its registration are those it reported. -/
theorem register_live_resumed {k : ActorId} {a : ActorInfo}
    (h : (register cfg ops env st w r).actors.get k = some a) (hl : a.state.isDead = false)
    (hag : a.agent = r.agentId) : k ∈ r.resumed := by
  by_contra hk
  rw [register_eq, tryPlace_actors] at h
  obtain ⟨b, hb, hlb, hba⟩ := (drainHeld_ages env (repliedState cfg ops env st w r) w
    (fun _ _ _ => True) r.agentId).live h hl
  obtain ⟨c, hc, hlc, hcb⟩ := (buryAll_ages cfg ops env
    (adoptRefs env (adoptActors (insertAgent st w r) r) r)
    (missingActors env (adoptRefs env (adoptActors (insertAgent st w r) r) r) r)
    "agent reconnected without this actor").live hb hlb
  have hd := buryAll_dead cfg ops env _ (Env.mem_select.mpr ⟨c, hc, ?_⟩) hb
  · rw [hlb] at hd
    cases hd
  · simp [hlc, hk, ← hcb.agent, ← hba.agent, hag]

/-- A registration writes its reply, the kills and then held calls. -/
theorem register_wire : ∃ held, (∀ f ∈ held, ∃ id ref method payload,
      f = (w, ToAgent.actorDispatch id ref method payload)) ∧
    (register cfg ops env st w r).wire = st.wire ++ (resumeFrames st w r ++ held) := by
  rw [register_eq, tryPlace_wire, drainHeld, repliedState, resumeState_wire, List.append_assoc]
  refine ⟨_, fun f hf => ?_, rfl⟩
  obtain ⟨id, -, hf⟩ := List.mem_flatMap.mp hf
  split at hf
  · next a _ =>
    obtain ⟨⟨ref, method, payload⟩, -, rfl⟩ := List.mem_map.mp hf
    exact ⟨id, ref, method, payload, rfl⟩
  · cases hf

end Register

/-! ## Frames after the registration -/

inductive FromAgent where
  | spawnResult (actorId : ActorId) (ok : Bool) (error : String) (pid : Nat)
  | result (refId : RefId) (ok : Bool) (error : String) (payload : Payload)
  | exit (actorId : ActorId) (exitCode signal : Option Int)
  | serviceNote (service note : String)
deriving DecidableEq, Repr

/-- The pid goes in the row whatever the result. -/
def notePid (st : State) (actorId : ActorId) (pid : Nat) : State :=
  if pid = 0 then st
  else { st with actors := st.actors.modify actorId fun a => { a with pid := some pid } }

def spawnResult (cfg : Cfg) (ops : ClaimOps) (env : Env) (st : State) (actorId : ActorId)
    (ok : Bool) (error : String) (pid : Nat) : State :=
  let st := notePid st actorId pid
  if ok then
    let st := { st with actors := st.actors.modify actorId fun a =>
      if a.state = .spawning then { a with state := .running } else a }
    match actorPatch st actorId with
    | some p => st.emitPatch "actor_running" [p] ""
    | none => st
  else markActorDead cfg ops env st actorId ("spawn failed: " ++ error)

/-- First resolution wins. -/
def actorResult (st : State) (refId : RefId) (ok : Bool) (error : String) (payload : Payload) :
    State :=
  { st with refs := st.refs.modify refId fun r =>
      if r.state = .pending then
        { r with state :=
            if !ok && payload.isEmpty && error ≠ "" then .actorDied error else .ready ok payload }
      else r }

def exitReason (exitCode signal : Option Int) : String :=
  "actor process exited (exit_code=" ++ (exitCode.map toString).getD "none" ++
    " signal=" ++ (signal.map toString).getD "none" ++ ")"

def serviceNote (st : State) (agentId : AgentId) (service note : String) : State :=
  let known := (st.agents.get agentId).any fun a => a.services.has service
  let st := { st with agents := st.agents.modify agentId fun a =>
    { a with services := a.services.modify service fun s => { s with note } } }
  if known then st.emitPatch "service_note" (agentPatch st agentId).toList service else st

/-- One frame of a registered agent. -/
def agentFrame (cfg : Cfg) (ops : ClaimOps) (env : Env) (st : State) (agentId : AgentId) :
    FromAgent → State
  | .spawnResult id ok error pid => spawnResult cfg ops env st id ok error pid
  | .result ref ok error payload => actorResult st ref ok error payload
  | .exit id exitCode signal => markActorDead cfg ops env st id (exitReason exitCode signal)
  | .serviceNote service note => serviceNote st agentId service note

/-- The agent's row once its link is gone: the degrade window starts. -/
def AgentInfo.lose (now : Nat) (a : AgentInfo) : AgentInfo :=
  { a with alive := false, lostAtMs := some now, goneSinceMs := some now, degraded := false }

/-- The end of an agent's link. A re-registration may have replaced the row already. -/
def agentEof (cfg : Cfg) (env : Env) (st : State) (agentId : AgentId) (w : FrameWriter) : State :=
  if (st.agents.get agentId).any fun a => a.writer == w then
    let st := { st with agents := st.agents.modify agentId (·.lose env.now) }
    st.emitPatch "agent_lost" (agentPatch st agentId).toList
      ("degrade window " ++ toString cfg.agentDeadAfterMs ++ " ms")
  else st

/-! ## What a frame and the end of a link change -/

/-- A later version of an agent's row on the same link. A link that is up was up before. -/
structure AgentInfo.Later (a a' : AgentInfo) : Prop where
  group : a'.group = a.group
  machine : a'.machine = a.machine
  writer : a'.writer = a.writer
  alive : a'.alive = true → a.alive = true ∧ (a.lostAtMs = none → a'.lostAtMs = none)

namespace AgentInfo.Later

theorem refl (a : AgentInfo) : a.Later a := ⟨rfl, rfl, rfl, fun h => ⟨h, id⟩⟩

theorem trans {a b c : AgentInfo} (h : a.Later b) (h' : b.Later c) : a.Later c where
  group := h'.group.trans h.group
  machine := h'.machine.trans h.machine
  writer := h'.writer.trans h.writer
  alive hc := ⟨(h.alive (h'.alive hc).1).1, fun ha => (h'.alive hc).2 ((h.alive (h'.alive hc).1).2 ha)⟩

end AgentInfo.Later

/-- Every agent row of `t'` is a later version of the row `t` has. -/
def AgentsAge (t t' : Table AgentId AgentInfo) : Prop :=
  ∀ id a', t'.get id = some a' → ∃ a, t.get id = some a ∧ a.Later a'

namespace AgentsAge

variable {t t' t'' : Table AgentId AgentInfo}

theorem of_eq (h : t' = t) : AgentsAge t t' := fun _ a' ha => ⟨a', h ▸ ha, .refl a'⟩

theorem trans (h : AgentsAge t t') (h' : AgentsAge t' t'') : AgentsAge t t'' := by
  intro id c hc
  obtain ⟨b, hb, hbc⟩ := h' id c hc
  obtain ⟨a, ha, hab⟩ := h id b hb
  exact ⟨a, ha, hab.trans hbc⟩

theorem of_map {f : AgentId → AgentInfo → AgentInfo} (h : t' = t.map f)
    (hf : ∀ (id : AgentId) (a : AgentInfo), a.Later (f id a)) : AgentsAge t t' := by
  intro id a' ha
  rw [h, Table.get_map, Option.map_eq_some_iff] at ha
  obtain ⟨a, ha, rfl⟩ := ha
  exact ⟨a, ha, hf id a⟩

theorem of_modify {x : AgentId} {f : AgentInfo → AgentInfo} (h : t' = t.modify x f)
    (hf : ∀ a : AgentInfo, a.Later (f a)) : AgentsAge t t' := by
  refine of_map h fun id a => ?_
  split
  · exact hf a
  · exact .refl a

end AgentsAge

section Frames

variable (cfg : Cfg) (ops : ClaimOps) (env : Env) (st : State)

theorem notePid_frame (x : ActorId) (pid : Nat) :
    ∃ actors, notePid st x pid = { st with actors := actors } := by
  unfold notePid
  split <;> exact ⟨_, rfl⟩

theorem notePid_ages {why : ActorId → AgentId → String → Prop} (x : ActorId) (pid : Nat) :
    Ages why st.actors (notePid st x pid).actors := by
  unfold notePid
  split
  · exact .refl _
  · exact .of_modify rfl (fun _ => ⟨rfl, rfl, rfl, rfl, rfl, fun _ => rfl⟩) fun _ h => h

theorem spawnResult_quiet (x : ActorId) (ok : Bool) (error : String) (pid : Nat) :
    Quiet st (spawnResult cfg ops env st x ok error pid) := by
  unfold spawnResult
  obtain ⟨actors, h⟩ := notePid_frame st x pid
  simp only [h]
  split
  · split <;> exact Eq.refl st.registry
  · exact Quiet.trans (Eq.refl st.registry) (markActorDead_quiet _ _ _ _ _ _)

/-- Why a frame makes an actor's row dead. -/
def frameCause : FromAgent → ActorId → String → Prop
  | .spawnResult x ok error _, k, r => k = x ∧ ok = false ∧ r = "spawn failed: " ++ error
  | .exit x exitCode signal, k, r => k = x ∧ r = exitReason exitCode signal
  | _, _, _ => False

/-- A spawn's success leaves each actor live that was. -/
theorem start_ages {why : ActorId → AgentId → String → Prop} (x : ActorId) :
    Ages why st.actors (st.actors.modify x fun a =>
      if a.state = .spawning then { a with state := .running } else a) := by
  refine .of_modify rfl (fun a => ?_) fun a hl => ?_
  · split
    · next hs => exact ⟨rfl, rfl, rfl, rfl, rfl, fun hd => by simp [hs, ActorState.isDead] at hd⟩
    · exact .refl a
  · split
    · rfl
    · exact hl

theorem spawnResult_ages (x : ActorId) (ok : Bool) (error : String) (pid : Nat) :
    Ages (fun k _ r => k = x ∧ ok = false ∧ r = "spawn failed: " ++ error) st.actors
      (spawnResult cfg ops env st x ok error pid).actors := by
  unfold spawnResult
  simp only
  refine (notePid_ages st x pid).trans ?_
  generalize notePid st x pid = st
  cases ok with
  | true =>
    simp only [if_true]
    split
    · exact start_ages st x
    · exact start_ages st x
  | false =>
    refine (markActorDead_ages cfg ops env st x _).mono ?_
    rintro k _ r ⟨hk, hr⟩
    exact ⟨hk, rfl, hr⟩

theorem agentFrame_ages (id : AgentId) (msg : FromAgent) :
    Ages (fun k _ r => frameCause msg k r) st.actors
      (agentFrame cfg ops env st id msg).actors := by
  cases msg with
  | spawnResult x ok error pid => exact spawnResult_ages cfg ops env st x ok error pid
  | result ref ok error payload => exact .of_eq rfl
  | exit x exitCode signal => exact markActorDead_ages cfg ops env st x _
  | serviceNote service note =>
    unfold agentFrame serviceNote
    simp only
    split <;> exact .of_eq rfl

theorem agentFrame_agents (id : AgentId) (msg : FromAgent) :
    AgentsAge st.agents (agentFrame cfg ops env st id msg).agents := by
  cases msg with
  | spawnResult x ok error pid => exact .of_eq (spawnResult_quiet cfg ops env st x ok error pid).agents
  | result ref ok error payload => exact .of_eq rfl
  | exit x exitCode signal => exact .of_eq (markActorDead_quiet _ _ _ _ _ _).agents
  | serviceNote service note =>
    have h : AgentsAge st.agents (st.agents.modify id fun a =>
        { a with services := a.services.modify service fun s => { s with note } }) :=
      .of_modify rfl fun a => ⟨rfl, rfl, rfl, fun ha => ⟨ha, fun h => h⟩⟩
    unfold agentFrame serviceNote
    simp only
    split <;> exact h

/-- What neither a frame nor the end of a link touches. -/
def State.sansAgents (st : State) : State := { st.registry with agents := ∅ }

theorem agentFrame_sansAgents (id : AgentId) (msg : FromAgent) :
    (agentFrame cfg ops env st id msg).sansAgents = st.sansAgents := by
  cases msg with
  | spawnResult x ok error pid =>
    exact congrArg (fun s : State => { s with agents := ∅ })
      (spawnResult_quiet cfg ops env st x ok error pid)
  | result ref ok error payload => rfl
  | exit x exitCode signal =>
    exact congrArg (fun s : State => { s with agents := ∅ }) (markActorDead_quiet cfg ops env st x _)
  | serviceNote service note =>
    unfold agentFrame serviceNote
    simp only
    split <;> rfl

theorem agentEof_agents (id : AgentId) (w : FrameWriter) :
    AgentsAge st.agents (agentEof cfg env st id w).agents := by
  unfold agentEof
  split
  · exact .of_modify rfl fun a => ⟨rfl, rfl, rfl, fun h => by cases h⟩
  · exact .of_eq rfl

theorem agentEof_frame (id : AgentId) (w : FrameWriter) : ∃ agents events,
    agentEof cfg env st id w = { st with agents := agents, events := events } := by
  unfold agentEof
  split <;> exact ⟨_, _, rfl⟩

theorem agentFrame_wire (id : AgentId) (msg : FromAgent) :
    (agentFrame cfg ops env st id msg).wire = st.wire := by
  cases msg with
  | spawnResult x ok error pid =>
    obtain ⟨actors, h⟩ := notePid_frame st x pid
    simp only [agentFrame, spawnResult, h]
    split
    · split <;> rfl
    · rw [markActorDead_wire]
  | result ref ok error payload => rfl
  | exit x exitCode signal => exact markActorDead_wire _ _ _ _ _ _
  | serviceNote service note =>
    unfold agentFrame serviceNote
    simp only
    split <;> rfl

end Frames

end Mentat
