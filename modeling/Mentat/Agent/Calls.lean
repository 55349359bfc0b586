import Mentat.Daemon.Section

/-!
# Calls in order

A call waits in the daemon while its agent's link is down, travels to the agent as an `ActorDispatch`,
and waits there in the actor's entry until the actor's host has connected. `Courier` is the daemon with
all its sections, one agent, and one actor on that agent. Next to them stand the calls the daemon has
taken for the actor, and the calls the agent has written to the actor's host, both in order.

The agent serves one link at a time and reads it in order. What it has not read yet is gone when the link
is. A registration may also come over a link the agent has given up by then.

* `calls_in_order`: what the host receives is a subsequence of the calls the daemon took.
-/

namespace Mentat

/-! ## The agent's entry of an actor -/

namespace Courier

/-- What the agent's entry of an actor process holds of its calls. -/
structure HostActor where
  /-- The host has connected. -/
  host : Bool
  pendingRefs : Finset RefId
  queuedCalls : List QueuedCall

namespace HostActor

/-- The entry an `ActorSpawn` puts in, before the process is forked. -/
def spawned : HostActor := ⟨false, ∅, []⟩

/-- An `ActorDispatch`: the entry after it, and what is written to the host. `ok` is whether a write to
the host's socket succeeds. -/
def dispatch (a : HostActor) (call : QueuedCall) (ok : Bool) : HostActor × List QueuedCall :=
  let a := { a with pendingRefs := insert call.1 a.pendingRefs }
  if a.host then (a, if ok then [call] else [])
  -- Not connected yet: the call is drained in order at connect time.
  else ({ a with queuedCalls := a.queuedCalls ++ [call] }, [])

/-- Publish the host and drain the calls that arrived before it connected. -/
def publish (a : HostActor) (ok : QueuedCall → Bool) : HostActor × List QueuedCall :=
  ({ a with host := true, queuedCalls := [] }, a.queuedCalls.filter ok)

end HostActor

end Courier

/-! ## Calls on the daemon's side -/

/-- The call a frame hands over for the actor. -/
def ToAgent.callOf (x : ActorId) : ToAgent → Option QueuedCall
  | .actorDispatch y ref method payload => if y = x then some (ref, method, payload) else none
  | _ => none

def callsTo (x : ActorId) (l : List ToAgent) : List QueuedCall := l.filterMap (·.callOf x)

/-- The calls written to any agent for the actor. -/
def dispatched (x : ActorId) (st : State) : List QueuedCall := callsTo x (st.wire.map (·.2))

/-- The calls that wait for the actor's agent. A dead row's are never sent. -/
def heldCalls (x : ActorId) (st : State) : List QueuedCall :=
  match st.actors.get x with
  | some a => if a.state.isDead then [] else a.queuedCalls
  | none => []

/-- The socket a call on the actor is written to. -/
def callLink (x : ActorId) (st : State) : Option FrameWriter :=
  match st.actors.get x with
  | some a => if a.state.isDead then none else (liveAgent st a.agent).map (·.writer)
  | none => none

/-- The call on the actor that a section takes. One that finds no row is answered with an error. -/
def Section.taken (x : ActorId) (st : State) : Section → List QueuedCall
  | .actorCall r =>
    if r.actorId = x ∧ st.actors.has x then [((st.newRefId x).1, r.method, r.payload)] else []
  | _ => []

/-- A send fails on a link that is broken already. -/
def Section.sendable (st : State) (broken : Finset FrameWriter) : Section → Bool
  | .actorCall r => !r.sent || (callLink r.actorId st).all (· ∉ broken)
  | _ => true

/-- The links a call could not be written to. -/
def Section.breaks (st : State) (broken : Finset FrameWriter) : Section → Finset FrameWriter
  | .actorCall r => if r.sent then broken else (callLink r.actorId st).toFinset ∪ broken
  | _ => broken

/-! ## The system -/

structure Courier where
  st : State
  /-- The calls taken for the actor so far. -/
  calls : List QueuedCall
  broken : Finset FrameWriter
  /-- The link the agent reads. -/
  link : Option FrameWriter
  /-- What was written to that link and not read yet. -/
  unread : List ToAgent
  entry : Option Courier.HostActor
  /-- The calls written to the actor's host so far. -/
  hostCalls : List QueuedCall

namespace Courier

inductive Act where
  /-- A section of the daemon. -/
  | head (env : Env) (sec : Section)
  /-- The registration the agent waits for, on the link it reads from then on. -/
  | attach (env : Env) (w : FrameWriter) (r : AgentRegister)
  | lose
  | read (ok : Bool)
  | publish (ok : QueuedCall → Bool)
  | result (ref : RefId)
  | exit

section Steps

variable (cfg : Cfg) (ops : ClaimOps) (g : AgentId) (x : ActorId)

/-- The frames of the link, in order. -/
def arriving (link : Option FrameWriter) (l : List (FrameWriter × ToAgent)) : List ToAgent :=
  (l.filter fun f => link = some f.1).map (·.2)

/-- The section is run. The agent reads `link`, with `unread` left from before. -/
def run (c : Courier) (env : Env) (sec : Section) (link : Option FrameWriter) (unread : List ToAgent) :
    Courier :=
  let st := exec cfg ops env c.st sec
  { c with
    st := st
    calls := c.calls ++ sec.taken x c.st
    broken := sec.breaks c.st c.broken
    link := link
    unread := unread ++ arriving link (st.wire.drop c.st.wire.length) }

/-- One frame the agent reads. A call for an actor with no entry is answered with an error result. -/
def readFrame (c : Courier) (ok : Bool) : ToAgent → Courier
  | .actorSpawn y _ _ _ _ _ => if y = x then { c with entry := some .spawned } else c
  | m =>
    match m.callOf x, c.entry with
    | some call, some a =>
      { c with entry := some (a.dispatch call ok).1, hostCalls := c.hostCalls ++ (a.dispatch call ok).2 }
    | _, _ => c

def step (c : Courier) : Act → Option Courier
  | .head env sec =>
    if sec.fresh c.st && sec.sendable c.st c.broken then some (c.run cfg ops x env sec c.link c.unread)
    else none
  | .attach env w r =>
    if r.agentId = g ∧ (Section.register w r).fresh c.st then
      some (c.run cfg ops x env (.register w r) (some w) [])
    else none
  | .lose => some { c with link := none, unread := [] }
  | .read ok =>
    match c.unread with
    | [] => none
    | m :: rest => some ({ c with unread := rest }.readFrame x ok m)
  | .publish ok => c.entry.map fun a =>
    { c with entry := some (a.publish ok).1, hostCalls := c.hostCalls ++ (a.publish ok).2 }
  | .result ref => c.entry.map fun a =>
    { c with entry := some { a with pendingRefs := a.pendingRefs.erase ref } }
  | .exit => some { c with entry := none }

end Steps

end Courier

/-- The daemon and the agent `g` with the actor `x`, from the daemon's boot. -/
def courier (cfg : Cfg) (ops : ClaimOps) (g : AgentId) (x : ActorId) : System Courier Courier.Act where
  init c := ∃ nodeId nodeIp controlAddr,
    c = ⟨State.new nodeId nodeIp controlAddr, [], ∅, none, [], none, []⟩
  next c a := c.step cfg ops g x a

/-! ## The held calls over a section -/

/-- A live row of `t'` holds no calls, or those its live row in `t` held. -/
def Carries (t t' : Table ActorId ActorInfo) : Prop :=
  ∀ k a', t'.get k = some a' → a'.state.isDead = false → a'.queuedCalls = [] ∨
    ∃ a, t.get k = some a ∧ a.state.isDead = false ∧ a.agent = a'.agent ∧ a.queuedCalls = a'.queuedCalls

namespace Carries

variable {t t' t'' : Table ActorId ActorInfo}

theorem refl (t : Table ActorId ActorInfo) : Carries t t := fun _ a h hl => .inr ⟨a, h, hl, rfl, rfl⟩

theorem of_eq (h : t' = t) : Carries t t' := by
  rw [h]
  exact refl t

theorem trans (h : Carries t t') (h' : Carries t' t'') : Carries t t'' := by
  intro k c hc hl
  rcases h' k c hc hl with he | ⟨b, hb, hbl, hba, hbq⟩
  · exact .inl he
  · rcases h k b hb hbl with he | ⟨a, ha, hal, haa, haq⟩
    · exact .inl (hbq ▸ he)
    · exact .inr ⟨a, ha, hal, haa.trans hba, haq.trans hbq⟩

theorem of_map {f : ActorId → ActorInfo → ActorInfo} (h : t' = t.map f)
    (hf : ∀ (k : ActorId) (a : ActorInfo), (f k a).state.isDead = false → (f k a).queuedCalls = [] ∨
      a.state.isDead = false ∧ a.agent = (f k a).agent ∧ a.queuedCalls = (f k a).queuedCalls) :
    Carries t t' := by
  intro k a' ha hl
  rw [h, Table.get_map, Option.map_eq_some_iff] at ha
  obtain ⟨a, ha, rfl⟩ := ha
  exact (hf k a hl).imp_right fun hk => ⟨a, ha, hk⟩

/-- One row changed in place, and neither its agent nor its calls. -/
theorem of_modify {y : ActorId} {f : ActorInfo → ActorInfo} (h : t' = t.modify y f)
    (hf : ∀ a : ActorInfo, (f a).state.isDead = false →
      a.state.isDead = false ∧ a.agent = (f a).agent ∧ a.queuedCalls = (f a).queuedCalls) :
    Carries t t' := by
  refine of_map h fun k a hl => .inr ?_
  split at hl
  · next hk =>
    rw [if_pos hk]
    exact hf a hl
  · next hk =>
    rw [if_neg hk]
    exact ⟨hl, rfl, rfl⟩

theorem set {y : ActorId} {a : ActorInfo} (h : a.queuedCalls = []) : Carries t (t.set y a) := by
  intro k a' ha hl
  rcases Table.get_set_some ha with ⟨-, rfl⟩ | ⟨-, ha⟩
  · exact .inl h
  · exact .inr ⟨a', ha, hl, rfl, rfl⟩

theorem filter (p : ActorId → ActorInfo → Bool) : Carries t (t.filter p) := by
  intro k a ha hl
  rw [Table.get_filter, Option.filter_eq_some_iff] at ha
  exact .inr ⟨a, ha.1, hl, rfl, rfl⟩

end Carries

section Sections

variable (cfg : Cfg) (ops : ClaimOps) (env : Env) (st : State)

theorem markActorDead_carries (y : ActorId) (reason : String) :
    Carries st.actors (markActorDead cfg ops env st y reason).actors := by
  intro k a' ha hl
  rw [markActorDead_get] at ha
  split at ha
  · rw [Option.map_eq_some_iff] at ha
    obtain ⟨a, ha, rfl⟩ := ha
    unfold ActorInfo.die at hl ⊢
    split at hl
    · next hd => exact absurd hl (by rw [hd]; decide)
    · cases hl
  · exact .inr ⟨a', ha, hl, rfl, rfl⟩

theorem buryAll_carries (ids : List ActorId) (reason : String) :
    Carries st.actors (buryAll cfg ops env st ids reason).actors :=
  buryAll_keeps cfg ops env st (I := fun s => Carries st.actors s.actors)
    (fun s y reason hs => hs.trans (markActorDead_carries cfg ops env s y reason)) (.refl _) ids reason

theorem createActor_carries (r : ActorCreate) :
    Carries st.actors (createActor cfg ops env st r).1.actors := by
  unfold createActor
  split
  · exact .refl _
  · next bundle agent ip hc =>
    have hput : Carries st.actors (putSpawning st r bundle).actors := .set rfl
    simp only
    split
    · exact hput
    · exact hput.trans (markActorDead_carries _ _ _ _ _ _)

theorem killActor_carries (y : ActorId) : Carries st.actors (killActor cfg ops env st y).actors := by
  rcases killActor_cases cfg ops env st y with h | ⟨_, _, _, _, _, h⟩ | ⟨_, _, _, _, h⟩
  · exact .of_eq (by rw [h])
  · exact .of_eq (by rw [h]; rfl)
  · rw [h]
    exact markActorDead_carries _ _ _ _ _ _

theorem agentFrame_carries (id : AgentId) (msg : FromAgent) :
    Carries st.actors (agentFrame cfg ops env st id msg).actors := by
  cases msg with
  | spawnResult y ok error pid =>
    have hpid : Carries st.actors (notePid st y pid).actors := by
      unfold notePid
      split
      · exact .refl _
      · exact .of_modify rfl fun a hl => ⟨hl, rfl, rfl⟩
    refine hpid.trans ?_
    simp only [agentFrame, spawnResult]
    generalize notePid st y pid = st
    have hstart : Carries st.actors (st.actors.modify y fun a =>
        if a.state = .spawning then { a with state := .running } else a) := by
      refine .of_modify rfl fun a hl => ?_
      split at hl
      · next hs => simp [hs, ActorState.isDead]
      · next hs =>
        rw [if_neg hs]
        exact ⟨hl, rfl, rfl⟩
    split
    · split
      · exact hstart
      · exact hstart
    · exact markActorDead_carries _ _ _ _ _ _
  | result ref ok error payload => exact .refl _
  | exit y exitCode signal => exact markActorDead_carries _ _ _ _ _ _
  | serviceNote service note =>
    unfold agentFrame serviceNote
    simp only
    split <;> exact .refl _

theorem sweepLifecycle_carries : Carries st.actors (sweepLifecycle cfg ops env st).actors := by
  obtain ⟨p, e, h⟩ := timeOutPgs_frame cfg env st
  obtain ⟨e', hd⟩ := degradeLate_frame cfg env (timeOutPgs cfg env st)
  have hagents : Carries st.actors (sweepAgents cfg ops env (timeOutPgs cfg env st)).actors := by
    refine sweepAgents_keeps cfg ops env _ (I := fun s => Carries st.actors s.actors) (fun s e hs => hs)
      (fun s y why hs => hs.trans (markActorDead_carries cfg ops env s y why)) ?_
    rw [hd, h]
    exact .refl _
  refine hagents.trans ?_
  unfold sweepLifecycle
  rcases sweepHistory_frame cfg env (sweepAgents cfg ops env (timeOutPgs cfg env st)) with
    hs | ⟨e'', hs⟩
  · exact .of_eq (by rw [hs])
  · rw [hs]
    exact .filter _

theorem elect_carries (candidate : NodeId) : Carries st.actors (elect env st candidate).actors := by
  rcases elect_frame env st candidate with ⟨_, _, _, _, h⟩ | ⟨_, _, _, _, h⟩
  · exact .of_eq (by rw [h])
  · refine .of_map (by rw [h]) fun k a hl => .inr ?_
    unfold ActorInfo.move at hl ⊢
    split at hl
    · next hd => exact absurd hl (by rw [hd]; decide)
    · cases hl

theorem resumeState_carries (w : FrameWriter) (r : AgentRegister) :
    Carries st.actors (resumeState cfg ops env st w r).actors := by
  have hadopt : Carries st.actors (adoptTable st r) := by
    intro k a ha hl
    rcases adoptTable_get st r ha with ha | ⟨-, y, -, -, rfl⟩
    · exact .inr ⟨a, ha, hl, rfl, rfl⟩
    · exact .inl rfl
  have hbury := buryAll_carries cfg ops env (adoptRefs env (adoptActors (insertAgent st w r) r) r)
    (missingActors env (adoptRefs env (adoptActors (insertAgent st w r) r) r) r)
    "agent reconnected without this actor"
  rw [adoptRefs_actors, adoptActors_actors] at hbury
  exact hadopt.trans hbury

end Sections

/-! ## What a section makes of the actor's calls -/

theorem callsTo_append (x : ActorId) (l l' : List ToAgent) :
    callsTo x (l ++ l') = callsTo x l ++ callsTo x l' :=
  List.filterMap_append

theorem callsTo_eq_nil {x : ActorId} {l : List (FrameWriter × ToAgent)}
    (h : ∀ f ∈ l, f.2.callOf x = none) : callsTo x (l.map (·.2)) = [] := by
  refine List.filterMap_eq_nil_iff.mpr fun m hm => ?_
  obtain ⟨f, hf, rfl⟩ := List.mem_map.mp hm
  exact h f hf

theorem dispatched_append {x : ActorId} {st st' : State} {l : List (FrameWriter × ToAgent)}
    (h : st'.wire = st.wire ++ l) : dispatched x st' = dispatched x st ++ callsTo x (l.map (·.2)) := by
  rw [dispatched, h, List.map_append, callsTo_append]
  rfl

theorem heldCalls_of_live {x : ActorId} {st : State} {a : ActorInfo} (h : st.actors.get x = some a)
    (hl : a.state.isDead = false) : heldCalls x st = a.queuedCalls := by
  simp [heldCalls, h, hl]

theorem heldCalls_ne_nil {x : ActorId} {st : State} (h : heldCalls x st ≠ []) :
    ∃ a, st.actors.get x = some a ∧ a.state.isDead = false ∧ heldCalls x st = a.queuedCalls := by
  unfold heldCalls at h ⊢
  split at h
  · next a ha =>
    split at h
    · exact absurd rfl h
    · next hd =>
      simp only [Bool.not_eq_true] at hd
      exact ⟨a, ha, hd, by simp [hd]⟩
  · exact absurd rfl h

theorem callLink_iff {x : ActorId} {st : State} {w : FrameWriter} : callLink x st = some w ↔
    ∃ a row, st.actors.get x = some a ∧ a.state.isDead = false ∧ liveAgent st a.agent = some row ∧
      row.writer = w := by
  unfold callLink
  constructor
  · intro h
    split at h
    · next a ha =>
      split at h
      · cases h
      · next hd =>
        obtain ⟨row, hrow, hw⟩ := Option.map_eq_some_iff.mp h
        exact ⟨a, row, ha, by simpa using hd, hrow, hw⟩
    · cases h
  · rintro ⟨a, row, ha, hl, hrow, rfl⟩
    simp [ha, hl, hrow]

/-- No call of the actor is added, and those that still wait do so for the link they waited for. -/
structure Carried (x : ActorId) (st st' : State) : Prop where
  calls : (dispatched x st' ++ heldCalls x st').Sublist (dispatched x st ++ heldCalls x st)
  held : heldCalls x st' ≠ [] → heldCalls x st ≠ [] ∧
    ∀ w, callLink x st' = some w → callLink x st = some w

/-- The row of the actor keeps its calls or loses them, and nothing is sent. -/
theorem Carried.of_row {x : ActorId} {st st' : State}
    (hrow : ∀ a', st'.actors.get x = some a' → a'.state.isDead = false → a'.queuedCalls = [] ∨
      ∃ a, st.actors.get x = some a ∧ a.state.isDead = false ∧ a.agent = a'.agent ∧
        a.queuedCalls = a'.queuedCalls)
    (hsent : dispatched x st' = dispatched x st)
    (hlink : ∀ a', st'.actors.get x = some a' → a'.state.isDead = false → a'.queuedCalls ≠ [] →
      ∀ row', st'.agents.get a'.agent = some row' →
        ∃ row, st.agents.get a'.agent = some row ∧ row.Later row') :
    Carried x st st' := by
  by_cases hne : heldCalls x st' = []
  · refine ⟨?_, fun h => absurd hne h⟩
    rw [hsent, hne, List.append_nil]
    exact List.sublist_append_left _ _
  obtain ⟨a', ha', hl', hq'⟩ := heldCalls_ne_nil hne
  rcases hrow a' ha' hl' with he | ⟨a, ha, hl, hag, hq⟩
  · exact absurd (hq'.trans he) hne
  have hheld : heldCalls x st' = heldCalls x st := by rw [hq', heldCalls_of_live ha hl, hq]
  refine ⟨?_, fun _ => ⟨hheld ▸ hne, fun w hw => ?_⟩⟩
  · rw [hsent, hheld]
  obtain ⟨b, row', hb, -, hrow', rfl⟩ := callLink_iff.mp hw
  cases ha'.symm.trans hb
  obtain ⟨hget, halive⟩ := liveAgent_eq_some.mp hrow'
  obtain ⟨row, hold, hlater⟩ := hlink a' ha' hl' (hq' ▸ hne) row' hget
  refine callLink_iff.mpr ⟨a, row, ha, hl, ?_, hlater.writer.symm⟩
  rw [hag]
  exact liveAgent_eq_some.mpr ⟨hold, (hlater.alive halive).1⟩

section Drain

variable {x : ActorId} (env : Env) (st : State) (w : FrameWriter) (id : AgentId)

theorem heldFrames_calls (y : ActorId) (a : ActorInfo) :
    callsTo x ((heldFrames w y a).map (·.2)) = if y = x then a.queuedCalls else [] := by
  simp only [callsTo, heldFrames, List.map_map, List.filterMap_map]
  split
  · next h =>
    simp only [Function.comp_def, ToAgent.callOf, h, if_true]
    exact List.filterMap_some
  · next h => simp [Function.comp_def, ToAgent.callOf, h]

/-- A drain sends an actor's held calls once. -/
theorem drain_calls {ids : List ActorId} (hn : ids.Nodup) :
    callsTo x ((ids.flatMap fun id =>
        match st.actors.get id with
        | some a => heldFrames w id a
        | none => []).map (·.2)) =
      if x ∈ ids then ((st.actors.get x).map (·.queuedCalls)).getD [] else [] := by
  induction ids with
  | nil => rfl
  | cons y ids ih =>
    obtain ⟨hy, hn⟩ := List.nodup_cons.mp hn
    rw [List.flatMap_cons, List.map_append, callsTo_append, ih hn]
    by_cases hyx : y = x
    · subst hyx
      rw [if_neg hy, if_pos List.mem_cons_self, List.append_nil]
      cases st.actors.get y with
      | none => rfl
      | some a => simpa using heldFrames_calls (x := y) w y a
    · have hhead : callsTo x ((match st.actors.get y with
          | some a => heldFrames w y a
          | none => []).map fun f : FrameWriter × ToAgent => f.2) = [] := by
        cases st.actors.get y with
        | none => rfl
        | some a => simpa [hyx] using heldFrames_calls (x := x) w y a
      rw [hhead, List.nil_append]
      simp [Ne.symm hyx]

end Drain

section Exec

variable {x : ActorId} (cfg : Cfg) (ops : ClaimOps) (env : Env) (st : State)

/-- A registration sends the held calls of its agent's actors, and leaves none of them held. -/
theorem register_carried (w : FrameWriter) (r : AgentRegister) :
    Carried x st (register cfg ops env st w r) := by
  let s := repliedState cfg ops env st w r
  have hcarries : Carries st.actors s.actors := resumeState_carries cfg ops env st w r
  have hwire : s.wire = st.wire ++ resumeFrames st w r := by
    simp only [s, repliedState, resumeState_wire]
  have hsent : dispatched x s = dispatched x st := by
    rw [dispatched_append hwire, callsTo_eq_nil, List.append_nil]
    intro f hf
    rcases List.mem_cons.mp hf with rfl | hf
    · rfl
    · obtain ⟨y, -, rfl⟩ := List.mem_map.mp hf
      rfl
  let ids := env.select s.actors fun _ a => a.agent == r.agentId && !a.state.isDead && !a.queuedCalls.isEmpty
  have hget : (register cfg ops env st w r).actors.get x = (s.actors.get x).map fun a =>
      if a.agent = r.agentId ∧ a.state.isDead = false then { a with queuedCalls := [] } else a := by
    rw [register_eq, tryPlace_actors]
    exact Table.get_map _ _ _
  have hdrain : dispatched x (register cfg ops env st w r) = dispatched x st ++
      if x ∈ ids then ((s.actors.get x).map (·.queuedCalls)).getD [] else [] := by
    rw [← hsent, ← drain_calls s w (env.select_nodup _ _)]
    refine dispatched_append ?_
    rw [register_eq, tryPlace_wire]
    rfl
  have hids : ∀ a, s.actors.get x = some a → x ∈ ids → a.agent = r.agentId ∧ a.state.isDead = false := by
    intro a ha hx
    obtain ⟨b, hb, hp⟩ := Env.mem_select.mp hx
    cases ha.symm.trans hb
    simp only [Bool.and_eq_true, beq_iff_eq, Bool.not_eq_true'] at hp
    exact hp.1
  by_cases hmine : ∃ a, s.actors.get x = some a ∧ a.agent = r.agentId ∧ a.state.isDead = false
  · obtain ⟨a, ha, hag, hl⟩ := hmine
    have hheld : heldCalls x (register cfg ops env st w r) = [] := by
      exact heldCalls_of_live (a := { a with queuedCalls := [] })
        (by rw [hget, ha, Option.map_some, if_pos ⟨hag, hl⟩]) hl
    refine ⟨?_, fun h => absurd hheld h⟩
    rw [hdrain, hheld, List.append_nil]
    refine List.Sublist.append (.refl _) ?_
    split
    · rw [ha, Option.map_some, Option.getD_some]
      rcases hcarries x a ha hl with he | ⟨b, hb, hbl, -, hbq⟩
      · rw [he]
        exact List.nil_sublist _
      · rw [heldCalls_of_live hb hbl, hbq]
    · exact List.nil_sublist _
  · have hrow : (register cfg ops env st w r).actors.get x = s.actors.get x := by
      rw [hget]
      cases ha : s.actors.get x with
      | none => rfl
      | some a => rw [Option.map_some, if_neg fun h => hmine ⟨a, ha, h⟩]
    refine .of_row (fun a' ha' hl' => hcarries x a' (hrow ▸ ha') hl') ?_ fun a' ha' hl' _ row' hrow' => ?_
    · rw [hdrain, if_neg, List.append_nil]
      intro hx
      obtain ⟨a, ha, -⟩ := Env.mem_select.mp hx
      exact hmine ⟨a, ha, hids a ha hx⟩
    · have hne : a'.agent ≠ r.agentId := fun he => hmine ⟨a', hrow ▸ ha', he, hl'⟩
      rw [(register_quiet cfg ops env st w r).agents] at hrow'
      exact ⟨row', (Table.get_set_of_ne hne).symm.trans hrow', .refl row'⟩

/-- Only calls and registrations add to a row's calls or send them. -/
theorem exec_carries {sec : Section} (hreg : ∀ w r, sec ≠ .register w r)
    (hcall : ∀ r, sec ≠ .actorCall r) : Carries st.actors (exec cfg ops env st sec).actors := by
  cases sec with
  | hello w h =>
    cases hh : hello env st w h with
    | none => exact .of_eq (by rw [exec_hello_none _ _ _ hh])
    | some p =>
      obtain ⟨st', orphans⟩ := p
      rw [exec_hello_some _ _ _ hh]
      obtain ⟨-, -, e, rfl⟩ := hello_eq_some hh
      exact .refl _
  | claim client name shape =>
    obtain ⟨c, g, e, hc⟩ := claim_frame ops st client name shape
    exact .of_eq (by simp only [exec, hc])
  | pgCreate r => exact .of_eq (tryPlace_actors _ _ _ _)
  | pgRemove id =>
    refine .of_eq ?_
    simp only [exec, pgRemove, tryPlace_actors]
    split <;> rfl
  | actorCreate r => exact createActor_carries cfg ops env st r
  | actorCall r => exact absurd rfl (hcall r)
  | killActor y => exact killActor_carries cfg ops env st y
  | closeLink w => exact .refl _
  | dropRow client moved =>
    refine .of_eq ?_
    simp only [exec, dropRow]
    split <;> rfl
  | reapRow client => exact .refl _
  | reapArm client => exact .refl _
  | reapCheck client group token =>
    rcases reapCheck_cases env st client group token with ⟨-, hc⟩ | ⟨-, -, hc⟩ | ⟨-, -, hc⟩
    · exact .of_eq (by simp only [exec, hc])
    · exact .of_eq (by simp only [exec, hc])
    · obtain ⟨-, e, ht⟩ := reapTake_spec env st client group
      exact .of_eq (by simp only [exec, hc, ht])
  | reapFinish client => exact .of_eq (tryPlace_actors _ _ _ _)
  | register w r => exact absurd rfl (hreg w r)
  | agentFrame id msg => exact agentFrame_carries cfg ops env st id msg
  | agentEof id w =>
    obtain ⟨a, e, hc⟩ := agentEof_frame cfg env st id w
    exact .of_eq (by simp only [exec, hc])
  | sweepLifecycle => exact sweepLifecycle_carries cfg ops env st
  | elect candidate => exact elect_carries env st candidate
  | commitIslands fresh => exact .of_eq (tryPlace_actors _ _ _ _)
  | peers t => exact .refl _

/-- What a call leads to: nothing, a dispatch on its agent's link, or a held call. -/
theorem actorCall_cases (r : ActorCall) :
    ((actorCall env st r).1.wire = st.wire ∧ (actorCall env st r).1.actors = st.actors) ∨
    (∃ a w, st.actors.get r.actorId = some a ∧ callLink r.actorId st = some w ∧ r.sent = true ∧
      (actorCall env st r).1.wire =
        st.wire ++ [(w, .actorDispatch r.actorId (st.newRefId r.actorId).1 r.method r.payload)] ∧
      (actorCall env st r).1.actors = st.actors) ∨
    (∃ a, st.actors.get r.actorId = some a ∧ a.state.isDead = false ∧
      (∀ w, callLink r.actorId st = some w → r.sent = false) ∧
      (actorCall env st r).1.wire = st.wire ∧
      (actorCall env st r).1.actors = st.actors.modify r.actorId fun a =>
        { a with queuedCalls := a.queuedCalls ++ [((st.newRefId r.actorId).1, r.method, r.payload)] }) := by
  unfold actorCall
  simp only
  split
  · exact .inl ⟨rfl, rfl⟩
  · next a ha =>
    have ha : st.actors.get r.actorId = some a := ha
    simp only
    split
    · exact .inl ⟨rfl, rfl⟩
    · next hd =>
      have hl : a.state.isDead = false := by
        cases hs : a.state with
        | dead r t => exact absurd hs (hd r t)
        | _ => rfl
      split
      · next agent hag =>
        have hag : liveAgent st a.agent = some agent := hag
        split
        · next hsent =>
          refine .inr (.inl ⟨a, agent.writer, ha, callLink_iff.mpr ⟨a, agent, ha, hl, hag, rfl⟩, hsent, ?_⟩)
          exact ⟨rfl, rfl⟩
        · next hsent =>
          simp only [Bool.not_eq_true] at hsent
          exact .inr (.inr ⟨a, ha, hl, fun _ _ => hsent, rfl, rfl⟩)
      · next hag =>
        have hag : liveAgent st a.agent = none := hag
        split
        · refine .inr (.inr ⟨a, ha, hl, fun w hw => ?_, rfl, rfl⟩)
          obtain ⟨b, row, hb, -, hrow, -⟩ := callLink_iff.mp hw
          cases ha.symm.trans hb
          rw [hag] at hrow
          cases hrow
        · exact .inl ⟨rfl, rfl⟩

/-- A section that takes no call of the actor. -/
theorem exec_carried {sec : Section} (hcall : ∀ r, sec = .actorCall r → r.actorId ≠ x) :
    Carried x st (exec cfg ops env st sec) := by
  by_cases hreg : ∃ w r, sec = .register w r
  · obtain ⟨w, r, rfl⟩ := hreg
    exact register_carried cfg ops env st w r
  have hnoreg : ∀ w r, sec ≠ .register w r := fun w r he => hreg ⟨w, r, he⟩
  refine .of_row (fun a' ha' hl' => ?_) ?_ fun a' ha' hl' _ row' hrow' => ?_
  · by_cases hsec : ∃ r, sec = .actorCall r
    · obtain ⟨r, rfl⟩ := hsec
      have hget : (actorCall env st r).1.actors.get x = st.actors.get x := by
        rcases actorCall_cases env st r with ⟨-, h⟩ | ⟨_, _, -, -, -, -, h⟩ | ⟨_, -, -, -, -, h⟩
        · rw [h]
        · rw [h]
        · rw [h, Table.get_modify_of_ne (hcall r rfl).symm]
      exact .inr ⟨a', hget ▸ ha', hl', rfl, rfl⟩
    · exact exec_carries cfg ops env st hnoreg (fun r he => hsec ⟨r, he⟩) x a' ha' hl'
  · obtain ⟨l, hl, hw⟩ := exec_wire cfg ops env st sec
    rw [dispatched_append hl, callsTo_eq_nil, List.append_nil]
    intro f hf
    have hwrites := hw f hf
    cases sec with
    | killActor y =>
      obtain ⟨_, _, -, -, -, -, hm⟩ := hwrites
      rw [hm]
      rfl
    | actorCreate r =>
      obtain ⟨_, _, _, -, -, -, hm⟩ := hwrites
      rw [hm]
      rfl
    | actorCall r =>
      obtain ⟨_, _, -, -, -, -, -, hm⟩ := hwrites
      rw [hm]
      exact if_neg (hcall r rfl)
    | register w r => exact absurd rfl (hnoreg w r)
    | _ => exact hwrites.elim
  · rcases exec_agents cfg ops env st sec with ⟨w, r, he, -⟩ | hages
    · exact absurd he (hnoreg w r)
    · exact hages _ _ hrow'

end Exec

/-! ## The invariant -/

namespace Courier

/-- The calls that wait in the agent's entry. -/
def waiting (c : Courier) : List QueuedCall := (c.entry.map (·.queuedCalls)).getD []

/-- Each place a call passes through holds calls in the order they were taken, after those that have
passed it. -/
structure InOrder (x : ActorId) (c : Courier) : Prop where
  taken : (dispatched x c.st ++ heldCalls x c.st).Sublist c.calls
  /-- While a call is held, no later one can be sent. -/
  broken : heldCalls x c.st ≠ [] → ∀ w, callLink x c.st = some w → w ∈ c.broken
  received : (c.hostCalls ++ c.waiting ++ callsTo x c.unread).Sublist (dispatched x c.st)
  drained : ∀ a, c.entry = some a → a.host = true → a.queuedCalls = []

section Invariant

variable {x : ActorId} {cfg : Cfg} {ops : ClaimOps} {c : Courier} {env : Env}

theorem callsTo_arriving (x : ActorId) (link : Option FrameWriter) (l : List (FrameWriter × ToAgent)) :
    (callsTo x (arriving link l)).Sublist (callsTo x (l.map (·.2))) :=
  (List.filter_sublist.map _).filterMap _

theorem taken_of_ne {sec : Section} {st : State}
    (h : ∀ r, sec = .actorCall r → r.actorId ≠ x) : sec.taken x st = [] := by
  cases sec with
  | actorCall r => exact if_neg fun hr => h r rfl hr.1
  | _ => rfl

theorem taken_call {r : ActorCall} {st : State} {a : ActorInfo} (h : st.actors.get r.actorId = some a) :
    (Section.actorCall r).taken r.actorId st = [((st.newRefId r.actorId).1, r.method, r.payload)] :=
  if_pos ⟨rfl, Table.has_iff.mpr ⟨a, h⟩⟩

/-- The daemon's two places over a call of the actor. -/
theorem InOrder.call (h : InOrder x c) {r : ActorCall} (hx : r.actorId = x)
    (hs : (Section.actorCall r).sendable c.st c.broken = true) :
    (dispatched x (actorCall env c.st r).1 ++ heldCalls x (actorCall env c.st r).1).Sublist
      (c.calls ++ (Section.actorCall r).taken x c.st) ∧
    (heldCalls x (actorCall env c.st r).1 ≠ [] → ∀ w, callLink x (actorCall env c.st r).1 = some w →
      w ∈ (Section.actorCall r).breaks c.st c.broken) := by
  subst hx
  have hagents : (actorCall env c.st r).1.agents = c.st.agents := (actorCall_quiet env c.st r).agents
  have hlink : (actorCall env c.st r).1.actors = c.st.actors →
      callLink r.actorId (actorCall env c.st r).1 = callLink r.actorId c.st := by
    intro ha
    simp only [callLink, liveAgent, ha, hagents]
  rcases actorCall_cases env c.st r with ⟨hw, ha⟩ | ⟨a, w, hrow, hl, hsent, hw, ha⟩ |
    ⟨a, hrow, hlive, hfails, hw, ha⟩
  · have hheld : heldCalls r.actorId (actorCall env c.st r).1 = heldCalls r.actorId c.st := by
      simp only [heldCalls, ha]
    have hdisp : dispatched r.actorId (actorCall env c.st r).1 = dispatched r.actorId c.st := by
      simp only [dispatched, hw]
    rw [hheld, hdisp, hlink ha]
    refine ⟨h.taken.trans (List.sublist_append_left _ _), fun hne w hw => ?_⟩
    simp only [Section.breaks]
    split
    · exact h.broken hne w hw
    · exact Finset.mem_union_right _ (h.broken hne w hw)
  · have hnil : heldCalls r.actorId c.st = [] := by
      by_contra hne
      have hin := h.broken hne w hl
      simp only [Section.sendable, hsent, hl, Option.all_some, Bool.not_true, Bool.false_or,
        decide_eq_true_eq] at hs
      exact hs hin
    have hheld : heldCalls r.actorId (actorCall env c.st r).1 = [] := by
      rw [← hnil]
      simp only [heldCalls, ha]
    refine ⟨?_, fun hne => absurd hheld hne⟩
    have htaken := h.taken
    rw [hnil, List.append_nil] at htaken
    have hframe : callsTo r.actorId ([(w, ToAgent.actorDispatch r.actorId
        (c.st.newRefId r.actorId).1 r.method r.payload)].map (·.2)) =
        [((c.st.newRefId r.actorId).1, r.method, r.payload)] := by
      simp [callsTo, ToAgent.callOf]
    rw [hheld, List.append_nil, dispatched_append hw, hframe, taken_call hrow]
    exact htaken.append (.refl _)
  · have hheld : heldCalls r.actorId (actorCall env c.st r).1 = heldCalls r.actorId c.st ++
        [((c.st.newRefId r.actorId).1, r.method, r.payload)] := by
      have hrow' := Table.get_modify_self c.st.actors r.actorId fun a : ActorInfo =>
        { a with queuedCalls := a.queuedCalls ++ [((c.st.newRefId r.actorId).1, r.method, r.payload)] }
      rw [← ha, hrow, Option.map_some] at hrow'
      rw [heldCalls_of_live hrow' hlive, heldCalls_of_live hrow hlive]
    have hdisp : dispatched r.actorId (actorCall env c.st r).1 = dispatched r.actorId c.st := by
      simp only [dispatched, hw]
    refine ⟨?_, fun _ w hw => ?_⟩
    · rw [hheld, hdisp, ← List.append_assoc, taken_call hrow]
      exact h.taken.append (.refl _)
    · have hl : callLink r.actorId c.st = some w := by
        obtain ⟨b, row, hb, hbl, hbrow, hbw⟩ := callLink_iff.mp hw
        rw [ha, Table.get_modify_self, hrow, Option.map_some] at hb
        cases hb
        refine callLink_iff.mpr ⟨a, row, hrow, hlive, ?_, hbw⟩
        simpa only [liveAgent, hagents] using hbrow
      simp [Section.breaks, hfails w hl, hl]

theorem InOrder.run (h : InOrder x c) {sec : Section} {link : Option FrameWriter} {unread : List ToAgent}
    (hs : sec.sendable c.st c.broken = true)
    (hu : (c.hostCalls ++ c.waiting ++ callsTo x unread).Sublist (dispatched x c.st)) :
    InOrder x (c.run cfg ops x env sec link unread) := by
  have hdaemon : (dispatched x (exec cfg ops env c.st sec) ++
        heldCalls x (exec cfg ops env c.st sec)).Sublist (c.calls ++ sec.taken x c.st) ∧
      (heldCalls x (exec cfg ops env c.st sec) ≠ [] →
        ∀ w, callLink x (exec cfg ops env c.st sec) = some w → w ∈ sec.breaks c.st c.broken) := by
    by_cases hcall : ∃ r, sec = .actorCall r ∧ r.actorId = x
    · obtain ⟨r, rfl, hx⟩ := hcall
      exact h.call hx hs
    · have hne : ∀ r, sec = .actorCall r → r.actorId ≠ x := fun r he hx => hcall ⟨r, he, hx⟩
      have hcarried := exec_carried (x := x) cfg ops env c.st hne
      rw [taken_of_ne hne, List.append_nil]
      refine ⟨hcarried.calls.trans h.taken, fun hheld w hw => ?_⟩
      obtain ⟨hheld, hlink⟩ := hcarried.held hheld
      have hin := h.broken hheld w (hlink w hw)
      cases sec with
      | actorCall r =>
        simp only [Section.breaks]
        split
        · exact hin
        · exact Finset.mem_union_right _ hin
      | _ => exact hin
  refine ⟨hdaemon.1, hdaemon.2, ?_, h.drained⟩
  obtain ⟨l, hl, -⟩ := exec_wire cfg ops env c.st sec
  have hnew : (exec cfg ops env c.st sec).wire.drop c.st.wire.length = l := by
    rw [hl, List.drop_left]
  simp only [Courier.run, hnew, callsTo_append]
  rw [← List.append_assoc, dispatched_append hl]
  exact hu.append (callsTo_arriving x link l)

/-- What an `ActorDispatch` does to the entry: its calls and the host's grow by the call at most. -/
theorem dispatch_calls {a : HostActor} (hd : a.host = true → a.queuedCalls = []) (call : QueuedCall)
    (ok : Bool) :
    ((a.dispatch call ok).2 ++ (a.dispatch call ok).1.queuedCalls).Sublist (a.queuedCalls ++ [call]) ∧
    ((a.dispatch call ok).1.host = true → (a.dispatch call ok).1.queuedCalls = []) := by
  unfold HostActor.dispatch
  simp only
  split
  · next hh =>
    refine ⟨?_, fun _ => hd hh⟩
    rw [hd hh, List.append_nil, List.nil_append]
    split
    · exact .refl _
    · exact List.nil_sublist _
  · next hh => exact ⟨.refl _, fun hh' => absurd hh' hh⟩

/-- One frame the agent reads. -/
theorem InOrder.readFrame (h : InOrder x c) {m : ToAgent} {rest : List ToAgent} (ok : Bool)
    (hu : c.unread = m :: rest) : InOrder x ({ c with unread := rest }.readFrame x ok m) := by
  have hreceived := h.received
  rw [hu, show m :: rest = [m] ++ rest from rfl, callsTo_append] at hreceived
  have hskip : InOrder x { c with unread := rest } := by
    refine ⟨h.taken, h.broken, .trans (.append (.refl _) ?_) hreceived, h.drained⟩
    exact List.sublist_append_right _ _
  have hspawn : InOrder x { c with unread := rest, entry := some .spawned } := by
    refine ⟨hskip.taken, hskip.broken, .trans ?_ hskip.received, fun a ha hh => ?_⟩
    · exact .append (.append (.refl _) (List.nil_sublist _)) (.refl _)
    · cases ha
      cases hh
  have hcall : ∀ call, m.callOf x = some call → ∀ a, c.entry = some a → InOrder x
      { c with
        unread := rest
        entry := some (a.dispatch call ok).1
        hostCalls := c.hostCalls ++ (a.dispatch call ok).2 } := by
    intro call hc a ha
    obtain ⟨hcalls, hdrained⟩ := dispatch_calls (h.drained a ha) call ok
    refine ⟨h.taken, h.broken, .trans ?_ hreceived, fun b hb hh => ?_⟩
    · have hm : callsTo x [m] = [call] := by simp [callsTo, hc]
      have hw : c.waiting = a.queuedCalls := by simp [waiting, ha]
      rw [hm, hw]
      simp only [waiting, Option.map_some, Option.getD_some, List.append_assoc]
      refine .append (.refl _) ?_
      rw [← List.append_assoc, ← List.append_assoc]
      exact hcalls.append (.refl _)
    · cases hb
      exact hdrained hh
  unfold Courier.readFrame
  split
  · split
    · exact hspawn
    · exact hskip
  · split
    · next call a hc ha => exact hcall call hc a ha
    · exact hskip

theorem InOrder.step {g : AgentId} {a : Act} {c' : Courier} (h : InOrder x c)
    (hs : c.step cfg ops g x a = some c') : InOrder x c' := by
  cases a with
  | head env sec =>
    simp only [Courier.step, Option.ite_none_right_eq_some, Option.some.injEq, Bool.and_eq_true] at hs
    obtain ⟨⟨-, hsend⟩, rfl⟩ := hs
    exact h.run hsend h.received
  | attach env w r =>
    simp only [Courier.step, Option.ite_none_right_eq_some, Option.some.injEq] at hs
    obtain ⟨-, rfl⟩ := hs
    refine h.run rfl (.trans ?_ h.received)
    exact .append (.refl _) (List.nil_sublist _)
  | lose =>
    cases hs
    refine ⟨h.taken, h.broken, .trans ?_ h.received, h.drained⟩
    exact .append (.refl _) (List.nil_sublist _)
  | read ok =>
    simp only [Courier.step] at hs
    split at hs
    · cases hs
    · next m rest hu =>
      cases hs
      exact h.readFrame ok hu
  | publish ok =>
    obtain ⟨a, ha, rfl⟩ := Option.map_eq_some_iff.mp hs
    refine ⟨h.taken, h.broken, .trans ?_ h.received, fun b hb _ => ?_⟩
    · simp only [waiting, ha, Option.map_some, Option.getD_some, HostActor.publish, List.append_nil]
      exact .append (.append (.refl _) List.filter_sublist) (.refl _)
    · cases hb
      rfl
  | result ref =>
    obtain ⟨a, ha, rfl⟩ := Option.map_eq_some_iff.mp hs
    refine ⟨h.taken, h.broken, .trans ?_ h.received, fun b hb hh => ?_⟩
    · simp only [waiting, ha, Option.map_some, Option.getD_some]
      exact .refl _
    · cases hb
      exact h.drained a ha hh
  | exit =>
    cases hs
    refine ⟨h.taken, h.broken, .trans ?_ h.received, fun b hb _ => by cases hb⟩
    exact .append (.append (.refl _) (List.nil_sublist _)) (.refl _)

end Invariant

end Courier

/-- Calls arrive in order and at most once: what the actor's host receives, a prefix of what is written
to it, is a subsequence of the refs of the calls in the order the daemon took them. -/
theorem calls_in_order {cfg : Cfg} {ops : ClaimOps} {g : AgentId} {x : ActorId} {c : Courier}
    (h : (courier cfg ops g x).Reach System.Free c) {received : List RefId}
    (hr : received <+: c.hostCalls.map (·.1)) :
    received.Sublist (c.calls.map (·.1)) ∧ ((c.calls.map (·.1)).Nodup → received.Nodup) := by
  have hin : Courier.InOrder x c := by
    refine h.invariant ?_ fun c a c' hc _ hs => hc.step hs
    rintro c ⟨nodeId, nodeIp, controlAddr, rfl⟩
    exact ⟨.refl _, fun hne => absurd rfl hne, .refl _, fun a ha => by cases ha⟩
  have hwritten : c.hostCalls.Sublist (dispatched x c.st) := by
    refine .trans ?_ hin.received
    rw [List.append_assoc]
    exact List.sublist_append_left _ _
  have htaken : (dispatched x c.st).Sublist c.calls := .trans (List.sublist_append_left _ _) hin.taken
  have hsub : received.Sublist (c.calls.map (·.1)) :=
    hr.sublist.trans ((hwritten.trans htaken).map _)
  exact ⟨hsub, fun hn => hn.sublist hsub⟩

namespace Sample

/-- The daemon's section at the time `now`. -/
def inHead (now : Nat) (sec : Section) : Courier.Act := .head (at_ now) sec

/-- Three calls before the host has connected. The link breaks under the second, and the third finds the
agent gone. Its registration sends both, and the host connects after that. -/
def callsInOutage : List Courier.Act := [
  inHead 0 (.elect "n:1"),
  .attach (at_ 1) 1 (registration [] []),
  inHead 2 (.hello 2 (driver "c" true)),
  inHead 3 (group "c" "p:1"),
  inHead 4 (actor "c" "p:1" "a:1"),
  .read true, .read true,
  inHead 5 (call "c" "a:1"),
  .read true,
  inHead 6 (.actorCall ⟨"c", "a:1", "run", [], false⟩),
  .lose,
  inHead 7 (.agentEof "ag" 1),
  inHead 8 (call "c" "a:1"),
  .attach (at_ 9) 3 (registration [resumed "a:1" [0] "c" ["a:1:1"]] []),
  .read true, .read true, .read true,
  .publish fun _ => true]

end Sample

theorem calls_in_order_outage : ∃ c, (courier Sample.cfg Sample.ops "ag" "a:1").Reach System.Free c ∧
    c.calls.map (·.1) = ["a:1:1", "a:1:2", "a:1:3"] ∧
    c.hostCalls.map (·.1) = ["a:1:1", "a:1:2", "a:1:3"] ∧ (c.hostCalls.map (·.1)).Nodup := by
  have hrun : ((courier Sample.cfg Sample.ops "ag" "a:1").run System.Free
      ⟨Sample.boot, [], ∅, none, [], none, []⟩ Sample.callsInOutage).any (fun c =>
        c.calls.map (·.1) == ["a:1:1", "a:1:2", "a:1:3"] &&
        c.hostCalls.map (·.1) == ["a:1:1", "a:1:2", "a:1:3"]) = true := by decide +kernel
  obtain ⟨c, hreach, hp⟩ := System.Reach.of_run hrun ⟨_, _, _, rfl⟩
  simp only [Bool.and_eq_true, beq_iff_eq] at hp
  obtain ⟨htaken, hhost⟩ := hp
  refine ⟨c, hreach, htaken, hhost, (calls_in_order hreach List.prefix_rfl).2 ?_⟩
  rw [htaken]
  decide

end Mentat
