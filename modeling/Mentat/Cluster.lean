import Mentat.Daemon.Section

/-!
# Daemons and agents

`agent.rs` beside the daemons: the table of actor processes an agent holds, its link to a daemon,
and what it sends and buffers. An agent has at most one link. It registers over a new socket
with what its table holds at that moment, and the registration is handled later, if at all.

* The daemons are numbered. One that restarts is another one, with empty tables.
* A daemon's `wire` is all it has written to agents. A link remembers how far through it the agent
  has read, and passes over what went to other sockets.
* A message an agent has sent is in the mail until it is delivered. It may be lost, and two may
  overtake each other.
* A link breaks at any time, on either side. A kill takes effect when the process exits.
-/

namespace Mentat

/-! ## An agent -/

structure HostActor where
  name : String
  owner : ClientId
  /-- 0 until the process is forked. -/
  pid : Nat
  gpuIds : List Nat
  pendingRefs : List RefId
  /-- The daemon whose link brought the spawn. -/
  spawnedBy : Nat

structure AgentLink where
  daemon : Nat
  writer : FrameWriter
  /-- How much of the daemon's wire the agent has been through. -/
  read : Nat
  /-- The registration's reply has come. -/
  up : Bool

structure Host where
  actors : Table ActorId HostActor
  /-- The actors it has been told to spawn. Their threads may speak when the process is gone. -/
  spawned : Finset ActorId
  link : Option AgentLink
  /-- What could not be sent while the link was down. -/
  unsent : List FromAgent

/-- A message on its way: the daemon, the agent that speaks, and what it says. -/
abbrev Mail := Nat × AgentId × FromAgent

namespace Host

def resume (h : Host) : List ResumeActor :=
  h.actors.rows.map fun (id, a) => ⟨id, a.name, a.gpuIds, a.pid, a.owner, a.pendingRefs⟩

/-- The calls whose result sits in the buffer. -/
def unacked (h : Host) : List RefId :=
  h.unsent.filterMap fun
    | .result refId _ _ _ => some refId
    | _ => none

/-- What the agent registers with. The rest of the registration is `r`'s. -/
def registration (h : Host) (agentId : AgentId) (r : AgentRegister) : AgentRegister :=
  { r with agentId := agentId, resume := h.resume, unackedRefs := h.unacked }

/-- Send to the daemon if the link is up, otherwise buffer for the reconnect. -/
def sendDaemon (h : Host) (agentId : AgentId) (sent : Bool) (msg : FromAgent) : Host × List Mail :=
  match h.link with
  | some l =>
    if l.up && sent then (h, [(l.daemon, agentId, msg)])
    else ({ h with unsent := h.unsent ++ [msg] }, [])
  | none => ({ h with unsent := h.unsent ++ [msg] }, [])

/-- One frame from the daemon. The first `sent` writes it makes get through. -/
def receive (h : Host) (agentId : AgentId) (l : AgentLink) (sent : Nat) : ToAgent → Host × List Mail
  | .registerOk _ =>
    ({ h with link := some { l with up := true }, unsent := h.unsent.drop sent },
      (h.unsent.take sent).map fun msg => (l.daemon, agentId, msg))
  | .actorSpawn id name _ gpuIds owner _ =>
    ({ h with
        actors := h.actors.set id ⟨name, owner, 0, gpuIds, [], l.daemon⟩
        spawned := insert id h.spawned }, [])
  | .actorKill _ => (h, [])
  | .actorDispatch id refId _ _ =>
    if h.actors.has id then
      ({ h with actors := h.actors.modify id fun a =>
          { a with pendingRefs := a.pendingRefs.insert refId } }, [])
    else if sent = 0 then (h, [])
    else (h, [(l.daemon, agentId,
      .result refId false ("no such actor " ++ id ++ " on this agent") [])])

end Host

/-! ## The cluster -/

structure Cluster where
  daemons : Nat → State
  hosts : AgentId → Host
  /-- The registrations sent, each under its daemon and socket. -/
  registers : Table (Nat × FrameWriter) AgentRegister
  mail : List Mail
  /-- Where each actor ever created was put: its agent and devices. -/
  places : Table ActorId (AgentId × List Nat)

namespace Cluster

inductive Act where
  /-- A section of a daemon that no agent's message causes. -/
  | daemon (d : Nat) (env : Env) (sec : Section)
  | register (d : Nat) (w : FrameWriter) (env : Env)
  | deliver (k : Nat) (env : Env)
  | connect (agentId : AgentId) (d : Nat) (w : FrameWriter) (r : AgentRegister)
  | read (agentId : AgentId) (sent : Nat)
  | fork (agentId : AgentId) (id : ActorId) (pid : Nat)
  /-- The spawn fails before a process is forked. -/
  | spawnError (agentId : AgentId) (id : ActorId) (error : String) (sent : Bool)
  /-- The actor's constructor has returned or raised. -/
  | ctor (agentId : AgentId) (id : ActorId) (ok : Bool) (error : String) (pid : Nat) (sent : Bool)
  | result (agentId : AgentId) (id : ActorId) (refId : RefId) (ok : Bool) (payload : Payload)
      (sent : Bool)
  | exit (agentId : AgentId) (id : ActorId) (exitCode signal : Option Int) (sent : Bool)
  | drop (agentId : AgentId)

/-- The sections no agent's message causes. The end of a link is one: the daemon sees it on its own
socket. -/
def isLocal : Section → Bool
  | .register _ _ => false
  | .agentFrame _ _ => false
  | _ => true

/-- `new_actor_id` draws at random: no daemon has drawn the id before. -/
def drawsNew (c : Cluster) : Section → Bool
  | .actorCreate r => !c.places.has r.actorId
  | _ => true

/-- The places once a daemon has run a section. -/
def placesAfter (c : Cluster) (st : State) : Section → Table ActorId (AgentId × List Nat)
  | .actorCreate r => match createTarget st r with
    | .ok (bundle, _, _) => c.places.set r.actorId (bundle.agent, bundle.gpuIds)
    | .error _ => c.places
  | _ => c.places

def setHost (c : Cluster) (agentId : AgentId) (p : Host × List Mail) : Cluster :=
  { c with hosts := Function.update c.hosts agentId p.1, mail := c.mail ++ p.2 }

/-- The cluster once an agent has sent its registration over a new socket. -/
def connected (c : Cluster) (agentId : AgentId) (d : Nat) (w : FrameWriter) (r : AgentRegister) :
    Cluster :=
  { c with
    hosts := Function.update c.hosts agentId { c.hosts agentId with link := some ⟨d, w, 0, false⟩ }
    registers := c.registers.set (d, w) ((c.hosts agentId).registration agentId r) }

@[simp] theorem setHost_hosts (c : Cluster) (agentId g : AgentId) (p : Host × List Mail) :
    (c.setHost agentId p).hosts g = if g = agentId then p.1 else c.hosts g := by
  simp only [setHost, Function.update_apply]

@[simp] theorem connected_hosts (c : Cluster) (agentId g : AgentId) (d : Nat) (w : FrameWriter)
    (r : AgentRegister) : (c.connected agentId d w r).hosts g =
      if g = agentId then { c.hosts agentId with link := some ⟨d, w, 0, false⟩ }
      else c.hosts g := by
  simp only [connected, Function.update_apply]

section Step

variable (cfg : Cfg) (ops : ClaimOps) (c : Cluster)

/-- The cluster once daemon `d` has run a section. -/
def ran (d : Nat) (env : Env) (sec : Section) : Cluster :=
  { c with
    daemons := Function.update c.daemons d (exec cfg ops env (c.daemons d) sec)
    places := c.placesAfter (c.daemons d) sec }

def step : Act → Option Cluster
  | .daemon d env sec =>
    if isLocal sec && sec.fresh (c.daemons d) && c.drawsNew sec then some (c.ran cfg ops d env sec)
    else none
  | .register d w env => (c.registers.get (d, w)).bind fun r =>
    if (Section.register w r).fresh (c.daemons d) then some (c.ran cfg ops d env (.register w r))
    else none
  | .deliver k env => c.mail[k]?.map fun (d, agentId, msg) =>
    { c.ran cfg ops d env (.agentFrame agentId msg) with mail := c.mail.eraseIdx k }
  | .connect agentId d w r =>
    if (c.hosts agentId).link.isNone && !c.registers.has (d, w) then some (c.connected agentId d w r)
    else none
  | .read agentId sent =>
    let h := c.hosts agentId
    h.link.bind fun l => (c.daemons l.daemon).wire[l.read]?.map fun (w, msg) =>
      let l := { l with read := l.read + 1 }
      let h := { h with link := some l }
      c.setHost agentId (if w = l.writer then h.receive agentId l sent msg else (h, []))
  | .fork agentId id pid =>
    let h := c.hosts agentId
    (h.actors.get id).bind fun a =>
      if a.pid = 0 ∧ pid ≠ 0 then
        some (c.setHost agentId
          ({ h with actors := h.actors.modify id fun a => { a with pid := pid } }, []))
      else none
  | .spawnError agentId id error sent =>
    let h := c.hosts agentId
    (h.actors.get id).bind fun a =>
      if a.pid = 0 then
        some (c.setHost agentId ({ h with actors := h.actors.erase id },
          if sent then [(a.spawnedBy, agentId, .spawnResult id false error 0)] else []))
      else none
  | .ctor agentId id ok error pid sent =>
    let h := c.hosts agentId
    if id ∈ h.spawned then
      some (c.setHost agentId (h.sendDaemon agentId sent
        (.spawnResult id ok (if ok then "" else "constructor raised: " ++ error) pid)))
    else none
  | .result agentId id refId ok payload sent =>
    let h := c.hosts agentId
    if id ∈ h.spawned then
      let h := { h with actors := h.actors.modify id fun a =>
        { a with pendingRefs := a.pendingRefs.erase refId } }
      some (c.setHost agentId (h.sendDaemon agentId sent (.result refId ok "" payload)))
    else none
  | .exit agentId id exitCode signal sent =>
    let h := c.hosts agentId
    (h.actors.get id).bind fun a =>
      if a.pid = 0 then none
      else
        let h := { h with actors := h.actors.erase id }
        some (c.setHost agentId (h.sendDaemon agentId sent (.exit id exitCode signal)))
  | .drop agentId => some (c.setHost agentId ({ c.hosts agentId with link := none }, []))

end Step

end Cluster

/-- Every run of the cluster, from boot. -/
def cluster (cfg : Cfg) (ops : ClaimOps) : System Cluster Cluster.Act where
  init c := (∀ d, (daemon cfg ops).init (c.daemons d)) ∧
    (∀ agentId, c.hosts agentId = ⟨∅, ∅, none, []⟩) ∧ c.registers = ∅ ∧ c.mail = [] ∧ c.places = ∅
  next := Cluster.step cfg ops

/-! ## What a step can be -/

section Steps

variable {cfg : Cfg} {ops : ClaimOps} {env : Env}

/-- The actor the frame tells an agent to spawn, with its devices. -/
def ToAgent.spawns : ToAgent → Option (ActorId × List Nat)
  | .actorSpawn id _ _ gpuIds _ _ => some (id, gpuIds)
  | _ => none

/-- The actor a message is about, when its sender has to have been told to spawn it. -/
def FromAgent.about : FromAgent → Option ActorId
  | .spawnResult id _ _ _ => some id
  | .exit id _ _ => some id
  | _ => none

def FromAgent.exits : FromAgent → Option ActorId
  | .exit id _ _ => some id
  | _ => none

namespace Cluster

/-- The agent's next frame is `m`, on its link `l`. -/
def NextFrame (c : Cluster) (agentId : AgentId) (l : AgentLink) (m : ToAgent) : Prop :=
  (c.hosts agentId).link = some l ∧ (c.daemons l.daemon).wire[l.read]? = some (l.writer, m)

/-- A section that daemon `d` runs in this step. -/
inductive Runs (c : Cluster) : Act → Nat → Env → Section → Prop
  | here {d : Nat} {env : Env} {sec : Section} : isLocal sec = true →
      sec.fresh (c.daemons d) = true → c.drawsNew sec = true → Runs c (.daemon d env sec) d env sec
  | register {d : Nat} {w : FrameWriter} {env : Env} {r : AgentRegister} :
      c.registers.get (d, w) = some r → (Section.register w r).fresh (c.daemons d) = true →
      Runs c (.register d w env) d env (.register w r)
  | deliver {k d : Nat} {env : Env} {agentId : AgentId} {msg : FromAgent} :
      (d, agentId, msg) ∈ c.mail → c.mail[k]? = some (d, agentId, msg) →
      Runs c (.deliver k env) d env (.agentFrame agentId msg)

/-- What a step of an agent makes of it, with the mail it sends. -/
structure HostStep (c : Cluster) (agentId : AgentId) (h : Host) (mail : List Mail) : Prop where
  /-- Its processes are those it had, and the one it is told to spawn. -/
  procs {x : ActorId} {p : HostActor} : h.actors.get x = some p →
    (∃ p0, (c.hosts agentId).actors.get x = some p0 ∧ p.gpuIds = p0.gpuIds) ∨
    ∃ l m, c.NextFrame agentId l m ∧ m.spawns = some (x, p.gpuIds) ∧ x ∈ h.spawned
  spawned : h.spawned = (c.hosts agentId).spawned ∨ ∃ l m x gpuIds, c.NextFrame agentId l m ∧
    m.spawns = some (x, gpuIds) ∧ h.spawned = insert x (c.hosts agentId).spawned ∧
    h.link = some { l with read := l.read + 1 }
  /-- It stays on its link and reads on, or loses it. -/
  link {l' : AgentLink} : h.link = some l' → ∃ l, (c.hosts agentId).link = some l ∧
    l'.daemon = l.daemon ∧ l'.writer = l.writer ∧ l.read ≤ l'.read
  /-- It says what it had buffered, or something of an actor it was told to spawn. -/
  speech {m : FromAgent} : (m ∈ h.unsent ∨ ∃ d, (d, agentId, m) ∈ mail) →
    m ∈ (c.hosts agentId).unsent ∨ (∀ x, m.about = some x → x ∈ (c.hosts agentId).spawned ∨
      ∃ p, (c.hosts agentId).actors.get x = some p) ∧ ∀ x, m.exits = some x → h.actors.get x = none
  sender {f : Mail} : f ∈ mail → f.2.1 = agentId

theorem HostStep.spawned_mono {c : Cluster} {agentId : AgentId} {h : Host} {mail : List Mail}
    (hs : HostStep c agentId h mail) : (c.hosts agentId).spawned ⊆ h.spawned := by
  rcases hs.spawned with he | ⟨_, _, x, _, -, -, he, -⟩
  · rw [he]
  · rw [he]
    exact Finset.subset_insert _ _

/-- A step that keeps the link and spawns nothing: some processes may go, and one message may be
sent. -/
theorem HostStep.of_speech {c : Cluster} {agentId : AgentId} {h : Host} {mail : List Mail}
    {m : FromAgent} (hspawned : h.spawned = (c.hosts agentId).spawned)
    (hlink : h.link = (c.hosts agentId).link)
    (hprocs : ∀ x p, h.actors.get x = some p →
      ∃ p0, (c.hosts agentId).actors.get x = some p0 ∧ p.gpuIds = p0.gpuIds)
    (hunsent : h.unsent = (c.hosts agentId).unsent ∨ h.unsent = (c.hosts agentId).unsent ++ [m])
    (hmail : mail = [] ∨ ∃ d, mail = [(d, agentId, m)])
    (habout : ∀ x, m.about = some x → x ∈ (c.hosts agentId).spawned ∨
      ∃ p, (c.hosts agentId).actors.get x = some p)
    (hexits : ∀ x, m.exits = some x → h.actors.get x = none) :
    HostStep c agentId h mail where
  procs hx := .inl (hprocs _ _ hx)
  spawned := .inl hspawned
  link {l'} hl := ⟨l', by rw [← hlink, hl], rfl, rfl, le_refl _⟩
  speech {m'} hm' := by
    have hor : m' ∈ (c.hosts agentId).unsent ∨ m' = m := by
      rcases hm' with hm' | ⟨d, hm'⟩
      · rcases hunsent with he | he
        · exact .inl (he ▸ hm')
        · rw [he, List.mem_append, List.mem_singleton] at hm'
          exact hm'
      · rcases hmail with rfl | ⟨d', rfl⟩
        · cases hm'
        · cases List.mem_singleton.mp hm'
          exact .inr rfl
    refine hor.imp id ?_
    rintro rfl
    exact ⟨habout, hexits⟩
  sender hf := by
    rcases hmail with rfl | ⟨d, rfl⟩
    · cases hf
    · cases List.mem_singleton.mp hf
      rfl

/-- What `send_daemon` makes of an agent. -/
theorem sendDaemon_cases (h : Host) (agentId : AgentId) (sent : Bool) (m : FromAgent) :
    ∃ unsent mail, h.sendDaemon agentId sent m = ({ h with unsent := unsent }, mail) ∧
      (unsent = h.unsent ∨ unsent = h.unsent ++ [m]) ∧
      (mail = [] ∨ ∃ d, mail = [(d, agentId, m)]) := by
  unfold Host.sendDaemon
  split
  · split
    · exact ⟨h.unsent, _, rfl, .inl rfl, .inr ⟨_, rfl⟩⟩
    · exact ⟨_, [], rfl, .inr rfl, .inl rfl⟩
  · exact ⟨_, [], rfl, .inr rfl, .inl rfl⟩

theorem sendDaemon_step {c : Cluster} {agentId : AgentId} {h : Host} {sent : Bool} {m : FromAgent}
    (hspawned : h.spawned = (c.hosts agentId).spawned)
    (hlink : h.link = (c.hosts agentId).link) (hunsent : h.unsent = (c.hosts agentId).unsent)
    (hprocs : ∀ x p, h.actors.get x = some p →
      ∃ p0, (c.hosts agentId).actors.get x = some p0 ∧ p.gpuIds = p0.gpuIds)
    (habout : ∀ x, m.about = some x → x ∈ (c.hosts agentId).spawned ∨
      ∃ p, (c.hosts agentId).actors.get x = some p)
    (hexits : ∀ x, m.exits = some x → h.actors.get x = none) :
    HostStep c agentId (h.sendDaemon agentId sent m).1 (h.sendDaemon agentId sent m).2 := by
  obtain ⟨unsent, mail, he, hu, hm⟩ := sendDaemon_cases h agentId sent m
  rw [he]
  exact .of_speech hspawned hlink hprocs (hunsent ▸ hu) hm habout hexits

/-- The processes of a table with one of them changed, its devices apart. -/
theorem modify_procs {t : Table ActorId HostActor} {x k : ActorId} {f : HostActor → HostActor}
    {p : HostActor} (h : (t.modify x f).get k = some p) (hf : ∀ a, (f a).gpuIds = a.gpuIds) :
    ∃ p0, t.get k = some p0 ∧ p.gpuIds = p0.gpuIds := by
  rw [Table.get_modify] at h
  split at h
  · obtain ⟨p0, hp0, rfl⟩ := Option.map_eq_some_iff.mp h
    exact ⟨p0, hp0, hf p0⟩
  · exact ⟨p, h, rfl⟩

/-- Reading a frame is a step of the agent. -/
theorem receive_step {c : Cluster} {agentId : AgentId} {l : AgentLink} {m : ToAgent} (sent : Nat)
    (hnext : c.NextFrame agentId l m) :
    HostStep c agentId
      (Host.receive { c.hosts agentId with link := some { l with read := l.read + 1 } } agentId
        { l with read := l.read + 1 } sent m).1
      (Host.receive { c.hosts agentId with link := some { l with read := l.read + 1 } } agentId
        { l with read := l.read + 1 } sent m).2 := by
  have hlink : ∀ {h : Host} {l' : AgentLink}, h.link = some l' →
      (∃ up, h.link = some { l with read := l.read + 1, up := up }) →
      ∃ l, (c.hosts agentId).link = some l ∧ l'.daemon = l.daemon ∧ l'.writer = l.writer ∧
        l.read ≤ l'.read := by
    rintro h l' hl ⟨up, hup⟩
    cases hl.symm.trans hup
    exact ⟨l, hnext.1, rfl, rfl, Nat.le_succ _⟩
  cases m with
  | registerOk nodeId =>
    refine ⟨fun hx => .inl ⟨_, hx, rfl⟩, .inl rfl, fun hl => hlink hl ⟨true, rfl⟩, ?_, ?_⟩
    · rintro m (hm | ⟨d, hm⟩)
      · exact .inl (List.mem_of_mem_drop hm)
      · obtain ⟨m', hm', he⟩ := List.mem_map.mp hm
        cases he
        exact .inl (List.mem_of_mem_take hm')
    · intro f hf
      obtain ⟨m', -, rfl⟩ := List.mem_map.mp hf
      rfl
  | actorSpawn id name e gpuIds owner payload =>
    refine ⟨fun {x p} hx => ?_, ?_, fun hl => hlink hl ⟨l.up, rfl⟩, ?_, fun hm => by cases hm⟩
    · rcases Table.get_set_some hx with ⟨rfl, rfl⟩ | ⟨-, hx⟩
      · exact .inr ⟨l, _, hnext, rfl, Finset.mem_insert_self _ _⟩
      · exact .inl ⟨p, hx, rfl⟩
    · exact .inr ⟨l, _, id, gpuIds, hnext, rfl, rfl, rfl⟩
    · rintro m (hm | ⟨d, hm⟩)
      · exact .inl hm
      · cases hm
  | actorKill id =>
    refine ⟨fun hx => .inl ⟨_, hx, rfl⟩, .inl rfl, fun hl => hlink hl ⟨l.up, rfl⟩, ?_,
      fun hm => by cases hm⟩
    rintro m (hm | ⟨d, hm⟩)
    · exact .inl hm
    · cases hm
  | actorDispatch id refId method payload =>
    unfold Host.receive
    simp only
    split
    · refine ⟨fun hx => .inl (modify_procs hx fun _ => rfl), .inl rfl,
        fun hl => hlink hl ⟨l.up, rfl⟩, ?_, fun hm => by cases hm⟩
      rintro m (hm | ⟨d, hm⟩)
      · exact .inl hm
      · cases hm
    · split
      · refine ⟨fun hx => .inl ⟨_, hx, rfl⟩, .inl rfl, fun hl => hlink hl ⟨l.up, rfl⟩, ?_,
          fun hm => by cases hm⟩
        rintro m (hm | ⟨d, hm⟩)
        · exact .inl hm
        · cases hm
      · refine ⟨fun hx => .inl ⟨_, hx, rfl⟩, .inl rfl, fun hl => hlink hl ⟨l.up, rfl⟩, ?_, ?_⟩
        · rintro m (hm | ⟨d, hm⟩)
          · exact .inl hm
          · cases List.mem_singleton.mp hm
            exact .inr ⟨fun _ h => (by cases h), fun _ h => by cases h⟩
        · intro f hf
          cases List.mem_singleton.mp hf
          rfl

/-- A step of the cluster is a section of a daemon, a step of an agent on the link it has, or an
agent's new link with its registration. -/
theorem step_cases {c c' : Cluster} {a : Act} (h : step cfg ops c a = some c') :
    (∃ d env sec mail, c.Runs a d env sec ∧ mail ⊆ c.mail ∧
      c' = { c.ran cfg ops d env sec with mail := mail }) ∨
    (∃ agentId h mail, HostStep c agentId h mail ∧ c' = c.setHost agentId (h, mail)) ∨
    (∃ agentId d w r, a = .connect agentId d w r ∧ (c.hosts agentId).link = none ∧
      c.registers.get (d, w) = none ∧ c' = c.connected agentId d w r) := by
  cases a with
  | daemon d env sec =>
    simp only [step] at h
    split at h
    · next hg =>
      cases h
      simp only [Bool.and_eq_true] at hg
      exact .inl ⟨d, env, sec, c.mail, .here hg.1.1 hg.1.2 hg.2, List.Subset.refl _, rfl⟩
    · cases h
  | register d w env =>
    obtain ⟨r, hr, h⟩ := Option.bind_eq_some_iff.mp h
    split at h
    · next hf =>
      cases h
      exact .inl ⟨d, env, _, c.mail, .register hr hf, List.Subset.refl _, rfl⟩
    · cases h
  | deliver k env =>
    obtain ⟨⟨d, agentId, msg⟩, hk, rfl⟩ := Option.map_eq_some_iff.mp h
    exact .inl ⟨d, env, _, _, .deliver (List.mem_of_getElem? hk) hk, List.eraseIdx_subset, rfl⟩
  | connect agentId d w r =>
    simp only [step] at h
    split at h
    · next hg =>
      cases h
      simp only [Bool.and_eq_true, Option.isNone_iff_eq_none, Bool.not_eq_true',
        Table.has_eq_false] at hg
      exact .inr (.inr ⟨agentId, d, w, r, rfl, hg.1, hg.2, rfl⟩)
    · cases h
  | read agentId sent =>
    obtain ⟨l, hl, h⟩ := Option.bind_eq_some_iff.mp h
    obtain ⟨⟨w, m⟩, hw, rfl⟩ := Option.map_eq_some_iff.mp h
    by_cases he : w = l.writer
    · subst he
      exact .inr (.inl ⟨agentId, _, _, receive_step sent ⟨hl, hw⟩, by simp only [if_true]⟩)
    · refine .inr (.inl ⟨agentId, { c.hosts agentId with link := some { l with read := l.read + 1 } },
        [], ⟨fun hx => .inl ⟨_, hx, rfl⟩, .inl rfl, fun hl' => ?_, ?_, fun hm => by cases hm⟩, by
          simp only [if_neg he]⟩)
      · cases hl'
        exact ⟨l, hl, rfl, rfl, Nat.le_succ _⟩
      · rintro m (hm | ⟨d, hm⟩)
        · exact .inl hm
        · cases hm
  | fork agentId id pid =>
    obtain ⟨p, hp, h⟩ := Option.bind_eq_some_iff.mp h
    split at h
    · cases h
      refine .inr (.inl ⟨agentId, _, _, ?_, rfl⟩)
      exact .of_speech (m := .serviceNote "" "") rfl rfl (fun x p hx => modify_procs hx fun _ => rfl)
        (.inl rfl) (.inl rfl) (fun _ hx => by cases hx) fun _ hx => by cases hx
    · cases h
  | spawnError agentId id error sent =>
    obtain ⟨p, hp, h⟩ := Option.bind_eq_some_iff.mp h
    split at h
    · cases h
      refine .inr (.inl ⟨agentId, _, _, ?_, rfl⟩)
      refine .of_speech (m := .spawnResult id false error 0) rfl rfl
        (fun x q hx => ⟨q, (Table.get_erase_some hx).2, rfl⟩) (.inl rfl) ?_ (fun x hx => ?_)
        fun _ hx => by cases hx
      · split
        · exact .inr ⟨_, rfl⟩
        · exact .inl rfl
      · cases hx
        exact .inr ⟨p, hp⟩
    · cases h
  | ctor agentId id ok error pid sent =>
    simp only [step] at h
    split at h
    · next hs =>
      cases h
      refine .inr (.inl ⟨agentId, _, _, ?_, rfl⟩)
      refine sendDaemon_step rfl rfl rfl (fun x p hx => ⟨p, hx, rfl⟩) (fun x hx => ?_)
        fun _ hx => by cases hx
      cases hx
      exact .inl hs
    · cases h
  | result agentId id refId ok payload sent =>
    simp only [step] at h
    split at h
    · cases h
      refine .inr (.inl ⟨agentId, _, _, ?_, rfl⟩)
      exact sendDaemon_step rfl rfl rfl (fun x p hx => modify_procs hx fun _ => rfl)
        (fun _ hx => by cases hx) fun _ hx => by cases hx
    · cases h
  | exit agentId id exitCode signal sent =>
    obtain ⟨p, hp, h⟩ := Option.bind_eq_some_iff.mp h
    split at h
    · cases h
    · cases h
      refine .inr (.inl ⟨agentId, _, _, ?_, rfl⟩)
      refine sendDaemon_step rfl rfl rfl (fun x q hx => ⟨q, (Table.get_erase_some hx).2, rfl⟩)
        (fun x hx => ?_) fun x hx => ?_
      · cases hx
        exact .inr ⟨p, hp⟩
      · cases hx
        exact Table.get_erase_self _ _
  | drop agentId =>
    cases h
    refine .inr (.inl ⟨agentId, _, _, ?_, rfl⟩)
    refine ⟨fun hx => .inl ⟨_, hx, rfl⟩, .inl rfl, (fun hl => by cases hl), ?_, fun hm => by cases hm⟩
    rintro m (hm | ⟨d, hm⟩)
    · exact .inl hm
    · cases hm

end Cluster

end Steps

end Mentat
