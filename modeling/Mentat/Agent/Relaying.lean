import Mentat.Agent.Outbox
import Mentat.PendingCalls

/-!
# From a host's answer to the daemon

`agent.rs` from the host's answer to the daemon's row: `spawn_actor` with its relay and its reaper,
`send_daemon`, and `serve_once` with its two snapshots, its registration and its drain. On the other
side stand the daemon's sections, those of the agent's own connections at the time they read a frame.
Every section that holds a lock is one step, and so is every write of a frame. What was written on a
link is read in order, and its end after it.

A host runs its calls one after the other and answers each once. A call has an id of its own, which
names its actor, and is dispatched once.

* `relaying`: the agent `g` and the daemon, from the daemon's boot.
* `Ledger`, `Frames`, `Lines`: what holds in every run of the agent's tables, of the frames on their
  way and of the links.
-/

namespace Mentat

/-- The frame has the daemon take the actor for dead. -/
def FromAgent.buries (x : ActorId) : FromAgent → Bool
  | .spawnResult y ok _ _ => y == x && !ok
  | .exit y _ _ => y == x
  | _ => false

/-- The ref of a result. -/
def FromAgent.resultRef : FromAgent → Option RefId
  | .result r _ _ _ => some r
  | _ => none

/-- The section is of a connection of the agent. -/
def Section.ofAgent (g : AgentId) : Section → Bool
  | .register _ r => r.agentId == g
  | .agentFrame id _ => id == g
  | .agentEof id _ => id == g
  | _ => false

/-- A host's answer to a call of its actor. -/
structure HostResult where
  actorId : ActorId
  refId : RefId
  ok : Bool
  payload : Payload

/-- The frame the relay makes of it. -/
def HostResult.msg (v : HostResult) : FromAgent := .result v.refId v.ok "" v.payload

/-- The frame the step writes, and the link. -/
def Outbox.writes (o : Outbox) : Outbox.Act → Option (Letter × Nat)
  | .send t true => match o.thread t with
    | .got m w => if w ∈ o.broken then none else some (m, w)
    | _ => none
  | .drain true => match o.serving with
    | .draining w (m :: _) => if w ∈ o.broken then none else some (m, w)
    | _ => none
  | _ => none

/-- The step is one of `send_daemon` or of the drain. The other two need the agent's tables. -/
def Outbox.Act.inner : Outbox.Act → Bool
  | .produce _ _ => false
  | .publish _ => false
  | _ => true

/-! ## The agent and the daemon -/

namespace Relaying

/-- The agent's entry of an actor. -/
structure HostActor where
  name : String
  owner : ClientId
  pid : Nat
  gpuIds : List Nat
  pendingRefs : List RefId

def HostActor.resume (x : ActorId) (a : HostActor) : ResumeActor :=
  ⟨x, a.name, a.gpuIds, a.pid, a.owner, a.pendingRefs⟩

/-- How far a host is with its constructor. -/
inductive Phase where
  | starting
  | ready
  | failed
deriving DecidableEq, Repr

/-- An actor's host, as its relay has it. It outlives the agent's entry. -/
structure Host where
  pid : Nat
  phase : Phase
  /-- The calls that wait for it and those it has not answered. -/
  calls : List RefId

def Host.drop (r : RefId) (p : Host) : Host := { p with calls := p.calls.filter (· ≠ r) }

/-- How far `serve_once` is before it has published a link. -/
inductive Dial where
  | idle
  /-- The snapshot of the actors is taken. -/
  | resumed (resume : List ResumeActor)
  /-- So is that of the buffer. -/
  | unacked (resume : List ResumeActor) (refs : List RefId)
  | asking (w : FrameWriter) (r : AgentRegister)

namespace Dial

def resume : Dial → Option (List ResumeActor)
  | .idle => none
  | .resumed l => some l
  | .unacked l _ => some l
  | .asking _ r => some r.resume

/-- The buffer's refs, once their snapshot is taken. -/
def refs : Dial → Option (List RefId)
  | .unacked _ l => some l
  | .asking _ r => some r.unackedRefs
  | _ => none

/-- The snapshot of the actors has the call. -/
def lists (r : RefId) (d : Dial) : Bool :=
  d.resume.any fun l => (l.flatMap (·.pendingRefs)).contains r

def waitsOn (w : FrameWriter) : Dial → Bool
  | .asking w' _ => w' == w
  | _ => false

end Dial

end Relaying

structure Relaying where
  st : State
  box : Outbox
  hosts : Table ActorId Relaying.HostActor
  procs : Table ActorId Relaying.Host
  /-- The calls dispatched so far. -/
  seen : Finset RefId
  dial : Relaying.Dial
  nextDial : Nat
  /-- The registrations written and not read yet. -/
  asked : Table FrameWriter AgentRegister
  replied : Finset FrameWriter
  ended : Finset FrameWriter
  /-- How many frames of a link the daemon has read. -/
  read : FrameWriter → Nat

namespace Relaying

inductive Act where
  /-- A section of the daemon that is not of the agent's connections. -/
  | head (env : Env) (sec : Section)
  | spawn (x : ActorId) (name : String) (owner : ClientId) (gpuIds : List Nat)
  | forked (x : ActorId) (pid : Nat)
  | dispatch (x : ActorId) (r : RefId) (ok : Bool)
  | ctorOk (x : ActorId)
  | ctorErr (x : ActorId) (error : String)
  /-- A call that waited for the host cannot be written to it. -/
  | unwritten (x : ActorId) (r : RefId)
  | hostResult (v : HostResult)
  | reap (x : ActorId) (exitCode signal : Option Int)
  | send (a : Outbox.Act)
  | resume (env : Env)
  | unacked
  | ask (w : FrameWriter) (info : AgentRegister)
  | giveUp
  | accept
  | register (env : Env) (w : FrameWriter)
  | refuse (w : FrameWriter)
  | frame (env : Env) (w : FrameWriter)
  | eof (env : Env) (w : FrameWriter)

/-- What is written on a link and not read. -/
def unread (s : Relaying) (w : FrameWriter) : List Letter := (s.box.written w).drop (s.read w)

/-- The entries of the agent's table, as a registration reports them. -/
def resumeOf (env : Env) (hosts : Table ActorId HostActor) : List ResumeActor :=
  (env.ids hosts).filterMap fun x => (hosts.get x).map (·.resume x)

/-- The hosts once a call is dispatched. One for no entry, or that cannot be written to the host, is
refused. -/
def give (s : Relaying) (x : ActorId) (r : RefId) (ok : Bool) : Table ActorId Host :=
  if s.hosts.has x ∧ ok = true then s.procs.modify x fun p => { p with calls := r :: p.calls }
  else s.procs

/-- A thread of the agent has a frame for the daemon. -/
def tell (s : Relaying) (t : Speaker) (msg : FromAgent) : Option Outbox := s.box.step (.produce t msg)

section Steps

variable (cfg : Cfg) (ops : ClaimOps) (g : AgentId)

def step (s : Relaying) : Act → Option Relaying
  | .head env sec =>
    if sec.fresh s.st && !sec.ofAgent g then some { s with st := exec cfg ops env s.st sec } else none
  | .spawn x name owner gpuIds => match s.box.serving with
    | .up _ =>
      if s.procs.has x then none
      else some { s with
        hosts := s.hosts.set x ⟨name, owner, 0, gpuIds, []⟩
        procs := s.procs.set x ⟨0, .starting, []⟩ }
    | _ => none
  | .forked x pid => some { s with
      hosts := s.hosts.modify x fun a => { a with pid := pid }
      procs := s.procs.modify x fun p => { p with pid := pid } }
  | .dispatch x r ok => match s.box.serving with
    | .up _ =>
      if r ∉ s.seen ∧ (rsplitOnce r).map (·.1) = some x then some { s with
        seen := insert r s.seen
        hosts := s.hosts.modify x fun a => { a with pendingRefs := a.pendingRefs.insert r }
        procs := s.give x r ok }
      else none
    | _ => none
  | .ctorOk x => match s.procs.get x with
    | some p =>
      if p.phase = .starting then
        (s.tell (.relay x) (.spawnResult x true "" p.pid)).map fun box => { s with
          box := box
          procs := s.procs.set x { p with phase := .ready } }
      else none
    | none => none
  | .ctorErr x error => match s.procs.get x with
    | some p =>
      if p.phase = .starting then
        (s.tell (.relay x) (.spawnResult x false ("constructor raised: " ++ error) p.pid)).map
          fun box => { s with box := box, procs := s.procs.set x { p with phase := .failed } }
      else none
    | none => none
  | .unwritten x r => match s.procs.get x with
    | some p =>
      if p.phase = .starting ∧ r ∈ p.calls then
        (s.tell (.relay x)
          (.result r false "could not write the call to the actor's host socket" [])).map
            fun box => { s with box := box, procs := s.procs.set x (p.drop r) }
      else none
    | none => none
  | .hostResult v => match s.procs.get v.actorId with
    | some p =>
      if p.phase = .ready ∧ v.refId ∈ p.calls then
        (s.tell (.relay v.actorId) v.msg).map fun box => { s with
          box := box
          procs := s.procs.set v.actorId (p.drop v.refId)
          hosts := s.hosts.modify v.actorId fun a =>
            { a with pendingRefs := a.pendingRefs.filter (· ≠ v.refId) } }
      else none
    | none => none
  | .reap x exitCode signal =>
    if s.hosts.has x then
      (s.tell (.reaper x) (.exit x exitCode signal)).map fun box => { s with
        box := box
        hosts := s.hosts.erase x }
    else none
  | .send a => if a.inner then (s.box.step a).map fun box => { s with box := box } else none
  | .resume env => match s.dial, s.box.serving with
    | .idle, .down => some { s with dial := .resumed (resumeOf env s.hosts) }
    | _, _ => none
  | .unacked => match s.dial with
    | .resumed l =>
      some { s with dial := .unacked l (s.box.unsent.filterMap (·.msg.resultRef)) }
    | _ => none
  | .ask w info => match s.dial with
    | .unacked l refs =>
      if s.nextDial ≤ w then
        let r := { info with agentId := g, resume := l, unackedRefs := refs }
        some { s with dial := .asking w r, asked := s.asked.set w r, nextDial := w + 1 }
      else none
    | _ => none
  | .giveUp => some { s with dial := .idle }
  | .accept => match s.dial with
    | .asking w _ =>
      if w ∈ s.replied then
        (s.box.step (.publish w)).map fun box => { s with box := box, dial := .idle }
      else none
    | _ => none
  | .register env w => match s.asked.get w with
    | some r =>
      if (Section.register w r).fresh s.st then some { s with
        st := exec cfg ops env s.st (.register w r)
        asked := s.asked.erase w
        replied := insert w s.replied }
      else none
    | none => none
  | .refuse w => some { s with asked := s.asked.erase w }
  | .frame env w => match s.unread w with
    | m :: _ =>
      if w ∈ s.replied ∧ w ∉ s.ended then some { s with
        st := exec cfg ops env s.st (.agentFrame g m.msg)
        read := Function.update s.read w (s.read w + 1) }
      else none
    | [] => none
  | .eof env w =>
    if w ∈ s.replied ∧ w ∉ s.ended ∧ w ∈ s.box.broken ∧ s.unread w = [] then some { s with
      st := exec cfg ops env s.st (.agentEof g w)
      ended := insert w s.ended }
    else none

end Steps

end Relaying

/-- The daemon and the agent `g`, from the daemon's boot. -/
def relaying (cfg : Cfg) (ops : ClaimOps) (g : AgentId) : System Relaying Relaying.Act where
  init s := ∃ nodeId nodeIp controlAddr box, outbox.init box ∧
    s = ⟨State.new nodeId nodeIp controlAddr, box, ∅, ∅, ∅, .idle, 0, ∅, ∅, ∅, fun _ => 0⟩
  next s a := s.step cfg ops g a

/-! ## What a step can be -/

namespace Relaying

variable {cfg : Cfg} {ops : ClaimOps} {g : AgentId} {s s' : Relaying}

/-- The steps, each with what it needs and what it leaves. -/
inductive Step (cfg : Cfg) (ops : ClaimOps) (g : AgentId) (s : Relaying) : Act → Relaying → Prop
  | head {env : Env} {sec : Section} : sec.fresh s.st = true → sec.ofAgent g = false →
      Step cfg ops g s (.head env sec) { s with st := exec cfg ops env s.st sec }
  | spawn {x : ActorId} {name : String} {owner : ClientId} {gpuIds : List Nat} {w : Nat} :
      s.box.serving = .up w → s.procs.get x = none →
      Step cfg ops g s (.spawn x name owner gpuIds) { s with
        hosts := s.hosts.set x ⟨name, owner, 0, gpuIds, []⟩
        procs := s.procs.set x ⟨0, .starting, []⟩ }
  | forked {x : ActorId} {pid : Nat} : Step cfg ops g s (.forked x pid) { s with
      hosts := s.hosts.modify x fun a => { a with pid := pid }
      procs := s.procs.modify x fun p => { p with pid := pid } }
  | dispatch {x : ActorId} {r : RefId} {ok : Bool} {w : Nat} :
      s.box.serving = .up w → r ∉ s.seen → (rsplitOnce r).map (·.1) = some x →
      Step cfg ops g s (.dispatch x r ok) { s with
        seen := insert r s.seen
        hosts := s.hosts.modify x fun a => { a with pendingRefs := a.pendingRefs.insert r }
        procs := s.give x r ok }
  | ctorOk {x : ActorId} {p : Host} {box : Outbox} :
      s.procs.get x = some p → p.phase = .starting →
      s.tell (.relay x) (.spawnResult x true "" p.pid) = some box →
      Step cfg ops g s (.ctorOk x) { s with
        box := box
        procs := s.procs.set x { p with phase := .ready } }
  | ctorErr {x : ActorId} {p : Host} {error : String} {box : Outbox} :
      s.procs.get x = some p → p.phase = .starting →
      s.tell (.relay x) (.spawnResult x false ("constructor raised: " ++ error) p.pid) = some box →
      Step cfg ops g s (.ctorErr x error) { s with
        box := box
        procs := s.procs.set x { p with phase := .failed } }
  | unwritten {x : ActorId} {r : RefId} {p : Host} {box : Outbox} :
      s.procs.get x = some p → r ∈ p.calls →
      s.tell (.relay x)
        (.result r false "could not write the call to the actor's host socket" []) = some box →
      Step cfg ops g s (.unwritten x r) { s with box := box, procs := s.procs.set x (p.drop r) }
  | hostResult {v : HostResult} {p : Host} {box : Outbox} :
      s.procs.get v.actorId = some p → p.phase = .ready → v.refId ∈ p.calls →
      s.tell (.relay v.actorId) v.msg = some box →
      Step cfg ops g s (.hostResult v) { s with
        box := box
        procs := s.procs.set v.actorId (p.drop v.refId)
        hosts := s.hosts.modify v.actorId fun a =>
          { a with pendingRefs := a.pendingRefs.filter (· ≠ v.refId) } }
  | reap {x : ActorId} {exitCode signal : Option Int} {a : HostActor} {box : Outbox} :
      s.hosts.get x = some a → s.tell (.reaper x) (.exit x exitCode signal) = some box →
      Step cfg ops g s (.reap x exitCode signal) { s with box := box, hosts := s.hosts.erase x }
  | send {a : Outbox.Act} {box : Outbox} : a.inner = true → s.box.step a = some box →
      Step cfg ops g s (.send a) { s with box := box }
  | resume {env : Env} : s.dial = .idle → s.box.serving = .down →
      Step cfg ops g s (.resume env) { s with dial := .resumed (resumeOf env s.hosts) }
  | unacked {l : List ResumeActor} : s.dial = .resumed l →
      Step cfg ops g s .unacked
        { s with dial := .unacked l (s.box.unsent.filterMap (·.msg.resultRef)) }
  | ask {w : FrameWriter} {info r : AgentRegister} {l : List ResumeActor} {refs : List RefId} :
      s.dial = .unacked l refs → r = { info with agentId := g, resume := l, unackedRefs := refs } →
      Step cfg ops g s (.ask w info) { s with
        dial := .asking w r
        asked := s.asked.set w r
        nextDial := w + 1 }
  | giveUp : Step cfg ops g s .giveUp { s with dial := .idle }
  | accept {w : FrameWriter} {r : AgentRegister} {box : Outbox} : s.dial = .asking w r →
      s.box.step (.publish w) = some box → Step cfg ops g s .accept { s with box := box, dial := .idle }
  | register {env : Env} {w : FrameWriter} {r : AgentRegister} : s.asked.get w = some r →
      (Section.register w r).fresh s.st = true →
      Step cfg ops g s (.register env w) { s with
        st := exec cfg ops env s.st (.register w r)
        asked := s.asked.erase w
        replied := insert w s.replied }
  | refuse {w : FrameWriter} : Step cfg ops g s (.refuse w) { s with asked := s.asked.erase w }
  | frame {env : Env} {w : FrameWriter} {m : Letter} {l : List Letter} : s.unread w = m :: l →
      Step cfg ops g s (.frame env w) { s with
        st := exec cfg ops env s.st (.agentFrame g m.msg)
        read := Function.update s.read w (s.read w + 1) }
  | eof {env : Env} {w : FrameWriter} :
      Step cfg ops g s (.eof env w) { s with
        st := exec cfg ops env s.st (.agentEof g w)
        ended := insert w s.ended }

theorem step_cases {a : Act} (h : s.step cfg ops g a = some s') : Step cfg ops g s a s' := by
  cases a with
  | head env sec =>
    simp only [step] at h
    split at h
    · next hc =>
      cases h
      rw [Bool.and_eq_true, Bool.not_eq_true'] at hc
      exact .head hc.1 hc.2
    · cases h
  | spawn x name owner gpuIds =>
    simp only [step] at h
    split at h
    · next w hs =>
      split at h
      · cases h
      · next hx =>
        cases h
        exact .spawn hs (Table.has_eq_false.mp (Bool.eq_false_iff.mpr hx))
    · cases h
  | forked x pid =>
    cases h
    exact .forked
  | dispatch x r ok =>
    simp only [step] at h
    split at h
    · next w hs =>
      split at h
      · next hc =>
        cases h
        exact .dispatch hs hc.1 hc.2
      · cases h
    · cases h
  | ctorOk x =>
    simp only [step] at h
    split at h
    · next p hp =>
      split at h
      · next hph =>
        obtain ⟨box, hbox, rfl⟩ := Option.map_eq_some_iff.mp h
        exact .ctorOk hp hph hbox
      · cases h
    · cases h
  | ctorErr x error =>
    simp only [step] at h
    split at h
    · next p hp =>
      split at h
      · next hph =>
        obtain ⟨box, hbox, rfl⟩ := Option.map_eq_some_iff.mp h
        exact .ctorErr hp hph hbox
      · cases h
    · cases h
  | unwritten x r =>
    simp only [step] at h
    split at h
    · next p hp =>
      split at h
      · next hc =>
        obtain ⟨box, hbox, rfl⟩ := Option.map_eq_some_iff.mp h
        exact .unwritten hp hc.2 hbox
      · cases h
    · cases h
  | hostResult v =>
    simp only [step] at h
    split at h
    · next p hp =>
      split at h
      · next hc =>
        obtain ⟨box, hbox, rfl⟩ := Option.map_eq_some_iff.mp h
        exact .hostResult hp hc.1 hc.2 hbox
      · cases h
    · cases h
  | reap x exitCode signal =>
    simp only [step] at h
    split at h
    · next hx =>
      obtain ⟨a, ha⟩ := Table.has_iff.mp hx
      obtain ⟨box, hbox, rfl⟩ := Option.map_eq_some_iff.mp h
      exact .reap ha hbox
    · cases h
  | send a =>
    simp only [step] at h
    split at h
    · next ha =>
      obtain ⟨box, hbox, rfl⟩ := Option.map_eq_some_iff.mp h
      exact .send ha hbox
    · cases h
  | resume env =>
    simp only [step] at h
    split at h
    · next hd hs =>
      cases h
      exact .resume hd hs
    · cases h
  | unacked =>
    simp only [step] at h
    split at h
    · next l hd =>
      cases h
      exact .unacked hd
    · cases h
  | ask w info =>
    simp only [step] at h
    split at h
    · next l refs hd =>
      split at h
      · cases h
        exact .ask hd rfl
      · cases h
    · cases h
  | giveUp =>
    cases h
    exact .giveUp
  | accept =>
    simp only [step] at h
    split at h
    · next w r hd =>
      split at h
      · obtain ⟨box, hbox, rfl⟩ := Option.map_eq_some_iff.mp h
        exact .accept hd hbox
      · cases h
    · cases h
  | register env w =>
    simp only [step] at h
    split at h
    · next r hr =>
      split at h
      · next hf =>
        cases h
        exact .register hr hf
      · cases h
    · cases h
  | refuse w =>
    cases h
    exact .refuse
  | frame env w =>
    simp only [step] at h
    split at h
    · next m l hu =>
      split at h
      · cases h
        exact .frame hu
      · cases h
    · cases h
  | eof env w =>
    simp only [step] at h
    split at h
    · cases h
      exact .eof
    · cases h

end Relaying

/-! ## What a step makes of the agent's messages -/

namespace Outbox

variable {o o' : Outbox} {a : Act} {m : Letter}

/-- A thread has the message in hand. -/
def Hand (o : Outbox) (m : Letter) : Prop := ∃ t, (o.thread t).inHand = some m

/-- The message is in the buffer, or in the part of it that is being drained. -/
def Buffered (o : Outbox) (m : Letter) : Prop := m ∈ o.unsent ∨ m ∈ o.serving.rest

/-- What a step makes of the messages: they go from a thread to the buffer and from either to a link,
and none comes in but the one produced. -/
structure Moved (o : Outbox) (a : Act) (o' : Outbox) : Prop where
  hand : ∀ m, o'.Hand m → o.Hand m ∨ ∃ t, a = .produce t m.msg
  buffered : ∀ m, o'.Buffered m → o.Hand m ∨ o.Buffered m
  kept : ∀ m, o.Hand m ∨ o.Buffered m → (o'.Hand m ∨ o'.Buffered m) ∨
    ∃ w, o.writes a = some (m, w) ∧ o'.written = (o.write w m).written
  written : o'.written = o.written ∨ ∃ m w, o.writes a = some (m, w) ∧ (o.Hand m ∨ o.Buffered m) ∧
    o'.written = (o.write w m).written

theorem hand_setThread {t : Speaker} {s : Sending} (h : (o.setThread t s).Hand m) :
    s.inHand = some m ∨ o.Hand m := by
  obtain ⟨t', h⟩ := h
  rw [setThread_thread] at h
  split at h
  · exact .inl h
  · exact .inr ⟨t', h⟩

/-- A message stays in its thread's hands, unless it is the thread that is set. -/
theorem setThread_hand {t : Speaker} {s : Sending} (h : o.Hand m) :
    (o.setThread t s).Hand m ∨ (o.thread t).inHand = some m := by
  obtain ⟨t', h⟩ := h
  by_cases ht : t' = t
  · exact .inr (ht ▸ h)
  · exact .inl ⟨t', by rw [setThread_thread, if_neg ht, h]⟩

/-- A thread goes on with the message it has. -/
theorem Moved.of_thread {t : Speaker} {s : Sending} (hs : s.inHand = (o.thread t).inHand)
    (ht : o'.threads = (o.setThread t s).threads) (hu : o'.unsent = o.unsent)
    (hv : o'.serving = o.serving) (hw : o'.written = o.written) : Moved o a o' := by
  have hhand : ∀ m, o'.Hand m ↔ o.Hand m := by
    intro m
    have hsame : ∀ t', (o'.thread t').inHand = (o.thread t').inHand := by
      intro t'
      have : o'.thread t' = (o.setThread t s).thread t' := by rw [thread, ht, thread]
      rw [this, setThread_thread]
      split
      · next he => rw [hs, he]
      · rfl
    simp only [Hand, hsame]
  have hbuf : ∀ m, o'.Buffered m ↔ o.Buffered m := fun m => by rw [Buffered, hu, hv, Buffered]
  refine ⟨fun m h => .inl ((hhand m).mp h), fun m h => .inr ((hbuf m).mp h), fun m h => .inl ?_,
    .inl hw⟩
  rwa [hhand, hbuf]

/-- The threads stay as they are, and so does what is in the agent. -/
theorem Moved.of_buffer (ht : o'.threads = o.threads) (hb : ∀ m, o'.Buffered m ↔ o.Buffered m)
    (hw : o'.written = o.written) : Moved o a o' := by
  have hhand : ∀ m, o'.Hand m ↔ o.Hand m := fun m => by simp only [Hand, thread, ht]
  refine ⟨fun m h => .inl ((hhand m).mp h), fun m h => .inr ((hb m).mp h), fun m h => .inl ?_, .inl hw⟩
  rwa [hhand, hb]

theorem Moved.of_step (hs : Step o a o') : Moved o a o' := by
  cases hs with
  | @produce t msg ht =>
    refine ⟨fun m h => ?_, fun m h => .inr h, fun m h => .inl (h.imp_left fun h => ?_), .inl rfl⟩
    · rcases hand_setThread h with h | h
      · cases h
        exact .inr ⟨t, rfl⟩
      · exact .inl h
    · rcases setThread_hand (t := t) h with h | h
      · exact h
      · rw [ht] at h
        cases h
  | @readUp t m w ht hd => exact .of_thread (t := t) (by rw [ht]; rfl) rfl rfl rfl rfl
  | @readDown t m ht hd => exact .of_thread (t := t) (by rw [ht]; rfl) rfl rfl rfl rfl
  | @sent t m w ht hb =>
    have hhand : o.Hand m := ⟨t, by rw [ht]; rfl⟩
    have hwrites : o.writes (.send t true) = some (m, w) := by simp only [writes, ht, if_neg hb]
    refine ⟨fun m' h => .inl ?_, fun m' h => .inr h, fun m' h => ?_,
      .inr ⟨m, w, hwrites, .inl hhand, rfl⟩⟩
    · rcases hand_setThread h with h | h
      · cases h
      · exact h
    · rcases h with h | h
      · rcases setThread_hand (t := t) (s := .idle) h with h | h
        · exact .inl (.inl h)
        · rw [ht] at h
          cases h
          exact .inr ⟨w, hwrites, rfl⟩
      · exact .inl (.inr h)
  | @unsent t m w ok ht =>
    exact .of_thread (t := t) (s := .failed m) (by rw [ht]; rfl) rfl rfl rfl rfl
  | @buffer t m ht hserve =>
    refine ⟨fun m' h => .inl ?_, fun m' h => ?_, fun m' h => .inl ?_, .inl rfl⟩
    · rcases hand_setThread h with h | h
      · cases h
      · exact h
    · rcases h with h | h
      · rcases List.mem_append.mp h with h | h
        · exact .inr (.inl h)
        · rw [List.mem_singleton.mp h]
          exact .inl ⟨t, by rw [ht]; rfl⟩
      · exact .inr (.inr h)
    · rcases h with h | h | h
      · rcases setThread_hand (t := t) (s := .idle) h with h | h
        · exact .inl h
        · rw [ht] at h
          cases h
          exact .inr (.inl (List.mem_append_right _ (List.mem_singleton_self m)))
      · exact .inr (.inl (List.mem_append_left _ h))
      · exact .inr (.inr h)
  | publish hserve hw =>
    refine .of_buffer rfl (fun m => ?_) rfl
    simp only [Buffered, hserve, Serving.rest]
  | takeBacklog hserve =>
    refine .of_buffer rfl (fun m => ?_) rfl
    simp [Buffered, hserve, Serving.rest]
  | drained hserve =>
    refine .of_buffer rfl (fun m => ?_) rfl
    simp only [Buffered, hserve, Serving.rest]
  | @drain w m rest hserve hb =>
    have hrest : o.serving.rest = m :: rest := by rw [hserve]; rfl
    have hwrites : o.writes (.drain true) = some (m, w) := by simp only [writes, hserve, if_neg hb]
    refine ⟨fun m' h => .inl h, fun m' h => .inr ?_, fun m' h => ?_,
      .inr ⟨m, w, hwrites, .inr (.inr (hrest ▸ List.mem_cons_self)), rfl⟩⟩
    · exact h.imp_right fun h => hrest ▸ List.mem_cons_of_mem m h
    · rcases h with h | h | h
      · exact .inl (.inl h)
      · exact .inl (.inr (.inl h))
      · rw [hrest] at h
        rcases List.mem_cons.mp h with rfl | h
        · exact .inr ⟨w, hwrites, rfl⟩
        · exact .inl (.inr (.inr h))
  | undrained hserve =>
    refine .of_buffer rfl (fun m => ?_) rfl
    simp [Buffered, hserve, Serving.rest, Outbox.breaks]
  | breakLink => exact .of_buffer rfl (fun m => Iff.rfl) rfl
  | close hserve =>
    refine .of_buffer rfl (fun m => ?_) rfl
    simp only [Buffered, hserve, Serving.rest]

/-- A frame that is anywhere between the thread that produced it and the daemon. -/
def Tells (o : Outbox) (msg : FromAgent) : Prop :=
  ∃ m : Letter, m.msg = msg ∧ (o.Hand m ∨ o.Buffered m ∨ ∃ w, m ∈ o.written w)

theorem Moved.tells (h : Moved o a o') {msg : FromAgent} (ht : o'.Tells msg) :
    o.Tells msg ∨ ∃ t, a = .produce t msg := by
  obtain ⟨m, rfl, hm | hm | ⟨w, hm⟩⟩ := ht
  · rcases h.hand m hm with hm | hm
    · exact .inl ⟨m, rfl, .inl hm⟩
    · exact .inr hm
  · exact .inl ⟨m, rfl, (h.buffered m hm).imp_right .inl⟩
  · refine .inl ⟨m, rfl, ?_⟩
    rcases h.written with he | ⟨m', w', -, hm', he⟩
    · exact .inr (.inr ⟨w, he ▸ hm⟩)
    · rw [he] at hm
      rcases mem_written_write.mp hm with hm | ⟨-, rfl⟩
      · exact .inr (.inr ⟨w, hm⟩)
      · exact hm'.imp_right .inl

/-- Without a link, `serve_once` has nothing to do until one is published. -/
theorem serving_down (h : o.serving = .down) (hs : Step o a o') (hp : ∀ w, a ≠ .publish w) :
    o'.serving = .down := by
  cases hs with
  | publish hserve hw => exact absurd rfl (hp _)
  | takeBacklog hserve => cases h.symm.trans hserve
  | drained hserve => cases h.symm.trans hserve
  | drain hserve hb => cases h.symm.trans hserve
  | undrained hserve => cases h.symm.trans hserve
  | close hserve => rfl
  | _ => exact h

end Outbox

/-! ## What holds of every run -/

namespace Relaying

variable {cfg : Cfg} {ops : ClaimOps} {g : AgentId} {s s' : Relaying}

/-- What holds of the agent's tables. -/
structure Ledger (s : Relaying) : Prop where
  known : ∀ x a, s.hosts.get x = some a → ∃ p, s.procs.get x = some p
  given : ∀ x p r, s.procs.get x = some p → r ∈ p.calls →
    r ∈ s.seen ∧ (rsplitOnce r).map (·.1) = some x
  pending : ∀ x a p r, s.hosts.get x = some a → s.procs.get x = some p → r ∈ p.calls →
    r ∈ a.pendingRefs
  /-- A snapshot of the actors has those still in the table, and their calls. -/
  resumed : ∀ l, s.dial.resume = some l → ∀ x a p r, s.hosts.get x = some a →
    s.procs.get x = some p → r ∈ p.calls →
    x ∈ l.map (·.actorId) ∧ r ∈ l.flatMap (·.pendingRefs)

theorem mem_resumeOf {env : Env} {hosts : Table ActorId HostActor} {x : ActorId} {a : HostActor}
    (h : hosts.get x = some a) : a.resume x ∈ resumeOf env hosts :=
  List.mem_filterMap.mpr ⟨x, by simp [Env.ids, Table.mem_keys, h], by simp [h]⟩

theorem Host.mem_drop {p : Host} {r r' : RefId} : r' ∈ (p.drop r).calls ↔ r' ∈ p.calls ∧ r' ≠ r := by
  simp [drop]

/-- A call that is dispatched goes to its actor's host. -/
theorem give_calls {x y : ActorId} {r k : RefId} {ok : Bool} {q : Host}
    (hq : (s.give x r ok).get y = some q) (hk : k ∈ q.calls) :
    (y = x ∧ k = r) ∨ ∃ q', s.procs.get y = some q' ∧ k ∈ q'.calls := by
  unfold give at hq
  split at hq
  · rw [Table.get_modify] at hq
    split at hq
    · next hy =>
      obtain ⟨q', hq', rfl⟩ := Option.map_eq_some_iff.mp hq
      rcases List.mem_cons.mp hk with rfl | hk
      · exact .inl ⟨hy, rfl⟩
      · exact .inr ⟨q', hq', hk⟩
    · exact .inr ⟨q, hq, hk⟩
  · exact .inr ⟨q, hq, hk⟩

theorem give_known {x y : ActorId} {r : RefId} {ok : Bool} {p : Host} (hp : s.procs.get y = some p) :
    ∃ q, (s.give x r ok).get y = some q ∧ q.phase = p.phase := by
  unfold give
  split
  · rw [Table.get_modify, hp]
    split <;> exact ⟨_, rfl, rfl⟩
  · exact ⟨p, hp, rfl⟩

namespace Ledger

/-- A host's row replaced by one that has no call it did not have. -/
theorem setProc (h : Ledger s) {x : ActorId} {p p' : Host} (hp : s.procs.get x = some p)
    (hsub : ∀ r ∈ p'.calls, r ∈ p.calls) (box : Outbox) :
    Ledger { s with box := box, procs := s.procs.set x p' } := by
  have hget : ∀ y q, (s.procs.set x p').get y = some q →
      ∃ q', s.procs.get y = some q' ∧ ∀ r ∈ q.calls, r ∈ q'.calls := by
    intro y q hq
    rcases Table.get_set_some hq with ⟨rfl, rfl⟩ | ⟨-, hq⟩
    · exact ⟨p, hp, hsub⟩
    · exact ⟨q, hq, fun r hr => hr⟩
  refine ⟨fun y a ha => ?_, fun y q r hq hr => ?_, fun y a q r ha hq hr => ?_,
    fun l hl y a q r ha hq hr => ?_⟩
  · obtain ⟨q, hq⟩ := h.known y a ha
    by_cases hy : y = x
    · exact ⟨p', by rw [hy]; exact Table.get_set_self _ _ _⟩
    · exact ⟨q, (Table.get_set_of_ne hy).trans hq⟩
  · obtain ⟨q', hq', hs⟩ := hget y q hq
    exact h.given y q' r hq' (hs r hr)
  · obtain ⟨q', hq', hs⟩ := hget y q hq
    exact h.pending y a q' r ha hq' (hs r hr)
  · obtain ⟨q', hq', hs⟩ := hget y q hq
    exact h.resumed l hl y a q' r ha hq' (hs r hr)

theorem step {a : Act} (h : Ledger s) (hdown : s.dial ≠ .idle → s.box.serving = .down)
    (hs : Step cfg ops g s a s') : Ledger s' := by
  -- The actors change while a link is up, so no registration is under way.
  have hidle : ∀ {w}, s.box.serving = .up w → s.dial.resume = none := by
    intro w hw
    cases hd : s.dial with
    | idle => rfl
    | _ =>
      have := hdown (by rw [hd]; exact Dial.noConfusion)
      cases this.symm.trans hw
  cases hs with
  | @spawn x name owner gpuIds w hup hx =>
    have hhost : ∀ y a, (s.hosts.set x ⟨name, owner, 0, gpuIds, []⟩).get y = some a → y ≠ x →
        s.hosts.get y = some a := fun y a ha hy => (Table.get_set_of_ne hy).symm.trans ha
    have hproc : ∀ y q r, (s.procs.set x ⟨0, .starting, []⟩).get y = some q → r ∈ q.calls →
        y ≠ x ∧ s.procs.get y = some q := by
      intro y q r hq hr
      rcases Table.get_set_some hq with ⟨-, rfl⟩ | ⟨hy, hq⟩
      · cases hr
      · exact ⟨hy, hq⟩
    refine ⟨fun y a ha => ?_, fun y q r hq hr => ?_, fun y a q r ha hq hr => ?_, fun l hl => ?_⟩
    · by_cases hy : y = x
      · exact ⟨_, by rw [hy]; exact Table.get_set_self _ _ _⟩
      · obtain ⟨q, hq⟩ := h.known y a (hhost y a ha hy)
        exact ⟨q, (Table.get_set_of_ne hy).trans hq⟩
    · obtain ⟨-, hq⟩ := hproc y q r hq hr
      exact h.given y q r hq hr
    · obtain ⟨hy, hq⟩ := hproc y q r hq hr
      exact h.pending y a q r (hhost y a ha hy) hq hr
    · cases (hidle hup).symm.trans hl
  | @forked x pid =>
    have hhost : ∀ y a, (s.hosts.modify x fun a => { a with pid := pid }).get y = some a →
        ∃ a', s.hosts.get y = some a' ∧ a.pendingRefs = a'.pendingRefs := by
      intro y a ha
      rw [Table.get_modify] at ha
      split at ha
      · obtain ⟨a', ha', rfl⟩ := Option.map_eq_some_iff.mp ha
        exact ⟨a', ha', rfl⟩
      · exact ⟨a, ha, rfl⟩
    have hproc : ∀ y q, (s.procs.modify x fun p => { p with pid := pid }).get y = some q →
        ∃ q', s.procs.get y = some q' ∧ q.calls = q'.calls := by
      intro y q hq
      rw [Table.get_modify] at hq
      split at hq
      · obtain ⟨q', hq', rfl⟩ := Option.map_eq_some_iff.mp hq
        exact ⟨q', hq', rfl⟩
      · exact ⟨q, hq, rfl⟩
    refine ⟨fun y a ha => ?_, fun y q r hq hr => ?_, fun y a q r ha hq hr => ?_,
      fun l hl y a q r ha hq hr => ?_⟩
    · obtain ⟨a', ha', -⟩ := hhost y a ha
      obtain ⟨q, hq⟩ := h.known y a' ha'
      show ∃ p, (s.procs.modify x fun p => { p with pid := pid }).get y = some p
      rw [Table.get_modify, hq]
      split <;> exact ⟨_, rfl⟩
    · obtain ⟨q', hq', he⟩ := hproc y q hq
      exact h.given y q' r hq' (he ▸ hr)
    · obtain ⟨a', ha', hea⟩ := hhost y a ha
      obtain ⟨q', hq', he⟩ := hproc y q hq
      exact hea ▸ h.pending y a' q' r ha' hq' (he ▸ hr)
    · obtain ⟨a', ha', -⟩ := hhost y a ha
      obtain ⟨q', hq', he⟩ := hproc y q hq
      exact h.resumed l hl y a' q' r ha' hq' (he ▸ hr)
  | @dispatch x r ok w hup hr hx =>
    -- What a host has been given is in its entry, if there is one.
    have hhost : ∀ y a, (s.hosts.modify x fun a =>
        { a with pendingRefs := a.pendingRefs.insert r }).get y = some a →
        ∃ a', s.hosts.get y = some a' ∧ (∀ k ∈ a'.pendingRefs, k ∈ a.pendingRefs) ∧
          (y = x → r ∈ a.pendingRefs) := by
      intro y a ha
      rw [Table.get_modify] at ha
      split at ha
      · obtain ⟨a', ha', rfl⟩ := Option.map_eq_some_iff.mp ha
        exact ⟨a', ha', fun k hk => List.mem_insert_of_mem hk, fun _ => List.mem_insert_self⟩
      · next hy => exact ⟨a, ha, fun k hk => hk, fun he => absurd he hy⟩
    refine ⟨fun y a ha => ?_, fun y q k hq hk => ?_, fun y a q k ha hq hk => ?_, fun l hl => ?_⟩
    · obtain ⟨a', ha', -⟩ := hhost y a ha
      obtain ⟨q, hq⟩ := h.known y a' ha'
      exact (give_known hq).imp fun _ hq => hq.1
    · rcases give_calls hq hk with ⟨rfl, rfl⟩ | ⟨q', hq', hk⟩
      · exact ⟨Finset.mem_insert_self _ _, hx⟩
      · exact (h.given y q' k hq' hk).imp_left Finset.mem_insert_of_mem
    · obtain ⟨a', ha', hsub, hnew⟩ := hhost y a ha
      rcases give_calls hq hk with ⟨rfl, rfl⟩ | ⟨q', hq', hk⟩
      · exact hnew rfl
      · exact hsub k (h.pending y a' q' k ha' hq' hk)
    · cases (hidle hup).symm.trans hl
  | ctorOk hp hph ht =>
    refine h.setProc hp ?_ _
    exact fun r hr => hr
  | ctorErr hp hph ht =>
    refine h.setProc hp ?_ _
    exact fun r hr => hr
  | unwritten hp hr ht => exact h.setProc hp (fun r hr => (Host.mem_drop.mp hr).1) _
  | @hostResult v p box hp hph hv ht =>
    have h1 : Ledger { s with box := box, procs := s.procs.set v.actorId (p.drop v.refId) } :=
      h.setProc hp (fun r hr => (Host.mem_drop.mp hr).1) box
    have hhost : ∀ y a, (s.hosts.modify v.actorId fun a =>
        { a with pendingRefs := a.pendingRefs.filter (· ≠ v.refId) }).get y = some a →
        ∃ a', s.hosts.get y = some a' ∧ ∀ k ∈ a'.pendingRefs, (y = v.actorId → k ≠ v.refId) →
          k ∈ a.pendingRefs := by
      intro y a ha
      rw [Table.get_modify] at ha
      split at ha
      · next hy =>
        obtain ⟨a', ha', rfl⟩ := Option.map_eq_some_iff.mp ha
        exact ⟨a', ha', fun k hk hne => by simp [hk, hne hy]⟩
      · exact ⟨a, ha, fun k hk _ => hk⟩
    refine ⟨fun y a ha => ?_, h1.given, fun y a q k ha hq hk => ?_, fun l hl y a q k ha hq hk => ?_⟩
    · obtain ⟨a', ha', -⟩ := hhost y a ha
      exact h1.known y a' ha'
    · obtain ⟨a', ha', hin⟩ := hhost y a ha
      refine hin k (h1.pending y a' q k ha' hq hk) ?_
      rintro rfl rfl
      cases (Table.get_set_self s.procs v.actorId (p.drop v.refId)).symm.trans hq
      exact (Host.mem_drop.mp hk).2 rfl
    · obtain ⟨a', ha', -⟩ := hhost y a ha
      exact h1.resumed l hl y a' q k ha' hq hk
  | reap ha ht =>
    refine ⟨fun y a hy => h.known y a (Table.get_erase_some hy).2, h.given,
      fun y a q k hy => h.pending y a q k (Table.get_erase_some hy).2,
      fun l hl y a q k hy => h.resumed l hl y a q k (Table.get_erase_some hy).2⟩
  | @resume env hd hserve =>
    refine ⟨h.known, h.given, h.pending, fun l hl x a p r ha hp hr => ?_⟩
    cases hl
    have hmem : a.resume x ∈ resumeOf env s.hosts := mem_resumeOf ha
    exact ⟨List.mem_map.mpr ⟨_, hmem, rfl⟩,
      List.mem_flatMap.mpr ⟨_, hmem, h.pending x a p r ha hp hr⟩⟩
  | unacked hd => exact ⟨h.known, h.given, h.pending, fun l hl => h.resumed l (by rw [hd]; exact hl)⟩
  | ask hd hr =>
    refine ⟨h.known, h.given, h.pending, fun l hl => h.resumed l ?_⟩
    rw [hd, ← hl, hr]
    rfl
  | giveUp => exact ⟨h.known, h.given, h.pending, fun l hl => by cases hl⟩
  | accept hd ht => exact ⟨h.known, h.given, h.pending, fun l hl => by cases hl⟩
  | _ => exact ⟨h.known, h.given, h.pending, h.resumed⟩

end Ledger

/-- What holds of the frames between the agent's threads and the daemon. -/
structure Frames (s : Relaying) : Prop where
  /-- A call with a result is no host's any more. -/
  answered : ∀ r ok error payload, s.box.Tells (.result r ok error payload) →
    r ∈ s.seen ∧ ∀ x p, s.procs.get x = some p → r ∉ p.calls
  /-- What has an actor taken for dead comes after its last entry or instead of its host's answers. -/
  buried : ∀ x msg, s.box.Tells msg → msg.buries x = true →
    ∃ p, s.procs.get x = some p ∧ (p.phase = .failed ∨ s.hosts.get x = none)

namespace Frames

/-- The hosts and the entries change, and no frame. -/
theorem of_tables (h : Frames s) (hbox : s'.box = s.box) (hseen : ∀ r ∈ s.seen, r ∈ s'.seen)
    (hcalls : ∀ x p r, s'.procs.get x = some p → r ∈ p.calls →
      r ∉ s.seen ∨ ∃ p', s.procs.get x = some p' ∧ r ∈ p'.calls)
    (hhosts : ∀ x p, s.procs.get x = some p → ∃ p', s'.procs.get x = some p' ∧
      (p.phase = .failed → p'.phase = .failed) ∧ (s.hosts.get x = none → s'.hosts.get x = none)) :
    Frames s' where
  answered r ok error payload ht := by
    obtain ⟨hr, hno⟩ := h.answered r ok error payload (hbox ▸ ht)
    refine ⟨hseen r hr, fun x p hp hc => ?_⟩
    rcases hcalls x p r hp hc with hn | ⟨p', hp', hc⟩
    · exact hn hr
    · exact hno x p' hp' hc
  buried x msg ht hb := by
    obtain ⟨p, hp, hor⟩ := h.buried x msg (hbox ▸ ht) hb
    obtain ⟨p', hp', hph, hx⟩ := hhosts x p hp
    exact ⟨p', hp', hor.imp hph hx⟩

/-- One host's row replaced. -/
theorem setProc (h : Frames s) {x : ActorId} {p p' : Host} (hp : s.procs.get x = some p)
    (hsub : ∀ r ∈ p'.calls, r ∈ p.calls) (hph : p.phase = .failed → p'.phase = .failed) :
    Frames { s with procs := s.procs.set x p' } := by
  refine h.of_tables rfl (fun r hr => hr) (fun y q r hq hr => .inr ?_) fun y q hq => ?_
  · rcases Table.get_set_some hq with ⟨rfl, rfl⟩ | ⟨-, hq⟩
    · exact ⟨p, hp, hsub r hr⟩
    · exact ⟨q, hq, hr⟩
  · by_cases hy : y = x
    · subst hy
      cases hp.symm.trans hq
      exact ⟨p', Table.get_set_self _ _ _, hph, id⟩
    · exact ⟨q, (Table.get_set_of_ne hy).trans hq, id, id⟩

/-- The agent's threads go on, and a frame that is new meets what is asked of it. -/
theorem move (h : Frames s) {a : Outbox.Act} {box : Outbox} (hm : s.box.Moved a box)
    (hnew : ∀ t msg, a = .produce t msg →
      (∀ r ok error payload, msg = .result r ok error payload →
        r ∈ s.seen ∧ ∀ x p, s.procs.get x = some p → r ∉ p.calls) ∧
      ∀ x, msg.buries x = true →
        ∃ p, s.procs.get x = some p ∧ (p.phase = .failed ∨ s.hosts.get x = none)) :
    Frames { s with box := box } where
  answered r ok error payload ht := by
    rcases hm.tells ht with ht | ⟨t, ha⟩
    · exact h.answered r ok error payload ht
    · exact (hnew t _ ha).1 r ok error payload rfl
  buried x msg ht hb := by
    rcases hm.tells ht with ht | ⟨t, ha⟩
    · exact h.buried x msg ht hb
    · exact (hnew t msg ha).2 x hb

theorem moved_of_tell {t : Speaker} {msg : FromAgent} {box : Outbox}
    (h : s.tell t msg = some box) : s.box.Moved (.produce t msg) box :=
  .of_step (Outbox.step_cases h)

/-- The host's last word on a call. -/
theorem drop_calls (hl : Ledger s) {x y : ActorId} {p q : Host} {r : RefId}
    (hp : s.procs.get x = some p) (hr : r ∈ p.calls)
    (hq : (s.procs.set x (p.drop r)).get y = some q) : r ∉ q.calls := by
  intro hc
  rcases Table.get_set_some hq with ⟨rfl, rfl⟩ | ⟨hy, hq⟩
  · exact (Host.mem_drop.mp hc).2 rfl
  · exact hy (Option.some.inj ((hl.given y q r hq hc).2.symm.trans (hl.given x p r hp hr).2))

theorem step {a : Act} (h : Frames s) (hl : Ledger s) (hs : Step cfg ops g s a s') : Frames s' := by
  cases hs with
  | @spawn x name owner gpuIds w hup hx =>
    refine h.of_tables rfl (fun r hr => hr) (fun y q r hq hr => .inr ?_) fun y q hq => ?_
    · rcases Table.get_set_some hq with ⟨-, rfl⟩ | ⟨-, hq⟩
      · cases hr
      · exact ⟨q, hq, hr⟩
    · have hy : y ≠ x := by
        rintro rfl
        cases hx.symm.trans hq
      exact ⟨q, (Table.get_set_of_ne hy).trans hq, id, fun hn => (Table.get_set_of_ne hy).trans hn⟩
  | @forked x pid =>
    refine h.of_tables rfl (fun r hr => hr) (fun y q r hq hr => .inr ?_) fun y q hq => ?_
    · replace hq : (s.procs.modify x fun p => { p with pid := pid }).get y = some q := hq
      rw [Table.get_modify] at hq
      split at hq
      · obtain ⟨q', hq', rfl⟩ := Option.map_eq_some_iff.mp hq
        exact ⟨q', hq', hr⟩
      · exact ⟨q, hq, hr⟩
    · refine ⟨if y = x then { q with pid := pid } else q, ?_, ?_, fun hn => ?_⟩
      · show (s.procs.modify x fun p => { p with pid := pid }).get y = _
        rw [Table.get_modify, hq]
        split <;> rfl
      · split <;> exact id
      · show (s.hosts.modify x fun a => { a with pid := pid }).get y = none
        rw [Table.get_modify, hn]
        split <;> rfl
  | @dispatch x r ok w hup hr hx =>
    refine h.of_tables rfl (fun k hk => Finset.mem_insert_of_mem hk) (fun y q k hq hk => ?_)
      fun y q hq => ?_
    · rcases give_calls hq hk with ⟨-, rfl⟩ | hold
      · exact .inl hr
      · exact .inr hold
    · obtain ⟨q', hq', hph⟩ : ∃ q', (s.give x r ok).get y = some q' ∧ q'.phase = q.phase :=
        give_known hq
      refine ⟨q', hq', fun hf => hph.trans hf, fun hn => ?_⟩
      show (s.hosts.modify x fun a => { a with pendingRefs := a.pendingRefs.insert r }).get y = none
      rw [Table.get_modify, hn]
      split <;> rfl
  | ctorOk hp hph ht =>
    refine (h.move (moved_of_tell ht) fun t msg he => ?_).setProc hp (fun r hr => hr) fun hf => ?_
    · cases he
      exact ⟨fun _ _ _ _ he => (by cases he), fun x hb => (by simp [FromAgent.buries] at hb)⟩
    · cases hph.symm.trans hf
  | @ctorErr x p error box hp hph ht =>
    have h1 : Frames { s with procs := s.procs.set x { p with phase := .failed } } :=
      h.setProc hp (fun r hr => hr) fun _ => rfl
    refine h1.move (moved_of_tell ht) fun t msg he => ?_
    cases he
    refine ⟨fun _ _ _ _ he => (by cases he), fun y hb => ?_⟩
    simp only [FromAgent.buries, Bool.not_false, Bool.and_true, beq_iff_eq] at hb
    refine ⟨{ p with phase := .failed }, ?_, .inl rfl⟩
    rw [← hb]
    exact Table.get_set_self _ _ _
  | @unwritten x r p box hp hr ht =>
    have h1 : Frames { s with procs := s.procs.set x (p.drop r) } :=
      h.setProc hp (fun k hk => (Host.mem_drop.mp hk).1) id
    refine h1.move (moved_of_tell ht) fun t msg he => ?_
    cases he
    refine ⟨fun k ok error payload he => ?_, fun y hb => (by cases hb)⟩
    cases he
    exact ⟨(hl.given x p r hp hr).1, fun y q hq => drop_calls hl hp hr hq⟩
  | @hostResult v p box hp hph hv ht =>
    have h1 : Frames { s with procs := s.procs.set v.actorId (p.drop v.refId) } :=
      h.setProc hp (fun k hk => (Host.mem_drop.mp hk).1) id
    have h2 : Frames { s with box := box, procs := s.procs.set v.actorId (p.drop v.refId) } := by
      refine h1.move (moved_of_tell ht) fun t msg he => ?_
      cases he
      refine ⟨fun k ok error payload he => ?_, fun y hb => (by cases hb)⟩
      cases he
      exact ⟨(hl.given v.actorId p v.refId hp hv).1, fun y q hq => drop_calls hl hp hv hq⟩
    refine h2.of_tables rfl (fun k hk => hk) (fun y q k hq hk => .inr ⟨q, hq, hk⟩) fun y q hq => ?_
    refine ⟨q, hq, id, fun hn => ?_⟩
    replace hn : s.hosts.get y = none := hn
    show (s.hosts.modify v.actorId fun a =>
      { a with pendingRefs := a.pendingRefs.filter (· ≠ v.refId) }).get y = none
    rw [Table.get_modify, hn]
    split <;> rfl
  | @reap x exitCode signal a box ha ht =>
    have h1 : Frames { s with hosts := s.hosts.erase x } := by
      refine h.of_tables rfl (fun k hk => hk) (fun y q k hq hk => .inr ⟨q, hq, hk⟩) fun y q hq => ?_
      refine ⟨q, hq, id, fun hn => ?_⟩
      show (s.hosts.erase x).get y = none
      rw [Table.get_erase]
      split
      · rfl
      · exact hn
    refine h1.move (moved_of_tell ht) fun t msg he => ?_
    cases he
    refine ⟨fun _ _ _ _ he => (by cases he), fun y hb => ?_⟩
    simp only [FromAgent.buries, beq_iff_eq] at hb
    obtain ⟨p, hp⟩ := hl.known x a ha
    exact ⟨p, hb ▸ hp, .inr (hb ▸ Table.get_erase_self _ _)⟩
  | @send a box ha ht =>
    refine h.move (.of_step (Outbox.step_cases ht)) fun t msg he => ?_
    rw [he] at ha
    cases ha
  | accept hd ht =>
    have h1 := h.move (.of_step (Outbox.step_cases ht)) fun t msg he => by cases he
    exact ⟨h1.answered, h1.buried⟩
  | _ => exact ⟨h.answered, h.buried⟩

end Frames

/-- What holds of the links. -/
structure Lines (s : Relaying) : Prop where
  links : s.box.Links
  read : ∀ w, s.read w ≤ (s.box.written w).length
  down : s.dial ≠ .idle → s.box.serving = .down
  asked : ∀ w r r', s.dial = .asking w r → s.asked.get w = some r' → r' = r

/-- The step of the agent's threads that is part of a step. -/
structure BoxStep (s : Relaying) (a : Act) (b : Outbox.Act) (s' : Relaying) : Prop where
  step : Outbox.Step s.box b s'.box
  publish : ∀ w, b = .publish w → s'.dial = .idle
  writes : ∀ m w, s.box.writes b = some (m, w) → a = .send b
  produce : ∀ t r ok error payload, b = .produce t (.result r ok error payload) →
    ∃ x p, s.procs.get x = some p ∧ r ∈ p.calls

/-- The agent's threads stay as they are, or take a step of their own. -/
theorem box_step {a : Act} (hs : Step cfg ops g s a s') :
    s'.box = s.box ∨ ∃ b, BoxStep s a b s' := by
  cases hs with
  | ctorOk hp hph ht =>
    exact .inr ⟨_, Outbox.step_cases ht, fun w he => (by cases he), fun m w hw => (by cases hw),
      fun t r ok error payload he => (by cases he)⟩
  | ctorErr hp hph ht =>
    exact .inr ⟨_, Outbox.step_cases ht, fun w he => (by cases he), fun m w hw => (by cases hw),
      fun t r ok error payload he => (by cases he)⟩
  | unwritten hp hr ht =>
    refine .inr ⟨_, Outbox.step_cases ht, fun w he => (by cases he), fun m w hw => (by cases hw),
      fun t r ok error payload he => ?_⟩
    cases he
    exact ⟨_, _, hp, hr⟩
  | hostResult hp hph hv ht =>
    refine .inr ⟨_, Outbox.step_cases ht, fun w he => (by cases he), fun m w hw => (by cases hw),
      fun t r ok error payload he => ?_⟩
    cases he
    exact ⟨_, _, hp, hv⟩
  | reap ha ht =>
    exact .inr ⟨_, Outbox.step_cases ht, fun w he => (by cases he), fun m w hw => (by cases hw),
      fun t r ok error payload he => (by cases he)⟩
  | @send b box hb ht =>
    refine .inr ⟨b, Outbox.step_cases ht, fun w he => ?_, fun m w hw => rfl,
      fun t r ok error payload he => ?_⟩
    · rw [he] at hb
      cases hb
    · rw [he] at hb
      cases hb
  | accept hd ht =>
    exact .inr ⟨_, Outbox.step_cases ht, fun w he => rfl, fun m w hw => (by cases hw),
      fun t r ok error payload he => (by cases he)⟩
  | _ => exact .inl rfl

namespace Lines

theorem step {a : Act} (h : Lines s) (hs : Step cfg ops g s a s') : Lines s' := by
  have hwritten : ∀ w, (s.box.written w).length ≤ (s'.box.written w).length := by
    intro w
    rcases box_step hs with he | ⟨b, hb⟩
    · rw [he]
    · rcases (Outbox.Moved.of_step hb.step).written with he | ⟨m, v, -, -, he⟩
      · rw [he]
      · rw [he, Outbox.write]
        by_cases hv : w = v
        · simp [hv]
        · simp [hv]
  refine ⟨?_, fun w => ?_, fun hd => ?_, fun w r r' hd hr => ?_⟩
  · rcases box_step hs with he | ⟨b, hb⟩
    · rw [he]
      exact h.links
    · exact h.links.step hb.step
  · refine le_trans ?_ (hwritten w)
    cases hs with
    | @frame env v m l hu =>
      show Function.update s.read v (s.read v + 1) w ≤ (s.box.written w).length
      by_cases hv : w = v
      · subst hv
        rw [Function.update_self]
        have hlen := congrArg List.length hu
        simp only [unread, List.length_drop, List.length_cons] at hlen
        omega
      · rw [Function.update_of_ne hv]
        exact h.read w
    | _ => exact h.read w
  · have hdown : s.box.serving = .down := by
      cases hs with
      | resume hd' hserve => exact hserve
      | unacked hd' => exact h.down (by rw [hd']; exact Dial.noConfusion)
      | ask hd' hr => exact h.down (by rw [hd']; exact Dial.noConfusion)
      | giveUp => exact absurd rfl hd
      | accept hd' ht => exact absurd rfl hd
      | _ => exact h.down hd
    rcases box_step hs with he | ⟨b, hb⟩
    · rw [he, hdown]
    · exact Outbox.serving_down hdown hb.step fun w he => hd (hb.publish w he)
  · cases hs with
    | ask hd' hr' =>
      cases hd
      exact (Option.some.inj ((Table.get_set_self _ _ _).symm.trans hr)).symm
    | register ha hf => exact h.asked w r r' hd (Table.get_erase_some hr).2
    | refuse => exact h.asked w r r' hd (Table.get_erase_some hr).2
    | resume hd' hserve => cases hd
    | unacked hd' => cases hd
    | giveUp => cases hd
    | accept hd' ht => cases hd
    | _ => exact h.asked w r r' hd hr

end Lines

/-- A run of the agent and the daemon is one of the daemon. -/
theorem reach_daemon (h : (relaying cfg ops g).Reach System.Free s) :
    (daemon cfg ops).Reach System.Free s.st := by
  refine h.map (f := Relaying.st) ?_ ?_
  · rintro s ⟨nodeId, nodeIp, controlAddr, box, -, rfl⟩
    exact ⟨nodeId, nodeIp, controlAddr, rfl⟩
  · intro s a s' _ hn
    have hdaemon : ∀ (env : Env) (sec : Section), sec.fresh s.st = true →
        (daemon cfg ops).next s.st (env, sec) = some (exec cfg ops env s.st sec) := by
      intro env sec hf
      simp [daemon, hf]
    cases step_cases hn with
    | head hf ho => exact .inr ⟨_, rfl, hdaemon _ _ hf⟩
    | register ha hf => exact .inr ⟨_, rfl, hdaemon _ _ hf⟩
    | @frame env w m l hu => exact .inr ⟨_, rfl, hdaemon env (.agentFrame g m.msg) rfl⟩
    | @eof env w => exact .inr ⟨_, rfl, hdaemon env (.agentEof g w) rfl⟩
    | _ => exact .inl rfl

/-- What holds of every run. -/
theorem reach_sound (h : (relaying cfg ops g).Reach System.Free s) : Ledger s ∧ Frames s ∧ Lines s := by
  refine h.invariant (I := fun s => Ledger s ∧ Frames s ∧ Lines s) ?_ ?_
  · rintro s ⟨nodeId, nodeIp, controlAddr, box, rfl, rfl⟩
    have hno : ∀ msg, ¬ Outbox.Tells ⟨none, [], ∅, .down, ∅, 0, 0, fun _ => [], fun _ => [], fun _ => 0⟩
        msg := by
      rintro msg ⟨m, -, ⟨t, ht⟩ | (hm | hm) | ⟨w, hm⟩⟩
      · cases ht
      · cases hm
      · cases hm
      · cases hm
    refine ⟨⟨fun x a ha => ?_, fun x p r hp => ?_, fun x a p r ha => ?_, fun l hl => ?_⟩,
      ⟨fun r ok error payload ht => absurd ht (hno _), fun x msg ht => absurd ht (hno _)⟩,
      ⟨⟨rfl, fun w hw => ?_, fun t m w hg => ?_, fun _ _ => rfl⟩, fun w => le_refl 0, fun _ => rfl,
        fun w r r' hd => ?_⟩⟩
    · cases ha
    · cases hp
    · cases ha
    · cases hl
    · cases hw
    · cases hg
    · cases hd
  · rintro s a s' ⟨hl, hf, hn⟩ - hs
    have hs := step_cases hs
    exact ⟨hl.step hn.down hs, hf.step hl hs, hn.step hs⟩

end Relaying

end Mentat
