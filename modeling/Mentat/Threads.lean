import Mentat.Daemon.Section

/-!
# Client connections as threads

`client_conn`, `reap_client` and `reap_client_resources` as the threads that run them: a
connection has a phase, and each of its steps is one section that moves it to the next. Between
two steps of a connection any other thread may run, the connection's own client included over
another socket.

* A connection kills the orphans its hello found before it reads a request.
* `actor_stop` is a series of `killActor` requests, one section each.
* The timer of a deferred reap is the connection itself in phase `armed`: nothing bounds when it
  fires.
* Every section that is not a client connection's may run at any time.

`Step` lists what a step can be, and `plan` is the same as a function, for running.
-/

namespace Mentat

/-- Where a connection's thread is. -/
inductive Phase where
  /-- The orphans of its hello that are still to be killed. -/
  | killing (orphans : List ActorId)
  | serving
  /-- After the end of the stream, with whether the head had moved by then. -/
  | closed (moved : Bool)
  /-- `reap_client` has removed the client's row. -/
  | unlisted (group : String)
  /-- A deferred reap waits out the grace. -/
  | armed (group : String) (token : Nat)
  /-- A reap goes ahead, with the actors that are still to be killed. -/
  | reaping (actors : List ActorId)
deriving DecidableEq, Repr

namespace Phase

/-- The phase with these orphans left to kill. -/
def ofOrphans : List ActorId → Phase
  | [] => .serving
  | x :: ids => .killing (x :: ids)

/-- The connection is open: the end of its stream has not been seen. -/
def isOpen : Phase → Bool
  | .killing _ => true
  | .serving => true
  | _ => false

def isReaping : Phase → Bool
  | .reaping _ => true
  | _ => false

def isUnlisted : Phase → Bool
  | .unlisted _ => true
  | _ => false

/-- The stream has ended and the reap of it is not yet armed. -/
def isClosing : Phase → Bool
  | .closed _ => true
  | .unlisted _ => true
  | _ => false

/-- The actors the thread has listed and not yet killed. -/
def kills : Phase → List ActorId
  | .killing ids => ids
  | .reaping ids => ids
  | _ => []

/-- The orphans of its hello that the thread has not yet killed. -/
def orphans : Phase → List ActorId
  | .killing ids => ids
  | _ => []

@[simp] theorem ofOrphans_isReaping (ids : List ActorId) : (ofOrphans ids).isReaping = false := by
  cases ids <;> rfl

@[simp] theorem ofOrphans_isClosing (ids : List ActorId) : (ofOrphans ids).isClosing = false := by
  cases ids <;> rfl

@[simp] theorem ofOrphans_kills (ids : List ActorId) : (ofOrphans ids).kills = ids := by
  cases ids <;> rfl

@[simp] theorem ofOrphans_orphans (ids : List ActorId) : (ofOrphans ids).orphans = ids := by
  cases ids <;> rfl

end Phase

structure Conn where
  client : ClientId
  session : Bool
  phase : Phase

/-- The daemon and its client connections, each under its socket. -/
structure Sys where
  st : State
  conns : Table FrameWriter Conn

/-- Whose turn it is. -/
inductive Act where
  | hello (w : FrameWriter) (h : Hello)
  | orphan (w : FrameWriter)
  | request (w : FrameWriter) (sec : Section)
  | eof (w : FrameWriter)
  | drop (w : FrameWriter)
  | unlist (w : FrameWriter)
  | arm (w : FrameWriter)
  | check (w : FrameWriter)
  | reapKill (w : FrameWriter)
  | finish (w : FrameWriter)
  | background (sec : Section)

/-- The sections a request of client `c` may run. -/
def Section.byClient (c : ClientId) : Section → Bool
  | .claim client _ _ => client == c
  | .pgCreate r => r.client == c
  | .pgRemove _ => true
  | .actorCreate r => r.client == c
  | .actorCall r => r.client == c
  | .killActor _ => true
  | _ => false

/-- The sections of the other threads. -/
def Section.isBackground : Section → Bool
  | .register _ _ => true
  | .agentFrame _ _ => true
  | .agentEof _ _ => true
  | .sweepLifecycle => true
  | .elect _ => true
  | .commitIslands _ => true
  | .peers _ => true
  | _ => false

/-- The step that ends a reap's wait: after the grace with its token, at once without a grace. -/
def Conn.reapDue (cfg : Cfg) (c : Conn) : Option (String × Option Nat) :=
  match c.phase with
  | .armed group token => some (group, some token)
  | .unlisted group => if cfg.sessionReapGraceMs = 0 then some (group, none) else none
  | _ => none

/-- A connection whose reap is due lists nothing yet. -/
theorem reapDue_kills {cfg : Cfg} {c : Conn} {due : String × Option Nat}
    (h : c.reapDue cfg = some due) : c.phase.kills = [] := by
  unfold Conn.reapDue at h
  split at h
  · next hp => rw [hp]; rfl
  · next hp => rw [hp]; rfl
  · cases h

/-- A reap with a token has been armed. -/
theorem reapDue_token {cfg : Cfg} {c : Conn} {g : String} {n : Nat}
    (h : c.reapDue cfg = some (g, some n)) : c.phase.isUnlisted = false := by
  unfold Conn.reapDue at h
  split at h
  · next hp => rw [hp]; rfl
  · split at h <;> cases h
  · cases h

/-- What a step can be: the section it runs, and the connections after it. -/
inductive Step (cfg : Cfg) (env : Env) (s : Sys) :
    Act → Section → Table FrameWriter Conn → Prop
  | refused {w : FrameWriter} {h : Hello} : hello env s.st w h = none →
      Step cfg env s (.hello w h) (.hello w h) s.conns
  | opened {w : FrameWriter} {h : Hello} {st' : State} {orphans : List ActorId} :
      s.conns.get w = none → hello env s.st w h = some (st', orphans) →
      Step cfg env s (.hello w h) (.hello w h)
        (s.conns.set w ⟨h.clientId, h.session, .ofOrphans orphans⟩)
  | orphan {w : FrameWriter} {c : Conn} {x : ActorId} {ids : List ActorId} :
      s.conns.get w = some c → c.phase = .killing (x :: ids) →
      Step cfg env s (.orphan w) (.killActor x) (s.conns.set w { c with phase := .ofOrphans ids })
  | request {w : FrameWriter} {c : Conn} {sec : Section} : s.conns.get w = some c →
      c.phase = .serving → sec.byClient c.client = true →
      Step cfg env s (.request w sec) sec s.conns
  | eof {w : FrameWriter} {c : Conn} : s.conns.get w = some c → c.phase = .serving →
      Step cfg env s (.eof w) (.closeLink w) (s.conns.set w { c with phase := .closed (moved s.st) })
  | drop {w : FrameWriter} {c : Conn} {m : Bool} : s.conns.get w = some c → c.phase = .closed m →
      (c.session && !m) = false → Step cfg env s (.drop w) (.dropRow c.client m) (s.conns.erase w)
  | unlist {w : FrameWriter} {c : Conn} {m : Bool} : s.conns.get w = some c →
      c.phase = .closed m → (c.session && !m) = true →
      Step cfg env s (.unlist w) (.reapRow c.client)
        (s.conns.set w { c with phase := .unlisted (clientGroup s.st c.client) })
  | arm {w : FrameWriter} {c : Conn} {group : String} : s.conns.get w = some c →
      c.phase = .unlisted group → cfg.sessionReapGraceMs ≠ 0 →
      Step cfg env s (.arm w) (.reapArm c.client)
        (s.conns.set w { c with phase := .armed group s.st.nextReap })
  | checkDone {w : FrameWriter} {c : Conn} {group : String} {token : Option Nat} :
      s.conns.get w = some c → c.reapDue cfg = some (group, token) →
      (reapCheck env s.st c.client group token).2 = none →
      Step cfg env s (.check w) (.reapCheck c.client group token) (s.conns.erase w)
  | checkReap {w : FrameWriter} {c : Conn} {group : String} {token : Option Nat}
      {ids : List ActorId} : s.conns.get w = some c → c.reapDue cfg = some (group, token) →
      (reapCheck env s.st c.client group token).2 = some ids →
      Step cfg env s (.check w) (.reapCheck c.client group token)
        (s.conns.set w { c with phase := .reaping ids })
  | reapKill {w : FrameWriter} {c : Conn} {x : ActorId} {ids : List ActorId} :
      s.conns.get w = some c → c.phase = .reaping (x :: ids) →
      Step cfg env s (.reapKill w) (.killActor x) (s.conns.set w { c with phase := .reaping ids })
  | finish {w : FrameWriter} {c : Conn} : s.conns.get w = some c → c.phase = .reaping [] →
      Step cfg env s (.finish w) (.reapFinish c.client) (s.conns.erase w)
  | background {sec : Section} : sec.isBackground = true →
      Step cfg env s (.background sec) sec s.conns

/-- One step as a function. -/
def plan (cfg : Cfg) (env : Env) (s : Sys) : Act → Option (Section × Table FrameWriter Conn)
  | .hello w h => match hello env s.st w h with
    | none => some (.hello w h, s.conns)
    | some (_, orphans) =>
      if s.conns.has w then none
      else some (.hello w h, s.conns.set w ⟨h.clientId, h.session, .ofOrphans orphans⟩)
  | .orphan w => (s.conns.get w).bind fun c => match c.phase with
    | .killing (x :: ids) => some (.killActor x, s.conns.set w { c with phase := .ofOrphans ids })
    | _ => none
  | .request w sec => (s.conns.get w).bind fun c => match c.phase with
    | .serving => if sec.byClient c.client then some (sec, s.conns) else none
    | _ => none
  | .eof w => (s.conns.get w).bind fun c => match c.phase with
    | .serving => some (.closeLink w, s.conns.set w { c with phase := .closed (moved s.st) })
    | _ => none
  | .drop w => (s.conns.get w).bind fun c => match c.phase with
    | .closed m => if c.session && !m then none else some (.dropRow c.client m, s.conns.erase w)
    | _ => none
  | .unlist w => (s.conns.get w).bind fun c => match c.phase with
    | .closed m =>
      if c.session && !m then
        some (.reapRow c.client,
          s.conns.set w { c with phase := .unlisted (clientGroup s.st c.client) })
      else none
    | _ => none
  | .arm w => (s.conns.get w).bind fun c => match c.phase with
    | .unlisted group =>
      if cfg.sessionReapGraceMs = 0 then none
      else some (.reapArm c.client, s.conns.set w { c with phase := .armed group s.st.nextReap })
    | _ => none
  | .check w => (s.conns.get w).bind fun c => (c.reapDue cfg).map fun (group, token) =>
    (.reapCheck c.client group token,
      match (reapCheck env s.st c.client group token).2 with
      | none => s.conns.erase w
      | some ids => s.conns.set w { c with phase := .reaping ids })
  | .reapKill w => (s.conns.get w).bind fun c => match c.phase with
    | .reaping (x :: ids) => some (.killActor x, s.conns.set w { c with phase := .reaping ids })
    | _ => none
  | .finish w => (s.conns.get w).bind fun c => match c.phase with
    | .reaping [] => some (.reapFinish c.client, s.conns.erase w)
    | _ => none
  | .background sec => if sec.isBackground then some (sec, s.conns) else none

/-- An actor has one owner for life: its id is drawn once, and its agent reports the owner it was
given with the spawn. -/
def Section.owned (ownerOf : ActorId → ClientId) : Section → Bool
  | .actorCreate r => ownerOf r.actorId == r.client
  | .register _ r => r.resume.all fun x => x.owner == ownerOf x.actorId
  | _ => true

section Threads

variable (cfg : Cfg) (ops : ClaimOps) (ownerOf : ActorId → ClientId)

/-- Every interleaving of the threads, from boot. -/
def threads : System Sys (Env × Act) where
  init s := (daemon cfg ops).init s.st ∧ s.conns = ∅
  next s l := (plan cfg l.1 s l.2).bind fun (sec, conns) =>
    if sec.fresh s.st && sec.owned ownerOf then some ⟨exec cfg ops l.1 s.st sec, conns⟩ else none

variable {cfg ops ownerOf}

theorem plan_step {env : Env} {s : Sys} {a : Act} {sec : Section} {conns : Table FrameWriter Conn}
    (h : plan cfg env s a = some (sec, conns)) : Step cfg env s a sec conns := by
  cases a with
  | hello w hello =>
    simp only [plan] at h
    split at h
    · next hh =>
      cases h
      exact .refused hh
    · next st' orphans hh =>
      split at h
      · cases h
      · next hw =>
        cases h
        exact .opened (Table.has_eq_false.mp (Bool.eq_false_iff.mpr hw)) hh
  | background sec' =>
    simp only [plan] at h
    split at h
    · next hb =>
      cases h
      exact .background hb
    · cases h
  | check w =>
    simp only [plan, Option.bind_eq_some_iff, Option.map_eq_some_iff] at h
    obtain ⟨c, hc, ⟨group, token⟩, hdue, he⟩ := h
    cases hr : (reapCheck env s.st c.client group token).2 with
    | none =>
      simp only [hr] at he
      cases he
      exact .checkDone hc hdue hr
    | some ids =>
      simp only [hr] at he
      cases he
      exact .checkReap hc hdue hr
  | orphan w =>
    obtain ⟨c, hc, h⟩ := Option.bind_eq_some_iff.mp h
    split at h
    · next hp =>
      cases h
      exact .orphan hc hp
    · cases h
  | request w sec' =>
    obtain ⟨c, hc, h⟩ := Option.bind_eq_some_iff.mp h
    split at h
    · next hp =>
      split at h
      · next hb =>
        cases h
        exact .request hc hp hb
      · cases h
    · cases h
  | eof w =>
    obtain ⟨c, hc, h⟩ := Option.bind_eq_some_iff.mp h
    split at h
    · next hp =>
      cases h
      exact .eof hc hp
    · cases h
  | drop w =>
    obtain ⟨c, hc, h⟩ := Option.bind_eq_some_iff.mp h
    split at h
    · next m hp =>
      split at h
      · cases h
      · next hm =>
        cases h
        exact .drop hc hp (Bool.eq_false_iff.mpr hm)
    · cases h
  | unlist w =>
    obtain ⟨c, hc, h⟩ := Option.bind_eq_some_iff.mp h
    split at h
    · next m hp =>
      split at h
      · next hm =>
        cases h
        exact .unlist hc hp hm
      · cases h
    · cases h
  | arm w =>
    obtain ⟨c, hc, h⟩ := Option.bind_eq_some_iff.mp h
    split at h
    · next group hp =>
      split at h
      · cases h
      · next hg =>
        cases h
        exact .arm hc hp hg
    · cases h
  | reapKill w =>
    obtain ⟨c, hc, h⟩ := Option.bind_eq_some_iff.mp h
    split at h
    · next hp =>
      cases h
      exact .reapKill hc hp
    · cases h
  | finish w =>
    obtain ⟨c, hc, h⟩ := Option.bind_eq_some_iff.mp h
    split at h
    · next hp =>
      cases h
      exact .finish hc hp
    · cases h

theorem threads_plan {s s' : Sys} {l : Env × Act}
    (h : (threads cfg ops ownerOf).next s l = some s') :
    ∃ sec conns, plan cfg l.1 s l.2 = some (sec, conns) ∧ sec.fresh s.st = true ∧
      sec.owned ownerOf = true ∧ s' = ⟨exec cfg ops l.1 s.st sec, conns⟩ := by
  simp only [threads, Option.bind_eq_some_iff] at h
  obtain ⟨⟨sec, conns⟩, hp, h⟩ := h
  split at h
  · next hf =>
    cases h
    rw [Bool.and_eq_true] at hf
    exact ⟨sec, conns, hp, hf.1, hf.2, rfl⟩
  · cases h

/-- A step of the system is one section of one thread. -/
theorem threads_next {s s' : Sys} {l : Env × Act}
    (h : (threads cfg ops ownerOf).next s l = some s') :
    ∃ sec conns, Step cfg l.1 s l.2 sec conns ∧ sec.fresh s.st = true ∧
      sec.owned ownerOf = true ∧ s' = ⟨exec cfg ops l.1 s.st sec, conns⟩ := by
  obtain ⟨sec, conns, hp, h⟩ := threads_plan h
  exact ⟨sec, conns, plan_step hp, h⟩

/-- A connection of some kind is still there when another one moves on or goes. -/
theorem conn_stays {s : Sys} {w : FrameWriter} {c : Conn} {conns : Table FrameWriter Conn}
    {kind : Conn → Prop} (hw : s.conns.get w = some c)
    (hconns : (∃ c', conns = s.conns.set w c') ∨ conns = s.conns.erase w) (hno : ¬ kind c)
    (h : ∃ w c, s.conns.get w = some c ∧ kind c) : ∃ w c, conns.get w = some c ∧ kind c := by
  obtain ⟨w1, c1, hw1, hk⟩ := h
  have hne : w1 ≠ w := by
    rintro rfl
    cases hw.symm.trans hw1
    exact hno hk
  refine ⟨w1, c1, ?_, hk⟩
  rcases hconns with ⟨c', rfl⟩ | rfl
  · exact (Table.get_set_of_ne hne).trans hw1
  · rw [Table.get_erase, if_neg hne, hw1]

/-- A connection of some kind is still there when a new one opens. -/
theorem opened_stays {s : Sys} {w : FrameWriter} {c' : Conn} {kind : Conn → Prop}
    (hw : s.conns.get w = none) (h : ∃ w c, s.conns.get w = some c ∧ kind c) :
    ∃ w1 c1, (s.conns.set w c').get w1 = some c1 ∧ kind c1 := by
  obtain ⟨w1, c1, hw1, hk⟩ := h
  refine ⟨w1, c1, (Table.get_set_of_ne ?_).trans hw1, hk⟩
  rintro rfl
  cases hw.symm.trans hw1

/-! ## What every interleaving keeps -/

/-- The daemon on its own reaches what it reaches among its threads. -/
theorem threads_daemon {ok : Sys → Env × Act → Bool} {s : Sys}
    (h : (threads cfg ops ownerOf).Reach ok s) : (daemon cfg ops).Reach System.Free s.st := by
  refine h.map (T := daemon cfg ops) (f := Sys.st) (fun s hs => hs.1) ?_
  intro s l s' _ hn
  obtain ⟨sec, conns, -, hf, -, rfl⟩ := threads_next hn
  exact .inr ⟨(l.1, sec), rfl, by simp only [daemon, hf, if_true]⟩

/-- Every row names the one owner its actor has. -/
theorem threads_owner {ok : Sys → Env × Act → Bool} {s : Sys}
    (h : (threads cfg ops ownerOf).Reach ok s) {x : ActorId} {a : ActorInfo}
    (hx : s.st.actors.get x = some a) : a.owner = ownerOf x := by
  refine h.invariant (I := fun s => ∀ x a, s.st.actors.get x = some a → a.owner = ownerOf x)
    ?_ ?_ x a hx
  · rintro s ⟨⟨_, _, _, hs⟩, -⟩ x a hx
    rw [hs] at hx
    cases hx
  · intro s l s' ih _ hn x a hx
    obtain ⟨sec, conns, -, -, ho, rfl⟩ := threads_next hn
    rcases exec_actor cfg ops l.1 hx with ⟨a0, ha0, hl⟩ | ⟨r, _, _, _, rfl, hid, -, hl⟩ |
      ⟨w, r, y, rfl, -, hy, hyx, hl⟩
    · rw [hl.owner]
      exact ih x a0 ha0
    · rw [hl.owner, ← hid]
      simp only [Section.owned, beq_iff_eq] at ho
      exact ho.symm
    · rw [hl.owner, ← hyx]
      simp only [Section.owned, List.all_eq_true, beq_iff_eq] at ho
      exact ho y hy

/-! ## A daemon that stays head -/

/-- The step is taken by a daemon that is head, or elects it. -/
def Act.asHead (s : Sys) : Act → Bool
  | .background (.elect candidate) => candidate == s.st.nodeId
  | .background _ => true
  | _ => s.st.headNodeId == s.st.nodeId

theorem byClient_clients {st : State} {sec : Section} {c : ClientId} (h : sec.byClient c = true) :
    sec.clientsAfter st = st.clients ∧ sec.timersAfter st = st.reapPending ∧
      sec.headAfter st = st.headNodeId ∧ sec.nextReapAfter st = st.nextReap := by
  cases sec <;> first | exact ⟨rfl, rfl, rfl, rfl⟩ | cases h

theorem background_clients {s : Sys} {sec : Section} (hb : sec.isBackground = true)
    (hh : Act.asHead s (.background sec) = true) : sec.clientsAfter s.st = s.st.clients := by
  cases sec with
  | elect candidate =>
    simp only [Act.asHead, beq_iff_eq] at hh
    simp only [Section.clientsAfter, if_pos hh]
  | _ => first | rfl | cases hb

theorem background_timers {st : State} {sec : Section} (hb : sec.isBackground = true) :
    sec.timersAfter st = st.reapPending ∧ sec.nextReapAfter st = st.nextReap := by
  cases sec <;> first | exact ⟨rfl, rfl⟩ | cases hb

/-- While there are connections the daemon is head, so none was cut by a head change. -/
structure Headed (s : Sys) : Prop where
  head {w : FrameWriter} {c : Conn} : s.conns.get w = some c → s.st.headNodeId = s.st.nodeId
  here {w : FrameWriter} {c : Conn} {m : Bool} : s.conns.get w = some c → c.phase = .closed m →
    m = false

theorem Headed.step {s s' : Sys} {l : Env × Act} (h : Headed s) (hok : l.2.asHead s = true)
    (hn : (threads cfg ops ownerOf).next s l = some s') : Headed s' := by
  obtain ⟨sec, conns, hstep, -, -, rfl⟩ := threads_next hn
  obtain ⟨env, a⟩ := l
  simp only at hstep hok
  -- The head after the step: as before, or this node.
  have hstay : s.st.headNodeId = s.st.nodeId →
      (exec cfg ops env s.st sec).headNodeId = (exec cfg ops env s.st sec).nodeId := by
    intro hs
    rw [exec_headNodeId, exec_nodeId]
    cases hstep with
    | request hw hp hb => exact (byClient_clients hb).2.2.1.trans hs
    | background hb =>
      cases sec with
      | elect candidate =>
        simp only [Act.asHead, beq_iff_eq] at hok
        exact hok
      | _ => exact hs
    | _ => exact hs
  constructor
  · intro w' c' hw'
    cases hstep with
    | refused hh => exact hstay (h.head hw')
    | opened hw hh => exact hstay (by simpa [Act.asHead] using hok)
    | background hb => exact hstay (h.head hw')
    | orphan hw _ | request hw _ _ | eof hw _ | drop hw _ _ | unlist hw _ _ | arm hw _ _
    | checkDone hw _ _ | checkReap hw _ _ | reapKill hw _ | finish hw _ => exact hstay (h.head hw)
  · intro w' c' m hw' hp'
    cases hstep with
    | refused _ | request _ _ _ | background _ => exact h.here hw' hp'
    | drop _ _ _ | checkDone _ _ _ | finish _ _ => exact h.here (Table.get_erase_some hw').2 hp'
    | eof hw hp =>
      rcases Table.get_set_some hw' with ⟨rfl, rfl⟩ | ⟨-, hw'⟩
      · cases hp'
        simp [moved, h.head hw]
      · exact h.here hw' hp'
    | opened _ _ | orphan _ _ =>
      rcases Table.get_set_some hw' with ⟨rfl, rfl⟩ | ⟨-, hw'⟩
      · have hc := congrArg Phase.isClosing hp'
        rw [Phase.ofOrphans_isClosing] at hc
        cases hc
      · exact h.here hw' hp'
    | unlist _ _ _ | arm _ _ _ | checkReap _ _ _ | reapKill _ _ =>
      rcases Table.get_set_some hw' with ⟨rfl, rfl⟩ | ⟨-, hw'⟩
      · cases hp'
      · exact h.here hw' hp'

end Threads

end Mentat
