import Mentat.PendingCalls
import Mentat.Threads

/-!
# Calls across a head change

A new head knows a call once the call's agent has registered. Until then the ref is unknown, and a
driver that reads it as finished takes its worker for dead. `unknown_ref_window` has the daemon
hold such a ref pending for as long as an agent may still come.

* `doGet`, `doWait`: one pass of the loops of `do_get` and `do_wait` under the mutex. Between two
  passes any section may run.
* `answering`: the daemon's threads from the moment it becomes head without rows, with passes of
  gets and waits anywhere among the sections, and the replies given so far.
* `Watch.admits`: the run of one call of one actor: its agent registers once, in the window and with
  the call in its report, stays connected, and the call's end has not reached the daemon.
* `no_false_death`: no reply of such a run ends the call.
-/

namespace Mentat

/-! ## `do_get` and `do_wait` -/

/-- How long an unknown ref may yet arrive, or none once it cannot. -/
def unknownRefWindow (cfg : Cfg) (env : Env) (st : State) : Option Nat :=
  st.headSinceMs.bind fun since =>
    let left := since + cfg.agentDeadAfterMs - env.now
    if 0 < left then some left else none

inductive GetStatus where
  | ok
  | error
  | actorDied
  | timeout
deriving DecidableEq, Repr

/-- The reply to a get. -/
inductive GetReply where
  | refGetOk (status : GetStatus) (reason : String) (payload : Payload)
  | refused (code text : String)
deriving DecidableEq, Repr

section Passes

variable (cfg : Cfg) (env : Env) (st : State)

/-- One pass of a get, none when it waits on. `expired` says that its deadline has come. -/
def doGet (refId : RefId) (expired : Bool) : Option GetReply :=
  let res := resolveRef st refId
  let res := if res = .unknown ∧ (unknownRefWindow cfg env st).isSome then .pending else res
  match res with
  | .ready ok payload => some (.refGetOk (if ok then .ok else .error) "" payload)
  | .actorDied reason => some (.refGetOk .actorDied reason [])
  | .unknown => some (.refused "unknown_ref" ("unknown ref " ++ refId))
  | .pending => if expired then some (.refGetOk .timeout "" []) else none

/-- What a wait counts as ready. -/
def isReady (refId : RefId) : Bool :=
  match resolveRef st refId with
  | .pending => false
  | .unknown => (unknownRefWindow cfg env st).isNone
  | _ => true

/-- One pass of a wait, none when it waits on. The reply is capped at `numReturns`, in the order of
the request. -/
def doWait (refIds : List RefId) (numReturns : Nat) (expired : Bool) : Option (List RefId) :=
  let want := min numReturns refIds.length
  let ready := refIds.filter (isReady cfg env st)
  if want ≤ ready.length then some (ready.take numReturns)
  else if expired then some ready
  else none

variable {cfg env st}

theorem mem_of_doWait {refIds ready : List RefId} {numReturns : Nat} {expired : Bool} {rid : RefId}
    (h : doWait cfg env st refIds numReturns expired = some ready) (hr : rid ∈ ready) :
    isReady cfg env st rid = true := by
  unfold doWait at h
  simp only at h
  split at h
  · cases h
    exact (List.mem_filter.mp (List.mem_of_mem_take hr)).2
  · split at h
    · cases h
      exact (List.mem_filter.mp hr).2
    · cases h

/-- The ref reads as pending: it is, or it is unknown and may yet arrive. -/
def ReadsPending (cfg : Cfg) (env : Env) (st : State) (rid : RefId) : Prop :=
  resolveRef st rid = .pending ∨
    (resolveRef st rid = .unknown ∧ (unknownRefWindow cfg env st).isSome = true)

theorem ReadsPending.doGet {rid : RefId} (h : ReadsPending cfg env st rid) {expired : Bool}
    {reply : GetReply} (hg : doGet cfg env st rid expired = some reply) :
    reply = .refGetOk .timeout "" [] := by
  have hres : (if resolveRef st rid = .unknown ∧ (unknownRefWindow cfg env st).isSome
      then Res.pending else resolveRef st rid) = .pending := by
    rcases h with h | h
    · rw [h]
      simp
    · rw [if_pos h]
  simp only [Mentat.doGet, hres] at hg
  split at hg
  · exact (Option.some.inj hg).symm
  · cases hg

theorem ReadsPending.not_ready {rid : RefId} (h : ReadsPending cfg env st rid) :
    isReady cfg env st rid = false := by
  rcases h with h | ⟨h, hw⟩
  · simp only [isReady, h]
  · simp only [isReady, h]
    rw [Option.isNone_eq_false_iff]
    exact hw

end Passes

/-! ## A head without rows -/

/-- A step of the daemon's threads, or one pass of a get or a wait. -/
inductive Ask where
  | thread (a : Act)
  | get (refId : RefId) (expired : Bool)
  | wait (refIds : List RefId) (numReturns : Nat) (expired : Bool)

/-- What a driver has been told. -/
inductive Answer where
  | got (refId : RefId) (reply : GetReply)
  | waited (ready : List RefId)

/-- The answer takes the call for over: a wait that returns it, or a get that reads its actor as
dead or refuses it. -/
def Answer.ends (rid : RefId) : Answer → Bool
  | .got refId (.refGetOk .actorDied _ _) => refId == rid
  | .got refId (.refused _ _) => refId == rid
  | .got _ _ => false
  | .waited ready => ready.contains rid

structure Answering where
  sys : Sys
  /-- The replies so far, newest first. -/
  replies : List Answer

/-- One call: the agent that works on it or holds its result, the actor, the ref, and when the
daemon became head. -/
structure Watch where
  agent : AgentId
  actor : ActorId
  ref : RefId
  since : Nat

/-- The ref is a call of the actor. A placement group's id starts with `p:`. -/
def Watch.isCall (v : Watch) : Bool :=
  ((rsplitOnce v.ref).any fun p => p.1 == v.actor) && v.ref.toList.take 2 != ['p', ':']

/-- No agents, actors or refs. -/
structure State.Rowless (st : State) : Prop where
  agents : st.agents = ∅
  actors : st.actors = ∅
  refs : st.refs = ∅

section Answering

variable (cfg : Cfg) (ops : ClaimOps) (ownerOf : ActorId → ClientId) (v : Watch)

/-- Every interleaving of the threads with gets and waits, from the moment a daemon without rows,
and without a connection of the call's driver, becomes head. -/
def answering : System Answering (Env × Ask) where
  init s := (∃ env st, State.Rowless st ∧ env.now = v.since ∧ s.sys.st = elect env st st.nodeId) ∧
    (∀ w c, s.sys.conns.get w = some c → c.client ≠ ownerOf v.actor) ∧ s.replies = []
  next s l := match l.2 with
    | .thread a => ((threads cfg ops ownerOf).next s.sys (l.1, a)).map fun sys => { s with sys }
    | .get refId expired => some { s with replies :=
        ((doGet cfg l.1 s.sys.st refId expired).map (.got refId)).toList ++ s.replies }
    | .wait refIds numReturns expired => some { s with replies :=
        ((doWait cfg l.1 s.sys.st refIds numReturns expired).map .waited).toList ++ s.replies }

/-- The call's agent registers once, with the actor and the call in its report, and no other agent
holds the actor. The agent stays connected and the daemon stays head. Neither the call's result nor
its actor's exit has come. -/
def Watch.assumed (st : State) : Section → Bool
  | .register _ r =>
    if r.agentId = v.agent then
      !st.agents.has v.agent && r.resumed.contains v.actor && r.reported.contains v.ref
    else !r.resumed.contains v.actor
  | .agentEof id w => id != v.agent || (st.agents.get id).all fun a => a.writer != w
  | .agentFrame _ (.result ref _ _ _) => ref != v.ref
  | .agentFrame _ (.exit x _ _) => x != v.actor
  | .actorCreate r => r.actorId != v.actor
  | .elect _ => false
  | _ => true

/-- The driver's sessions stay open. The agent registers within the window, so up to its
registration the clock is within it. -/
def Watch.stated (s : Answering) (l : Env × Ask) : Bool :=
  (s.sys.st.agents.has v.agent || decide (l.1.now ≤ v.since + cfg.agentDeadAfterMs)) &&
    match l.2 with
    | .thread (.eof w) => (s.sys.conns.get w).all fun c =>
        !(c.session && c.client == ownerOf v.actor)
    | .thread a => (plan cfg l.1 s.sys a).all fun p => v.assumed s.sys.st p.1
    | _ => true

/-- The clock is before the window's end up to the registration, the actor's constructor has not
been reported as failed, and no call wraps the counter. -/
def Watch.spared (s : Answering) (l : Env × Ask) : Bool :=
  (s.sys.st.agents.has v.agent || decide (l.1.now < v.since + cfg.agentDeadAfterMs)) &&
    match l.2 with
    | .thread (.background (.agentFrame _ (.spawnResult x ok _ _))) => ok || x != v.actor
    | .thread (.request _ (.actorCall _)) => decide (s.sys.st.nextRef + 1 < 2 ^ 64)
    | _ => true

/-! ## One section -/

/-- The agent has not registered. -/
structure Watch.Away (st : State) : Prop where
  agent : st.agents.get v.agent = none
  actor : st.actors.get v.actor = none
  ref : st.refs.get v.ref = none
  window : st.headSinceMs = some v.since

/-- The agent has registered, and the call is pending at this daemon. -/
structure Watch.Here (owner : ClientId) (st : State) : Prop where
  link : LinkUp st v.agent
  row : ∃ a, st.actors.get v.actor = some a ∧ a.state.isDead = false ∧ a.agent = v.agent
  ref : PendingRef v.actor owner v.ref st.refs
  /-- No call will get the ref's number. -/
  counter {k : Nat} : k + 1 < 2 ^ 64 → v.ref = v.actor ++ ":" ++ toString k → k < st.nextRef

variable {cfg ops ownerOf v} {env : Env} {st : State} {owner : ClientId}

theorem Watch.isCall_split (h : v.isCall = true) : ∃ n, rsplitOnce v.ref = some (v.actor, n) := by
  simp only [isCall, Bool.and_eq_true, Option.any_eq_true, beq_iff_eq] at h
  obtain ⟨⟨⟨x, n⟩, hp, rfl⟩, -⟩ := h
  exact ⟨n, hp⟩

/-- A live row of the agent that is here stays live. -/
theorem Watch.Here.unfelled (h : v.Here owner st) {sec : Section} (hass : v.assumed st sec = true)
    (hspawn : ∀ id e pid, sec ≠ .agentFrame id (.spawnResult v.actor false e pid))
    {why : String} : ¬ sec.Fells cfg env st v.actor v.agent why := by
  intro hfell
  obtain ⟨row, hrow, hup, hlost⟩ := h.link
  cases sec with
  | killActor y =>
    have := liveAgent_eq_none.mp hfell.2.1 row hrow
    rw [hup] at this
    cases this
  | actorCreate r => simp [assumed, hfell.1] at hass
  | register w r => simp [assumed, ← hfell.1, Table.has, hrow] at hass
  | agentFrame id msg =>
    cases msg with
    | spawnResult y ok e pid =>
      obtain ⟨rfl, rfl, -⟩ := hfell
      exact hspawn id e pid rfl
    | exit y exitCode signal => simp [assumed, hfell.1] at hass
    | result _ _ _ _ | serviceNote _ _ => exact hfell
  | sweepLifecycle =>
    obtain ⟨⟨row', hrow', hdown⟩, -⟩ := hfell
    cases hrow.symm.trans hrow'
    simp [downFor, hlost] at hdown
  | elect candidate => cases hass
  | _ => exact hfell

theorem Watch.Here.step (h : v.Here owner st) (hcall : v.isCall = true) {sec : Section}
    (hf : sec.fresh st = true) (hass : v.assumed st sec = true)
    (hspawn : ∀ id e pid, sec ≠ .agentFrame id (.spawnResult v.actor false e pid))
    (hwrap : ∀ r, sec = .actorCall r → st.nextRef + 1 < 2 ^ 64)
    (hreap : sec ≠ .reapFinish owner) : v.Here owner (exec cfg ops env st sec) := by
  obtain ⟨n, hsplit⟩ := v.isCall_split hcall
  obtain ⟨agentRow, hagent, -⟩ := h.link
  obtain ⟨a, ha, hl, hag⟩ := h.row
  have hreg : ∀ w r, sec = .register w r → r.agentId ≠ v.agent := by
    rintro w r rfl hid
    simp [assumed, hid, Table.has, hagent] at hass
  have helect : ∀ candidate, sec ≠ .elect candidate := by
    rintro candidate rfl
    cases hass
  rcases exec_live cfg ops env hf ha hl with ⟨a', ha', hlater, hl'⟩ | ⟨why, hfell⟩
  · refine ⟨exec_linkUp h.link hreg ?_, ⟨a', ha', hl', hlater.agent.trans hag⟩, ?_, ?_⟩
    · rintro w rfl row hrow
      simpa [assumed, hrow] using hass
    · refine exec_pendingRef ha h.ref ha' hl' hf (hag ▸ hreg) ?_ hreap ?_ helect
      · rintro id ok e payload rfl
        simp [assumed] at hass
      · rintro r rfl hid
        -- The counter is past the number of the ref.
        have hsame : r.actorId = v.actor := by
          have := newRefId_split st r.actorId
          rw [hid, hsplit] at this
          exact (Prod.mk.inj (Option.some.inj this)).1.symm
        have := h.counter (hwrap r rfl) (by rw [← hid, ← hsame]; rfl)
        omega
    · intro k hk hid
      have hlt := h.counter hk hid
      by_cases hc : ∃ r, sec = .actorCall r
      · obtain ⟨r, rfl⟩ := hc
        rw [exec, actorCall_nextRef, Nat.mod_eq_of_lt (hwrap r rfl)]
        omega
      · exact lt_of_lt_of_le hlt (exec_nextRef_le cfg ops env st sec fun r he => hc ⟨r, he⟩)
  · exact absurd (hag ▸ hfell) (h.unfelled hass hspawn)

/-- The agent's registration brings the call. -/
theorem Watch.Away.arrives (h : v.Away st) (hcall : v.isCall = true) {w : FrameWriter}
    {r : AgentRegister} (hid : r.agentId = v.agent) (hx : v.actor ∈ r.resumed)
    (hrid : v.ref ∈ r.reported) (hown : (Section.register w r).owned ownerOf = true) :
    v.Here (ownerOf v.actor) (exec cfg ops env st (.register w r)) := by
  obtain ⟨n, hsplit⟩ := v.isCall_split hcall
  obtain ⟨a, ha⟩ := adoptTable_has st r hx
  obtain ⟨y, hy, hyx, rfl⟩ : ∃ y ∈ r.resume, y.actorId = v.actor ∧ a = adoptedActor r y := by
    rcases adoptTable_get st r ha with hk | ⟨-, y, hy, hyx, he⟩
    · cases h.actor.symm.trans hk
    · exact ⟨y, hy, hyx, he⟩
  have howner : (adoptedActor r y).owner = ownerOf v.actor := by
    simp only [Section.owned, List.all_eq_true, beq_iff_eq] at hown
    rw [← hyx]
    exact hown y hy
  have houtlives : Outlives v.actor (ownerOf v.actor) v.ref (exec cfg ops env st (.register w r)) :=
    howner ▸ Outlives.adopted hsplit hrid h.ref ha rfl
  obtain ⟨b, hb, hlb⟩ : ∃ b, (exec cfg ops env st (.register w r)).actors.get v.actor = some b ∧
      b.state.isDead = false :=
    register_live cfg ops env hx fun a ha => by cases h.actor.symm.trans ha
  obtain ⟨b', hb', hpend⟩ := houtlives
  cases hb.symm.trans hb'
  obtain ⟨c, hc, hcb, -⟩ := (exec_ages cfg ops env st (.register w r)).back hb
  cases ha.symm.trans hc
  refine ⟨?_, ⟨b, hb, hlb, hcb.agent.trans hid⟩, hpend hlb, fun {k} hk hkid => ?_⟩
  · refine ⟨agentOfRegister r w st.nextSeq, ?_, rfl, rfl⟩
    rw [exec, (register_quiet cfg ops env st w r).agents, ← hid]
    exact Table.get_set_self _ _ _
  · have hadopt : y ∈ adoptions st r := by
      simp only [adoptions, List.mem_filter, Bool.not_eq_true', Table.has_eq_false]
      exact ⟨hy, hyx ▸ h.actor⟩
    refine register_passes cfg ops env st hadopt hrid ?_
    have hk' : k < 2 ^ 64 := by omega
    rw [bumps, Table.has_eq_false.mpr h.ref, hkid, rsplitOnce_refId, hyx]
    simp only [Bool.not_false, Bool.true_and, beq_self_eq_true, parseU64_toString hk',
      Option.any_some, le_refl, decide_true, decide_eq_true hk]

theorem Watch.Away.step (h : v.Away st) (hcall : v.isCall = true) {sec : Section}
    (hass : v.assumed st sec = true) (hown : sec.owned ownerOf = true) :
    v.Away (exec cfg ops env st sec) ∨ v.Here (ownerOf v.actor) (exec cfg ops env st sec) := by
  obtain ⟨n, hsplit⟩ := v.isCall_split hcall
  by_cases hreg : ∃ w r, sec = .register w r ∧ r.agentId = v.agent
  · obtain ⟨w, r, rfl, hid⟩ := hreg
    simp only [assumed, hid, if_true, Bool.and_eq_true, List.contains_iff_mem] at hass
    exact .inr (h.arrives hcall hid hass.1.2 hass.2 hown)
  · have hlisted : ∀ w r, sec = .register w r → v.actor ∉ r.resumed := by
      rintro w r rfl
      have hid : r.agentId ≠ v.agent := fun hid => hreg ⟨w, r, rfl, hid⟩
      simpa [assumed, hid] using hass
    refine .inl ⟨?_, ?_, ?_, ?_⟩
    · refine Option.eq_none_iff_forall_ne_some.mpr fun row hrow => ?_
      rcases exec_agent cfg ops env hrow with ⟨w, r, rfl, hid, -⟩ | ⟨-, row0, hrow0, -⟩
      · exact hreg ⟨w, r, rfl, hid⟩
      · cases h.agent.symm.trans hrow0
    · refine Option.eq_none_iff_forall_ne_some.mpr fun a ha => ?_
      rcases exec_actor cfg ops env ha with ⟨a0, ha0, -⟩ | ⟨r, _, _, _, rfl, hid, -⟩ |
        ⟨w, r, y, rfl, -, hy, hyx, -⟩
      · cases h.actor.symm.trans ha0
      · simp [assumed, hid] at hass
      · exact hlisted w r rfl (List.mem_map.mpr ⟨y, hy, hyx⟩)
    · refine Option.eq_none_iff_forall_ne_some.mpr fun ref href => ?_
      rcases exec_refs cfg ops env st href with ⟨hins, -⟩ | ⟨ref0, href0, -, -⟩
      · cases sec with
        | actorCall r =>
          -- A call inserts its ref under a known actor.
          simp only [Section.insertsRef, Bool.and_eq_true, beq_iff_eq] at hins
          rw [hins.2, newRefId_split, Option.some.injEq, Prod.mk.injEq] at hsplit
          rw [hsplit.1, Table.has_eq_false.mpr h.actor] at hins
          cases hins.1
        | register w r =>
          simp only [Section.insertsRef, adoptsRef, hsplit, Option.any_some, Bool.and_eq_true,
            Option.any_eq_true] at hins
          obtain ⟨-, a, ha, -⟩ := hins
          rcases adoptTable_get st r ha with hk | ⟨-, y, hy, hyx, -⟩
          · cases h.actor.symm.trans hk
          · exact hlisted w r rfl (List.mem_map.mpr ⟨y, hy, hyx⟩)
        | _ => cases hins
      · cases h.ref.symm.trans href0
    · rw [exec_headSinceMs, h.window]
      rintro candidate rfl
      cases hass

/-! ## Whole runs -/

/-- No session connection of the client has ended, so no reap of the client runs. -/
def Attended (conns : Table FrameWriter Conn) (client : ClientId) : Prop :=
  ∀ w c, conns.get w = some c → c.client = client →
    c.phase.isOpen = true ∨ (c.session = false ∧ ∃ m, c.phase = .closed m)

theorem Phase.ofOrphans_isOpen (ids : List ActorId) : (ofOrphans ids).isOpen = true := by
  cases ids <;> rfl

theorem Attended.step {s : Sys} {a : Act} {sec : Section} {conns : Table FrameWriter Conn}
    {client : ClientId} (h : Attended s.conns client) (hstep : Step cfg env s a sec conns)
    (heof : ∀ w c, a = .eof w → s.conns.get w = some c → c.session = true → c.client ≠ client) :
    Attended conns client := by
  intro w c hw hc
  cases hstep with
  | refused _ | request _ _ _ | background _ => exact h w c hw hc
  | drop _ _ _ | checkDone _ _ _ | finish _ _ => exact h w c (Table.get_erase_some hw).2 hc
  | opened _ _ | orphan _ _ =>
    rcases Table.get_set_some hw with ⟨rfl, rfl⟩ | ⟨-, hw⟩
    · exact .inl (Phase.ofOrphans_isOpen _)
    · exact h w c hw hc
  | @eof w' c' hw' hp =>
    rcases Table.get_set_some hw with ⟨rfl, rfl⟩ | ⟨-, hw⟩
    · refine .inr ⟨Bool.eq_false_iff.mpr fun hs => heof w c' rfl hw' hs hc, _, rfl⟩
    · exact h w c hw hc
  | unlist hw' hp hm =>
    rcases Table.get_set_some hw with ⟨rfl, rfl⟩ | ⟨-, hw⟩
    · rcases h _ _ hw' hc with ho | ⟨hs, -⟩
      · rw [hp] at ho
        cases ho
      · rw [hs] at hm
        cases hm
    · exact h w c hw hc
  | arm hw' hp _ =>
    rcases Table.get_set_some hw with ⟨rfl, rfl⟩ | ⟨-, hw⟩
    · rcases h _ _ hw' hc with ho | ⟨-, m, hm⟩
      · rw [hp] at ho
        cases ho
      · cases hp.symm.trans hm
    · exact h w c hw hc
  | @checkReap w' c' group token ids hw' hd _ =>
    rcases Table.get_set_some hw with ⟨rfl, rfl⟩ | ⟨-, hw⟩
    · rcases h _ _ hw' hc with ho | ⟨-, m, hm⟩
      · cases hp : c'.phase <;> simp [Conn.reapDue, hp, Phase.isOpen] at hd ho
      · simp [Conn.reapDue, hm] at hd
    · exact h w c hw hc
  | reapKill hw' hp =>
    rcases Table.get_set_some hw with ⟨rfl, rfl⟩ | ⟨-, hw⟩
    · rcases h _ _ hw' hc with ho | ⟨-, m, hm⟩
      · rw [hp] at ho
        cases ho
      · cases hp.symm.trans hm
    · exact h w c hw hc

/-- The refs of such a client are not forgotten. -/
theorem Attended.unreaped {s : Sys} {a : Act} {sec : Section} {conns : Table FrameWriter Conn}
    {client : ClientId} (h : Attended s.conns client) (hstep : Step cfg env s a sec conns) :
    sec ≠ .reapFinish client := by
  rintro rfl
  cases hstep with
  | request _ _ hb => cases hb
  | background hb => cases hb
  | finish hw hp =>
    rcases h _ _ hw rfl with ho | ⟨-, m, hm⟩
    · rw [hp] at ho
      cases ho
    · cases hp.symm.trans hm

/-- The call as the daemon sees it: not yet arrived, or pending. -/
def Watch.Carried (v : Watch) (ownerOf : ActorId → ClientId) (s : Sys) : Prop :=
  (v.Away s.st ∨ v.Here (ownerOf v.actor) s.st) ∧ Attended s.conns (ownerOf v.actor)

/-- The clock condition of a run, before the step's own. -/
theorem Watch.Carried.reads {s : Sys} (h : v.Carried ownerOf s) (hcall : v.isCall = true)
    (hclock : s.st.agents.has v.agent = true ∨ env.now < v.since + cfg.agentDeadAfterMs) :
    ReadsPending cfg env s.st v.ref := by
  have hkind : ¬ v.ref.toList.take 2 = ['p', ':'] := by
    simp only [isCall, Bool.and_eq_true, bne_iff_ne] at hcall
    exact hcall.2
  rcases h.1 with h | h
  · refine .inr ⟨by simp [resolveRef, hkind, h.ref], ?_⟩
    rcases hclock with hc | hc
    · rw [Table.has_eq_false.mpr h.agent] at hc
      cases hc
    · simp [unknownRefWindow, h.window, hc]
  · obtain ⟨ref, href, hp, -⟩ := h.ref
    exact .inl (by simp [resolveRef, hkind, href, hp])

theorem Watch.Carried.step {s s' : Sys} {a : Act} (h : v.Carried ownerOf s) (hcall : v.isCall = true)
    (hn : (threads cfg ops ownerOf).next s (env, a) = some s')
    (hst : v.stated cfg ownerOf ⟨s, []⟩ (env, .thread a) = true)
    (hsp : v.spared cfg ⟨s, []⟩ (env, .thread a) = true) : v.Carried ownerOf s' := by
  obtain ⟨sec, conns, hplan, hf, hown, rfl⟩ := threads_plan hn
  have hstep := plan_step hplan
  simp only [stated, spared, Bool.and_eq_true] at hst hsp
  have hass : v.assumed s.st sec = true := by
    have hst := hst.2
    cases a with
    | eof w =>
      cases hstep
      rfl
    | _ => simpa only [hplan, Option.all_some] using hst
  have hspawn : ∀ id e pid, sec ≠ .agentFrame id (.spawnResult v.actor false e pid) := by
    rintro id e pid rfl
    cases hstep with
    | request _ _ hb => cases hb
    | background hb => simp at hsp
  have hwrap : ∀ r, sec = .actorCall r → s.st.nextRef + 1 < 2 ^ 64 := by
    rintro r rfl
    cases hstep with
    | request _ _ hb => exact of_decide_eq_true hsp.2
    | background hb => cases hb
  have hatt : Attended conns (ownerOf v.actor) := by
    refine h.2.step hstep ?_
    rintro w c rfl hw hs hc
    simp only [hw, Option.all_some, hs, hc, beq_self_eq_true] at hst
    exact absurd hst.2 (by simp)
  refine ⟨?_, hatt⟩
  rcases h.1 with haway | hhere
  · exact haway.step hcall hass hown
  · exact .inr (hhere.step hcall hf hass hspawn hwrap (h.2.unreaped hstep))

/-- A daemon that becomes head keeps its rows and notes the time. -/
theorem elect_self (env : Env) (st : State) : ∃ generation events, elect env st st.nodeId =
    { st with
      headNodeId := st.nodeId
      headGeneration := generation
      headSinceMs := some env.now
      events := events } := by
  simp only [elect, headMoved, State.emitPatch, if_true, true_or]
  exact ⟨_, _, rfl⟩

/-- In every run from a head without rows in which the call's agent registers once with its report,
before the window's end, and stays connected, and the driver keeps its session: until the call's
result or its actor's exit or failed start has come, no wait returns the call and no get reads it
as dead or unknown. -/
theorem no_false_death {s : Answering} (hcall : v.isCall = true)
    (h : (answering cfg ops ownerOf v).Reach
      (fun s l => v.stated cfg ownerOf s l && v.spared cfg s l) s) :
    ∀ answer ∈ s.replies, answer.ends v.ref = false := by
  refine (h.invariant (I := fun s => v.Carried ownerOf s.sys ∧
    ∀ answer ∈ s.replies, answer.ends v.ref = false) ?_ ?_).2
  · rintro s ⟨⟨env, st, hrows, hnow, hst⟩, hconns, hreplies⟩
    have haway : v.Away (elect env st st.nodeId) := by
      obtain ⟨generation, events, he⟩ := elect_self env st
      rw [he]
      refine ⟨?_, ?_, ?_, by rw [hnow]⟩
      · rw [hrows.agents]
        rfl
      · rw [hrows.actors]
        rfl
      · rw [hrows.refs]
        rfl
    refine ⟨⟨.inl (by rw [hst]; exact haway), fun w c hw hc => absurd hc (hconns w c hw)⟩, ?_⟩
    simp [hreplies]
  · rintro s ⟨env, ask⟩ s' ⟨hcar, hrep⟩ hok hn
    rw [Bool.and_eq_true] at hok
    have hclock : s.sys.st.agents.has v.agent = true ∨
        env.now < v.since + cfg.agentDeadAfterMs := by
      have := hok.2
      simp only [Watch.spared, Bool.and_eq_true, Bool.or_eq_true, decide_eq_true_eq] at this
      exact this.1
    have hreads := hcar.reads hcall hclock
    cases ask with
    | thread a =>
      simp only [answering, Option.map_eq_some_iff] at hn
      obtain ⟨sys, hnext, rfl⟩ := hn
      exact ⟨hcar.step hcall hnext hok.1 hok.2, hrep⟩
    | get refId expired =>
      cases hn
      refine ⟨hcar, fun answer ha => ?_⟩
      rcases List.mem_append.mp ha with ha | ha
      · simp only [Option.mem_toList, Option.map_eq_some_iff] at ha
        obtain ⟨reply, hg, rfl⟩ := ha
        by_cases hid : refId = v.ref
        · subst hid
          rw [hreads.doGet hg]
          rfl
        · cases reply with
          | refused code text => simp [Answer.ends, hid]
          | refGetOk status reason payload => cases status <;> simp [Answer.ends, hid]
      · exact hrep answer ha
    | wait refIds numReturns expired =>
      cases hn
      refine ⟨hcar, fun answer ha => ?_⟩
      rcases List.mem_append.mp ha with ha | ha
      · simp only [Option.mem_toList, Option.map_eq_some_iff] at ha
        obtain ⟨ready, hw, rfl⟩ := ha
        simp only [Answer.ends, List.contains_eq_mem, decide_eq_false_iff_not]
        intro hmem
        have := mem_of_doWait hw hmem
        rw [hreads.not_ready] at this
        cases this
      · exact hrep answer ha

end Answering

/-- The call `a:1:1` of the driver `c`, with a head since 0. -/
def Sample.watched : Watch := ⟨"ag", "a:1", "a:1:1", 0⟩

def Sample.rowless : Answering := ⟨⟨elect (Sample.at_ 0) Sample.boot "n:1", ∅⟩, []⟩

/-- The agent's registration with the call in its report. -/
def Sample.arrival (refs : List RefId) : Ask :=
  .thread (.background (.register 1
    (Sample.registration [Sample.resumed "a:1" [0] "c" refs] [])))

/-- The driver asks before and after the agent has registered, and once the window is over. -/
def askedThroughout : List (Env × Ask) := [
  (Sample.at_ 1, .thread (.hello 2 (Sample.driver "c" true))),
  (Sample.at_ 2, .get "a:1:1" true),
  (Sample.at_ 3, .wait ["a:1:1"] 1 true),
  (Sample.at_ 4, Sample.arrival ["a:1:1"]),
  (Sample.at_ 5, .get "a:1:1" true),
  (Sample.at_ 200000, .thread (.background .sweepLifecycle)),
  (Sample.at_ 200001, .wait ["a:1:1"] 1 true)]

theorem Sample.rowless_init {v : Watch} (h : v.since = 0) :
    (answering Sample.cfg Sample.ops (fun _ => "c") v).init Sample.rowless :=
  ⟨⟨Sample.at_ 0, Sample.boot, ⟨rfl, rfl, rfl⟩, h.symm, rfl⟩, fun _ _ hw => (by cases hw), rfl⟩

theorem no_false_death_askedThroughout :
    ∃ s, (answering Sample.cfg Sample.ops (fun _ => "c") Sample.watched).Reach
        (fun s l => Sample.watched.stated Sample.cfg (fun _ => "c") s l &&
          Sample.watched.spared Sample.cfg s l) s ∧
      s.replies.length = 4 ∧ ∀ answer ∈ s.replies, answer.ends "a:1:1" = false := by
  have hrun : ((answering Sample.cfg Sample.ops (fun _ => "c") Sample.watched).run
      (fun s l => Sample.watched.stated Sample.cfg (fun _ => "c") s l &&
        Sample.watched.spared Sample.cfg s l) Sample.rowless askedThroughout).any
      (fun s => s.replies.length == 4) = true := by decide +kernel
  obtain ⟨s, hreach, hp⟩ := System.Reach.of_run hrun (Sample.rowless_init rfl)
  exact ⟨s, hreach, beq_iff_eq.mp hp, no_false_death (by decide) hreach⟩

/-- The constructor of an actor that is on its agent's table raises after the registration. -/
def ctorRaisesAfter : List (Env × Ask) := [
  (Sample.at_ 1, .thread (.hello 2 (Sample.driver "c" true))),
  (Sample.at_ 2, Sample.arrival ["a:1:1"]),
  (Sample.at_ 3, .thread (.background (.agentFrame "ag"
    (.spawnResult "a:1" false "constructor raised: E()" 1000)))),
  (Sample.at_ 4, .get "a:1:1" false)]

/-- The registration comes in the last millisecond of the window, after a get. -/
def lastMillisecond : List (Env × Ask) := [
  (Sample.at_ 1, .thread (.hello 2 (Sample.driver "c" true))),
  (Sample.at_ 120000, .get "a:1:1" false),
  (Sample.at_ 120000, Sample.arrival ["a:1:1"])]

/-- The counter wraps, a call of another driver gets the ref of a call that is still running, and
goes with that driver. -/
def counterWraps : List (Env × Ask) := [
  (Sample.at_ 1, .thread (.hello 2 (Sample.driver "c" true))),
  (Sample.at_ 2, Sample.arrival ["a:1:0", "a:1:18446744073709551614"]),
  (Sample.at_ 3, .thread (.hello 3 ⟨"d", "h", true, "driver", "n:1"⟩)),
  (Sample.at_ 4, .thread (.request 3 (Sample.call "d" "a:1"))),
  (Sample.at_ 5, .thread (.request 3 (Sample.call "d" "a:1"))),
  (Sample.at_ 6, .thread (.eof 3)),
  (Sample.at_ 7, .thread (.unlist 3)),
  (Sample.at_ 8, .thread (.arm 3)),
  (Sample.at_ 20000, .thread (.check 3)),
  (Sample.at_ 20001, .thread (.finish 3)),
  (Sample.at_ 200000, .get "a:1:0" false)]

/-- A call reads as over though neither its result nor its actor's exit has come: its actor's
constructor has been reported as failed, or its agent registers in the window's last millisecond,
or the counter of ref numbers has wrapped. -/
theorem calls_read_over :
    (∃ s, (answering Sample.cfg Sample.ops (fun _ => "c") Sample.watched).Reach
      (Sample.watched.stated Sample.cfg fun _ => "c") s ∧
        s.replies.any (·.ends "a:1:1") = true ∧ s.sys.st.refs.has "a:1:1" = true) ∧
    (∃ s, (answering Sample.cfg Sample.ops (fun _ => "c") Sample.watched).Reach
      (Sample.watched.stated Sample.cfg fun _ => "c") s ∧
        s.replies.any (·.ends "a:1:1") = true ∧
        s.sys.st.refs.get "a:1:1" = some ⟨.pending, some "a:1", "c", "", 120000, false⟩) ∧
    ∃ s, (answering Sample.cfg Sample.ops (fun _ => "c") ⟨"ag", "a:1", "a:1:0", 0⟩).Reach
      (Watch.stated Sample.cfg (fun _ => "c") ⟨"ag", "a:1", "a:1:0", 0⟩) s ∧
        s.replies.any (·.ends "a:1:0") = true := by
  refine ⟨?_, ?_, ?_⟩
  · have hrun : ((answering Sample.cfg Sample.ops (fun _ => "c") Sample.watched).run
        (Sample.watched.stated Sample.cfg fun _ => "c") Sample.rowless ctorRaisesAfter).any
        (fun s => s.replies.any (·.ends "a:1:1") && s.sys.st.refs.has "a:1:1") = true := by
      decide +kernel
    obtain ⟨s, hreach, hp⟩ := System.Reach.of_run hrun (Sample.rowless_init rfl)
    rw [Bool.and_eq_true] at hp
    exact ⟨s, hreach, hp⟩
  · have hrun : ((answering Sample.cfg Sample.ops (fun _ => "c") Sample.watched).run
        (Sample.watched.stated Sample.cfg fun _ => "c") Sample.rowless lastMillisecond).any
        (fun s => s.replies.any (·.ends "a:1:1") && decide (s.sys.st.refs.get "a:1:1" =
          some ⟨.pending, some "a:1", "c", "", 120000, false⟩)) = true := by decide +kernel
    obtain ⟨s, hreach, hp⟩ := System.Reach.of_run hrun (Sample.rowless_init rfl)
    rw [Bool.and_eq_true, decide_eq_true_eq] at hp
    exact ⟨s, hreach, hp⟩
  · have hrun : ((answering Sample.cfg Sample.ops (fun _ => "c") ⟨"ag", "a:1", "a:1:0", 0⟩).run
        (Watch.stated Sample.cfg (fun _ => "c") ⟨"ag", "a:1", "a:1:0", 0⟩) Sample.rowless
        counterWraps).any (fun s => s.replies.any (·.ends "a:1:0")) = true := by decide +kernel
    exact System.Reach.of_run hrun (Sample.rowless_init rfl)

end Mentat
