import Mentat.Threads

/-!
# Orphans under a session

A group has one driver session at a time, and the actors of earlier drivers are reclaimed when it
opens. `Reclaimed` is the invariant: under a session, a live actor on a live link is the session's
own, or its owner's reap is pending, or it has been sent a kill, or some thread is on the way to
one of these.

The reclaim runs at the session's hello and nowhere else, so whatever brings another client's
actor under an open session escapes it. `Act.orphansKept` says what must not happen: that a
registration keeps or adopts such an actor, that a client without the session creates one, that a
session opens over the actors of another session's holder, moves to another group, or is found
reopened by a reap that then lets its actors be.
-/

namespace Mentat

variable {cfg : Cfg} {ops : ClaimOps} {env : Env} {ownerOf : ActorId → ClientId}

/-! ## The invariant -/

/-- Why actor `x` with row `a`, on the link of `agent`, may live under the session of `C`. -/
def Excused (s : Sys) (C : ClientId) (x : ActorId) (a : ActorInfo) (agent : AgentInfo) : Prop :=
  a.owner = C ∨ s.st.reapPending.has a.owner = true ∨
    (agent.writer, ToAgent.actorKill x) ∈ s.st.wire ∨
    (∃ w c, s.conns.get w = some c ∧ x ∈ c.phase.kills) ∨
    ∃ w c, s.conns.get w = some c ∧ c.client = a.owner ∧ c.phase.isUnlisted = true

/-- Actor `x` with row `a` lives in the group of client `C`'s session, on a live link. -/
structure Under (st : State) (C : ClientId) (x : ActorId) (a : ActorInfo) (agent : AgentInfo) :
    Prop where
  session : ∃ row, st.clients.get C = some row ∧ row.hasSession = true ∧ a.group = row.group
  actor : st.actors.get x = some a
  live : a.state.isDead = false
  link : st.agents.get a.agent = some agent
  up : agent.alive = true

def Reclaimed (s : Sys) : Prop :=
  ∀ C x a agent, Under s.st C x a agent → Excused s C x a agent

/-! ## The steps that must not happen -/

/-- No client but `owner` holds the driver session of `group`, or the owner's reap is pending. -/
def ownGroup (st : State) (group : String) (owner : ClientId) : Bool :=
  st.reapPending.has owner ||
    st.clients.rows.all fun (C, row) => !(row.hasSession && row.group == group) || C == owner

theorem ownGroup_excuses {st : State} {group : String} {owner C : ClientId} {row : ClientInfo}
    (h : ownGroup st group owner = true) (hC : st.clients.get C = some row)
    (hs : row.hasSession = true) (hg : row.group = group) :
    st.reapPending.has owner = true ∨ owner = C := by
  simp only [ownGroup, Bool.or_eq_true, List.all_eq_true] at h
  rcases h with h | h
  · exact .inl h
  · have := h (C, row) (Table.mem_rows.mpr hC)
    simp [hs, hg] at this
    exact .inr this.symm

def Act.orphansKept (cfg : Cfg) (s : Sys) : Act → Bool
  | .hello _ h =>
    if h.session then
      -- No live actor of the group is owned by another client that holds a session.
      s.st.actors.values.all fun a => !(a.group == h.group && a.owner != h.clientId &&
        !a.state.isDead && (liveAgent s.st a.agent).isSome &&
        (s.st.clients.get a.owner).any (·.hasSession)) || s.st.reapPending.has a.owner
    else
      -- A session's holder says hello for its own group.
      (s.st.clients.get h.clientId).all fun row => !row.hasSession || row.group == h.group
  | .request _ (.actorCreate r) => match createTarget s.st r with
    | .ok _ => ownGroup s.st (clientGroup s.st r.client) r.client
    | .error _ => true
  | .background (.register _ r) => r.resume.all fun y => match s.st.actors.get y.actorId with
    | some a => a.agent != r.agentId || a.state.isDead || !s.st.clients.has a.owner ||
        ownGroup s.st a.group a.owner
    | none => ownGroup s.st r.group y.owner
  | .check w => match s.conns.get w with
    | none => true
    | some c => !(s.st.clients.get c.client).any (·.hasSession) ||
        (c.reapDue cfg).all fun due => (due.2.isSome && s.st.reapPending.get c.client != due.2) ||
          s.st.actors.values.all fun a => a.owner != c.client || a.state.isDead ||
            s.st.clients.rows.all fun (C, row) =>
              !(row.hasSession && row.group == a.group) || C == c.client
  | _ => true

/-! ## One step -/

/-- A kill of a live actor on a live link reaches the wire, and one off it leaves the row dead. -/
theorem killActor_excuses {st : State} {x : ActorId} {a : ActorInfo} {agent : AgentInfo}
    (ha : st.actors.get x = some a) (hl : a.state.isDead = false)
    (hag : st.agents.get a.agent = some agent) (hup : agent.alive = true) :
    (agent.writer, ToAgent.actorKill x) ∈ (killActor cfg ops env st x).wire := by
  rcases killActor_cases cfg ops env st x with he | ⟨b, ag, hb, -, hlive, he⟩ | ⟨b, hb, -, hdown, -⟩
  · have hlive : liveAgent st a.agent = some agent := liveAgent_eq_some.mpr ⟨hag, hup⟩
    simp only [killActor, ha, hl, hlive, Bool.false_eq_true, if_false] at he
    have := congrArg (fun s : State => s.wire.length) he
    simp [State.send] at this
  · cases ha.symm.trans hb
    cases hag.symm.trans (liveAgent_eq_some.mp hlive).1
    rw [he]
    exact List.mem_append_right _ List.mem_cons_self
  · cases ha.symm.trans hb
    have := liveAgent_eq_none.mp hdown agent hag
    rw [hup] at this
    cases this

/-- A connection that has moved on still lists what it listed, but for the actor it killed. -/
theorem kills_stay {s : Sys} {w : FrameWriter} {c c' : Conn} {x : ActorId}
    (hw : s.conns.get w = some c) (hsub : x ∈ c.phase.kills → x ∈ c'.phase.kills)
    (h : ∃ w c, s.conns.get w = some c ∧ x ∈ c.phase.kills) :
    ∃ w1 c1, (s.conns.set w c').get w1 = some c1 ∧ x ∈ c1.phase.kills := by
  by_cases hx : x ∈ c.phase.kills
  · exact ⟨w, c', Table.get_set_self _ _ _, hsub hx⟩
  · exact conn_stays hw (.inl ⟨c', rfl⟩) hx h

/-- A check that finds the session reopened frees the client's actors only where no other client
holds their group's session. -/
theorem reopened_own {s : Sys} {w : FrameWriter} {c : Conn} {g : String} {t : Option Nat}
    {C : ClientId} {x : ActorId} {b : ActorInfo} {agent : AgentInfo}
    (hok : (Act.check w).orphansKept cfg s = true) (hw : s.conns.get w = some c)
    (hd : c.reapDue cfg = some (g, t)) (ht : ∀ n, t = some n → s.st.reapPending.get c.client = some n)
    (hses : (s.st.clients.get c.client).any (·.hasSession) = true)
    (hu : Under s.st C x b agent) (ho : b.owner = c.client) : b.owner = C := by
  have hstale : (t.isSome && s.st.reapPending.get c.client != t) = false := by
    rw [Bool.eq_false_iff]
    intro hc
    obtain ⟨n, hn, hne⟩ := (reapCheck_timers s.st c.client t).mp hc
    exact hne (ht n hn)
  simp only [Act.orphansKept, hw, hses, hd, Bool.not_true, Bool.false_or, Option.all_some, hstale,
    List.all_eq_true] at hok
  obtain ⟨row, hrow, hs, hg⟩ := hu.session
  have hb := hok b (Table.mem_values.mpr ⟨x, hu.actor⟩)
  simp only [ho, bne_self_eq_false, hu.live, Bool.or_self, Bool.false_or, List.all_eq_true] at hb
  have := hb (C, row) (Table.mem_rows.mpr hrow)
  simp [hs, hg] at this
  rw [ho, this]

section Excuses

variable {s : Sys} {a : Act} {sec : Section} {conns : Table FrameWriter Conn} {C : ClientId}
  {x : ActorId} {b b' : ActorInfo} {agent agent' : AgentInfo}

/-- A check that ends a reap was replaced by a later one, or leaves the actor to the session's
holder. -/
theorem check_excuses {w : FrameWriter} {c : Conn} {g : String} {t : Option Nat}
    (hok : (Act.check w).orphansKept cfg s = true) (hu : Under s.st C x b agent)
    (hc : s.conns.get w = some c) (hd : c.reapDue cfg = some (g, t)) (ho : b.owner = c.client)
    (hr : (reapCheck env s.st c.client g t).2 = none) :
    (∃ n, t = some n ∧ s.st.reapPending.get c.client ≠ some n) ∨ b.owner = C := by
  rcases reapCheck_cases env s.st c.client g t with ⟨hst, -⟩ | ⟨ht, hses, -⟩ | ⟨-, -, he⟩
  · exact .inl hst
  · exact .inr (reopened_own hok hc hd ht hses hu ho)
  · rw [he] at hr
    cases hr

/-- A check that goes ahead lists the client's live actors. -/
theorem check_lists {c : Conn} {g : String} {t : Option Nat} {ids : List ActorId}
    (hu : Under s.st C x b agent) (ho : b.owner = c.client)
    (hr : (reapCheck env s.st c.client g t).2 = some ids) : x ∈ ids := by
  rcases reapCheck_cases env s.st c.client g t with ⟨-, he⟩ | ⟨-, -, he⟩ | ⟨-, -, he⟩
  · rw [he] at hr
    cases hr
  · rw [he] at hr
    cases hr
  · rw [he] at hr
    cases hr
    rw [(reapTake_spec env s.st c.client g).1]
    exact Env.mem_select.mpr ⟨b, hu.actor, by simp [ho, hu.live]⟩

/-- A check leaves the pending reaps of other clients. -/
theorem timers_other {c : Conn} {g : String} {t : Option Nat} {o : ClientId} (ho : o ≠ c.client)
    (he : s.st.reapPending.has o = true) :
    ((Section.reapCheck c.client g t).timersAfter s.st).has o = true := by
  simp only [Section.timersAfter]
  split
  · exact he
  · exact Table.has_erase.mpr ⟨ho, he⟩

/-- A pending reap goes only with its own check. -/
theorem Step.pending_excuses (hstep : Step cfg env s a sec conns) (hok : a.orphansKept cfg s = true)
    (hu : Under s.st C x b agent) (he : s.st.reapPending.has b.owner = true) :
    Excused ⟨exec cfg ops env s.st sec, conns⟩ C x b agent := by
  unfold Excused
  simp only [exec_reapPending]
  cases hstep with
  | request _ _ hb => exact .inr (.inl (by rw [(byClient_clients hb).2.1]; exact he))
  | background hb => exact .inr (.inl (by rw [(background_timers hb).1]; exact he))
  | arm _ _ _ => exact .inr (.inl (Table.has_set.mpr (.inr he)))
  | @checkDone w c g t hc hd hr =>
    by_cases ho : b.owner = c.client
    · rcases check_excuses hok hu hc hd ho hr with hst | hC
      · refine .inr (.inl ?_)
        rw [Section.timersAfter, if_pos ((reapCheck_timers s.st c.client t).mpr hst)]
        exact he
      · exact .inl hC
    · exact .inr (.inl (timers_other ho he))
  | @checkReap w c g t ids hc hd hr =>
    by_cases ho : b.owner = c.client
    · exact .inr (.inr (.inr (.inl ⟨w, _, Table.get_set_self _ _ _, check_lists hu ho hr⟩)))
    · exact .inr (.inl (timers_other ho he))
  | refused _ | opened _ _ | orphan _ _ | eof _ _ | drop _ _ _ | unlist _ _ _ | reapKill _ _
  | finish _ _ => exact .inr (.inl he)

/-- A listed actor stays listed until it is killed. -/
theorem Step.listed_excuses (hstep : Step cfg env s a sec conns) (hu : Under s.st C x b agent)
    (he : ∃ w c, s.conns.get w = some c ∧ x ∈ c.phase.kills) :
    Excused ⟨exec cfg ops env s.st sec, conns⟩ C x b agent := by
  unfold Excused
  cases hstep with
  | refused _ | request _ _ _ | background _ => exact .inr (.inr (.inr (.inl he)))
  | opened hc _ => exact .inr (.inr (.inr (.inl (opened_stays hc he))))
  | @orphan w c y ids hc hp =>
    by_cases hy : x = y
    · subst hy
      exact .inr (.inr (.inl (killActor_excuses hu.actor hu.live hu.link hu.up)))
    · refine .inr (.inr (.inr (.inl (kills_stay hc (fun hx => ?_) he))))
      rw [Phase.ofOrphans_kills]
      rw [hp] at hx
      exact (List.mem_cons.mp hx).resolve_left hy
  | @reapKill w c y ids hc hp =>
    by_cases hy : x = y
    · subst hy
      exact .inr (.inr (.inl (killActor_excuses hu.actor hu.live hu.link hu.up)))
    · refine .inr (.inr (.inr (.inl (kills_stay hc (fun hx => ?_) he))))
      rw [hp] at hx
      exact (List.mem_cons.mp hx).resolve_left hy
  | eof hc hp | unlist hc hp _ | arm hc hp _ =>
    exact .inr (.inr (.inr (.inl (kills_stay hc (fun hx => by simp [hp, Phase.kills] at hx) he))))
  | drop hc hp _ | finish hc hp =>
    exact .inr (.inr (.inr (.inl (conn_stays hc (.inr rfl) (by simp [hp, Phase.kills]) he))))
  | checkDone hc hd _ =>
    refine .inr (.inr (.inr (.inl (conn_stays hc (.inr rfl) (fun hx => ?_) he))))
    exact absurd hx (by simp [reapDue_kills hd])
  | checkReap hc hd _ =>
    refine .inr (.inr (.inr (.inl (kills_stay hc (fun hx => ?_) he))))
    exact absurd hx (by simp [reapDue_kills hd])

/-- A close before the arming ends in a pending reap, a list, or the session's holder. -/
theorem Step.closing_excuses (hstep : Step cfg env s a sec conns) (hok : a.orphansKept cfg s = true)
    (hu : Under s.st C x b agent)
    (he : ∃ w c, s.conns.get w = some c ∧ c.client = b.owner ∧ c.phase.isUnlisted = true) :
    Excused ⟨exec cfg ops env s.st sec, conns⟩ C x b agent := by
  unfold Excused
  simp only [exec_reapPending]
  cases hstep with
  | refused _ | request _ _ _ | background _ => exact .inr (.inr (.inr (.inr he)))
  | opened hc _ => exact .inr (.inr (.inr (.inr (opened_stays hc he))))
  | orphan hc hp | reapKill hc hp | eof hc hp | unlist hc hp _ =>
    refine .inr (.inr (.inr (.inr (conn_stays hc (.inl ⟨_, rfl⟩) ?_ he))))
    simp [hp, Phase.isUnlisted]
  | drop hc hp _ | finish hc hp =>
    refine .inr (.inr (.inr (.inr (conn_stays hc (.inr rfl) ?_ he))))
    simp [hp, Phase.isUnlisted]
  | @arm w c g hc hp _ =>
    by_cases ho : b.owner = c.client
    · exact .inr (.inl (Table.has_set.mpr (.inl ho)))
    · exact .inr (.inr (.inr (.inr (conn_stays hc (.inl ⟨_, rfl⟩) (fun hk => ho hk.1.symm) he))))
  | @checkDone w c g t hc hd hr =>
    by_cases ho : b.owner = c.client
    · rcases check_excuses hok hu hc hd ho hr with ⟨n, rfl, -⟩ | hC
      · refine .inr (.inr (.inr (.inr (conn_stays hc (.inr rfl) (fun hk => ?_) he))))
        simp [reapDue_token hd] at hk
      · exact .inl hC
    · exact .inr (.inr (.inr (.inr (conn_stays hc (.inr rfl) (fun hk => ho hk.1.symm) he))))
  | @checkReap w c g t ids hc hd hr =>
    by_cases ho : b.owner = c.client
    · exact .inr (.inr (.inr (.inl ⟨w, _, Table.get_set_self _ _ _, check_lists hu ho hr⟩)))
    · exact .inr (.inr (.inr (.inr (conn_stays hc (.inl ⟨_, rfl⟩) (fun hk => ho hk.1.symm) he))))

/-- What excuses an actor before a step excuses it after, on the same link. -/
theorem Step.excuses (hstep : Step cfg env s a sec conns) (hok : a.orphansKept cfg s = true)
    (hu : Under s.st C x b agent) (hl : b.Later b') (hw : agent'.writer = agent.writer)
    (he : Excused s C x b agent) : Excused ⟨exec cfg ops env s.st sec, conns⟩ C x b' agent' := by
  have hsame : Excused ⟨exec cfg ops env s.st sec, conns⟩ C x b agent := by
    rcases he with he | he | he | he | he
    · exact .inl he
    · exact hstep.pending_excuses hok hu he
    · obtain ⟨sent, hsent, -⟩ := exec_wire cfg ops env s.st sec
      refine .inr (.inr (.inl ?_))
      simp only [hsent]
      exact List.mem_append_left _ he
    · exact hstep.listed_excuses hu he
    · exact hstep.closing_excuses hok hu he
  unfold Excused at hsame ⊢
  rw [hl.owner, hw]
  exact hsame

end Excuses

/-- The same actor under the same session before, from the rows before. -/
theorem Under.before {st st' : State} {C : ClientId} {x : ActorId} {b b' : ActorInfo}
    {agent agent' : AgentInfo} {row : ClientInfo} (hu : Under st' C x b' agent')
    (hb : st.actors.get x = some b) (hl : b.Later b') (hag : st.agents.get b.agent = some agent)
    (hlag : agent.Later agent') (hrow : st.clients.get C = some row) (hs : row.hasSession = true)
    (hg : b'.group = row.group) : Under st C x b agent where
  session := ⟨row, hrow, hs, by rw [← hl.group, hg]⟩
  actor := hb
  live := hl.live hu.live
  link := hag
  up := (hlag.alive hu.up).1

/-- But for a hello, a step leaves only sessions there were, in their groups. -/
theorem Step.session {s : Sys} {a : Act} {sec : Section} {conns : Table FrameWriter Conn}
    (hstep : Step cfg env s a sec conns) (hno : ∀ w h, a ≠ .hello w h) {C : ClientId}
    {row : ClientInfo} (h : (sec.clientsAfter s.st).get C = some row) :
    s.st.clients.get C = some row := by
  cases hstep with
  | refused _ | opened _ _ => exact absurd rfl (hno _ _)
  | request _ _ hb => rwa [(byClient_clients hb).1] at h
  | background hb =>
    cases sec with
    | elect candidate =>
      simp only [Section.clientsAfter] at h
      split at h
      · exact h
      · cases h
    | _ => first | exact h | cases hb
  | drop _ _ _ =>
    simp only [Section.clientsAfter] at h
    split at h
    · exact (Table.get_erase_some h).2
    · exact h
  | unlist _ _ _ => exact (Table.get_erase_some h).2
  | orphan _ _ | eof _ _ | arm _ _ _ | checkDone _ _ _ | checkReap _ _ _ | reapKill _ _
  | finish _ _ => exact h

/-- A session that opens lists the actors of the group it does not own, or leaves them to their
owner's pending reap. -/
theorem hello_lists {st' : State} {w : FrameWriter} {h : Hello} {s : Sys}
    {orphans : List ActorId} {x : ActorId} {b : ActorInfo} {agent : AgentInfo}
    (hok : (Act.hello w h).orphansKept cfg s = true)
    (hh : hello env s.st w h = some (st', orphans)) (hs : h.session = true)
    (hb : s.st.actors.get x = some b) (hl : b.state.isDead = false) (hg : b.group = h.group)
    (hag : liveAgent s.st b.agent = some agent) :
    b.owner = h.clientId ∨ s.st.reapPending.has b.owner = true ∨ x ∈ orphans := by
  rw [or_iff_not_imp_left, or_iff_not_imp_left]
  intro ho hp
  rw [Bool.not_eq_true] at hp
  simp only [Act.orphansKept, hs, if_true, List.all_eq_true] at hok
  have hses := hok b (Table.mem_values.mpr ⟨x, hb⟩)
  simp only [hg, beq_self_eq_true, bne_iff_ne.mpr ho, hl, Bool.not_false, hag, Option.isSome_some,
    Bool.and_self, Bool.true_and, hp, Bool.or_false, Bool.not_eq_true'] at hses
  obtain ⟨-, horph, -⟩ := hello_eq_some hh
  rw [horph, if_pos hs]
  refine Env.mem_select.mpr ⟨b, hb, ?_⟩
  simp [isOrphan, hg, ho, hl, hses, hp]

/-- A registration leaves no live actor under a session that is not the session's own, but for
those it kills, those whose owner's reap is pending, and those it does not concern. -/
theorem register_excuses {s : Sys} {w : FrameWriter} {r : AgentRegister} {C : ClientId}
    {x : ActorId} {b' : ActorInfo} {agent' : AgentInfo} (h : Reclaimed s)
    (hok : (Act.background (.register w r)).orphansKept cfg s = true)
    (hu : Under (exec cfg ops env s.st (.register w r)) C x b' agent') :
    Excused ⟨exec cfg ops env s.st (.register w r), s.conns⟩ C x b' agent' := by
  obtain ⟨row, hrow, hs, hg⟩ := hu.session
  rw [exec_clients] at hrow
  have hagents : (exec cfg ops env s.st (.register w r)).agents =
      s.st.agents.set r.agentId (agentOfRegister r w s.st.nextSeq) :=
    (register_quiet cfg ops env s.st w r).agents
  have hown : ∀ {group : String} {owner : ClientId}, ownGroup s.st group owner = true →
      b'.group = group → b'.owner = owner →
      Excused ⟨exec cfg ops env s.st (.register w r), s.conns⟩ C x b' agent' := by
    intro group owner ho hgr how
    rcases ownGroup_excuses ho hrow hs (hg.symm.trans hgr) with hp | hC
    · exact .inr (.inl (by rw [how, exec_reapPending]; exact hp))
    · exact .inl (how.trans hC)
  simp only [Act.orphansKept, List.all_eq_true] at hok
  rcases exec_actor cfg ops env hu.actor with ⟨b, hb, hl⟩ | ⟨_, _, _, _, he, -⟩ |
    ⟨_, _, y, he, hnone, hy, hyx, hl⟩
  · have hlb := hl.live hu.live
    by_cases hag : b.agent = r.agentId
    · -- One of the agent's own: it has reported it, so the registration asked for its owner.
      have hres := register_live_resumed cfg ops env s.st w r hu.actor hu.live (hl.agent.trans hag)
      obtain ⟨y, hy, hyx⟩ := List.mem_map.mp hres
      have hyk := hok y hy
      simp only [hyx, hb, hag, bne_self_eq_false, hlb, Bool.or_self, Bool.false_or,
        Bool.or_eq_true, Bool.not_eq_true'] at hyk
      rcases hyk with hno | ho
      · have hwr : agent'.writer = w := by
          have hlink := hu.link
          rw [hagents, hl.agent, hag, Table.get_set_self] at hlink
          cases hlink
          rfl
        obtain ⟨held, -, hwire⟩ := register_wire cfg ops env s.st w r
        refine .inr (.inr (.inl ?_))
        rw [hwr]
        show _ ∈ (register cfg ops env s.st w r).wire
        rw [hwire]
        refine List.mem_append_right _ (List.mem_append_left _ (List.mem_cons_of_mem _ ?_))
        refine List.mem_map.mpr ⟨x, List.mem_filter.mpr ⟨hres, ?_⟩, rfl⟩
        simp [rejects, hb, hno]
      · exact hown ho hl.group hl.owner
    · -- Another agent's: neither its row nor its link is touched.
      have hlink := hu.link
      rw [hagents, hl.agent, Table.get_set_of_ne hag] at hlink
      have hold := hu.before hb hl hlink (.refl agent') hrow hs hg
      exact Step.excuses (a := .background (.register w r)) (.background rfl)
        (by simpa only [Act.orphansKept, List.all_eq_true] using hok) hold hl rfl
        (h C x b agent' hold)
  · cases he
  · cases he
    have hyk := hok y hy
    simp only [hyx, hnone] at hyk
    exact hown hyk hl.group hl.owner

theorem Reclaimed.step {s s' : Sys} {l : Env × Act} (h : Reclaimed s)
    (hok : l.2.orphansKept cfg s = true)
    (hn : (threads cfg ops ownerOf).next s l = some s') : Reclaimed s' := by
  obtain ⟨sec, conns, hstep, -, -, rfl⟩ := threads_next hn
  obtain ⟨env, a⟩ := l
  simp only at hstep hok
  intro C x b' agent' hu
  obtain ⟨row, hrow, hs, hg⟩ := hu.session
  simp only [exec_clients] at hrow
  -- A row and a link there were before, under a session there was before.
  have hkept : ∀ {b : ActorInfo} {row : ClientInfo}, s.st.actors.get x = some b → b.Later b' →
      (∀ w r, sec ≠ .register w r) → s.st.clients.get C = some row → row.hasSession = true →
      b'.group = row.group → Excused ⟨exec cfg ops env s.st sec, conns⟩ C x b' agent' := by
    intro b row hb hl hreg hrow hs hg
    rcases exec_agents cfg ops env s.st sec with ⟨w, r, he, -⟩ | hages
    · exact absurd he (hreg w r)
    · obtain ⟨agent, hag, hlag⟩ := hages _ _ hu.link
      rw [hl.agent] at hag
      have hold := hu.before hb hl hag hlag hrow hs hg
      exact hstep.excuses hok hold hl hlag.writer (h C x b agent hold)
  have hplain : (∀ w h, a ≠ .hello w h) → (∀ w r, sec ≠ .register w r) →
      (∀ r, sec ≠ .actorCreate r) →
      Excused ⟨exec cfg ops env s.st sec, conns⟩ C x b' agent' := by
    intro hhello hreg hcreate
    rcases exec_actor cfg ops env hu.actor with ⟨b, hb, hl⟩ | ⟨r, _, _, _, he, -⟩ | ⟨w, r, _, he, -⟩
    · exact hkept hb hl hreg (hstep.session hhello hrow) hs hg
    · exact absurd he (hcreate r)
    · exact absurd he (hreg w r)
  cases hstep with
  | refused hh =>
    simp only [exec_hello_none _ _ _ hh] at hu ⊢
    exact h C x b' agent' hu
  | @opened w hl st' orphans hw hh =>
    rcases exec_actor cfg ops env hu.actor with ⟨b, hb, hbl⟩ | ⟨_, _, _, _, he, -⟩ | ⟨_, _, _, he, -⟩
    · rw [Section.clientsAfter, (hello_eq_some hh).1] at hrow
      rcases Table.get_set_some hrow with ⟨hC, rfl⟩ | ⟨-, hrow⟩
      · by_cases hsess : hl.session = true
        · rcases exec_agents cfg ops env s.st (.hello w hl) with ⟨_, _, he, -⟩ | hages
          · cases he
          obtain ⟨agent, hag, hlag⟩ := hages _ _ hu.link
          rw [hbl.agent] at hag
          have hlive := liveAgent_eq_some.mpr ⟨hag, (hlag.alive hu.up).1⟩
          rcases hello_lists hok hh hsess hb (hbl.live hu.live) (hbl.group.symm.trans hg) hlive with
            ho | hp | hx
          · exact .inl (by rw [hbl.owner, ho, hC])
          · exact .inr (.inl (by rw [exec_reapPending, hbl.owner]; exact hp))
          · exact .inr (.inr (.inr (.inl ⟨w, _, Table.get_set_self _ _ _, by simpa using hx⟩)))
        · -- The session was there before, for the same group.
          rw [Bool.not_eq_true] at hsess
          cases hold : s.st.clients.get hl.clientId with
          | none => simp [helloRow, hsess, hold] at hs
          | some row =>
            simp only [helloRow, hsess, hold, Option.getD_some, Bool.false_or] at hs
            simp only [Act.orphansKept, hsess, hold, Option.all_some, hs, Bool.not_true,
              Bool.false_or, Bool.false_eq_true, if_false, beq_iff_eq] at hok
            exact hkept hb hbl (by simp) (hC ▸ hold) hs (hg.trans hok.symm)
      · exact hkept hb hbl (by simp) hrow hs hg
    · cases he
    · cases he
  | request hw hp hb =>
    rw [(byClient_clients hb).1] at hrow
    rcases exec_actor cfg ops env hu.actor with ⟨b, hbx, hbl⟩ |
      ⟨r, bundle, agent, ip, rfl, -, htarget, hbl⟩ | ⟨_, _, _, rfl, -⟩
    · refine hkept hbx hbl ?_ hrow hs hg
      rintro w r rfl
      cases hb
    · simp only [Act.orphansKept, htarget] at hok
      rcases ownGroup_excuses hok hrow hs (hg.symm.trans hbl.group) with hpend | hC
      · exact .inr (.inl (by rw [exec_reapPending, hbl.owner]; exact hpend))
      · exact .inl (hbl.owner.trans hC)
    · cases hb
  | background hb =>
    cases sec with
    | register w r => exact register_excuses h hok hu
    | actorCreate r => cases hb
    | _ => exact hplain (by simp) (by simp) (by simp)
  | orphan _ _ | eof _ _ | drop _ _ _ | unlist _ _ _ | arm _ _ _ | checkDone _ _ _
  | checkReap _ _ _ | reapKill _ _ | finish _ _ => exact hplain (by simp) (by simp) (by simp)

/-! ## At rest -/

/-- No thread is between two of its sections: every connection serves its client, or waits out a
grace. -/
def AtRest (s : Sys) : Prop :=
  ∀ w c, s.conns.get w = some c → c.phase = .serving ∨ ∃ group token, c.phase = .armed group token

/-- In every state at rest that a run of admitted steps reaches: under a driver's session, a live
actor on a live link is the driver's own, or its owner's reap is pending, or its agent has been
sent its kill on the link it is on. -/
theorem orphans_reclaimed {s : Sys} {C : ClientId} {x : ActorId} {a : ActorInfo}
    {agent : AgentInfo}
    (h : (threads cfg ops ownerOf).Reach (fun s l => l.2.orphansKept cfg s) s) (hrest : AtRest s)
    (hu : Under s.st C x a agent) :
    a.owner = C ∨ s.st.reapPending.has a.owner = true ∨
      (agent.writer, ToAgent.actorKill x) ∈ s.st.wire := by
  have hinv : Reclaimed s := by
    refine h.invariant ?_ fun s l s' ih hok hn => ih.step hok hn
    rintro s ⟨⟨_, _, _, hs⟩, -⟩ C x a agent hu
    have hx := hu.actor
    rw [hs] at hx
    cases hx
  have hidle : ∀ w c, s.conns.get w = some c → c.phase.kills = [] ∧ c.phase.isUnlisted = false := by
    intro w c hw
    rcases hrest w c hw with hp | ⟨_, _, hp⟩ <;> rw [hp] <;> exact ⟨rfl, rfl⟩
  rcases hinv C x a agent hu with ho | hp | hk | ⟨w, c, hw, hx⟩ | ⟨w, c, hw, -, hx⟩
  · exact .inl ho
  · exact .inr (.inl hp)
  · exact .inr (.inr hk)
  · rw [(hidle w c hw).1] at hx
    cases hx
  · rw [(hidle w c hw).2] at hx
    cases hx

/-- A driver's session opens over an actor adopted from a driver that is gone, and kills it. -/
def reclaimed : List (Env × Act) := [
  (Sample.at_ 0, .background (.elect "n:1")),
  (Sample.at_ 1, .background (.register 1
    (Sample.registration [Sample.resumed "a:1" [0] "c1" []] []))),
  (Sample.at_ 2, .hello 2 (Sample.driver "c2" true)),
  (Sample.at_ 3, .orphan 2)]

/-- The same, but the agent registers once the session is open. -/
def lateAdoption : List (Env × Act) := [
  (Sample.at_ 0, .background (.elect "n:1")),
  (Sample.at_ 1, .hello 2 (Sample.driver "c2" true)),
  (Sample.at_ 2, .background (.register 1
    (Sample.registration [Sample.resumed "a:1" [0] "c1" []] [])))]

/-- What the two runs end in, as a check. -/
def underSession (s : Sys) : Bool :=
  (s.conns.rows.all fun (_, c) => c.phase == .serving) &&
    ((s.st.clients.get "c2").any fun row => row.hasSession && row.group == "g") &&
    ((s.st.actors.get "a:1").any fun a =>
      a.owner == "c1" && a.group == "g" && a.agent == "ag" && !a.state.isDead) &&
    (s.st.agents.get "ag").any fun agent => agent.alive && agent.writer == 1

theorem underSession_spec {s : Sys} (h : underSession s = true) :
    AtRest s ∧ ∃ a agent, Under s.st "c2" "a:1" a agent ∧ a.owner = "c1" ∧ agent.writer = 1 := by
  simp only [underSession, Bool.and_eq_true, List.all_eq_true, Option.any_eq_true, beq_iff_eq,
    Bool.not_eq_true'] at h
  obtain ⟨⟨⟨hrest, row, hrow, hs, hg⟩, a, ha, ⟨⟨ho, hag⟩, hagent⟩, hl⟩, agent, hlink, hup, hw⟩ := h
  refine ⟨fun w c hc => .inl (hrest _ (Table.mem_rows.mpr hc)), a, agent, ?_, ho, hw⟩
  exact ⟨⟨row, hrow, hs, hag.trans hg.symm⟩, ha, hl, by rw [hagent, hlink], hup⟩

theorem orphans_reclaimed_reclaimed :
    ∃ s a agent, (threads Sample.cfg Sample.ops fun _ => "c1").Reach
        (fun s l => l.2.orphansKept Sample.cfg s) s ∧
      AtRest s ∧ Under s.st "c2" "a:1" a agent ∧ a.owner = "c1" ∧
      (a.owner = "c2" ∨ s.st.reapPending.has a.owner = true ∨
        (agent.writer, ToAgent.actorKill "a:1") ∈ s.st.wire) := by
  have hrun : ((threads Sample.cfg Sample.ops fun _ => "c1").run
      (fun s l => l.2.orphansKept Sample.cfg s) ⟨Sample.boot, ∅⟩ reclaimed).any underSession =
      true := by decide +kernel
  obtain ⟨s, hreach, hp⟩ := System.Reach.of_run hrun ⟨⟨_, _, _, rfl⟩, rfl⟩
  obtain ⟨hrest, a, agent, hu, ho, -⟩ := underSession_spec hp
  exact ⟨s, a, agent, hreach, hrest, hu, ho, orphans_reclaimed hreach hrest hu⟩

/-- An actor adopted under an open session stays: it is not the session's, no reap is pending, and
no kill has been sent. -/
theorem lateAdoption_keeps_orphan :
    ∃ s a agent, (threads Sample.cfg Sample.ops fun _ => "c1").Reach System.Free s ∧
      AtRest s ∧ Under s.st "c2" "a:1" a agent ∧ a.owner ≠ "c2" ∧
      s.st.reapPending.has a.owner = false ∧ ∀ w, (w, ToAgent.actorKill "a:1") ∉ s.st.wire := by
  have hrun : ((threads Sample.cfg Sample.ops fun _ => "c1").run System.Free ⟨Sample.boot, ∅⟩
      lateAdoption).any (fun s => underSession s && !s.st.reapPending.has "c1" &&
        s.st.wire.all fun f => !f.2.kills "a:1") = true := by decide +kernel
  obtain ⟨s, hreach, hp⟩ := System.Reach.of_run hrun ⟨⟨_, _, _, rfl⟩, rfl⟩
  simp only [Bool.and_eq_true, Bool.not_eq_true', List.all_eq_true] at hp
  obtain ⟨⟨hunder, hpend⟩, hno⟩ := hp
  obtain ⟨hrest, a, agent, hu, ho, -⟩ := underSession_spec hunder
  refine ⟨s, a, agent, hreach, hrest, hu, ?_, ho ▸ hpend, fun w hmem => ?_⟩
  · rw [ho]
    decide
  · have := hno _ hmem
    rw [ToAgent.kills_iff.mpr rfl] at this
    cases this

end Mentat
