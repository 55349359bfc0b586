import Mentat.Agent.Relaying

/-!
# Results across an outage

A result that the agent has read must not be lost with its link: `keeps` lists the steps that do it no
harm until the daemon has it, and over such steps the call ends with it (`result_kept`).

The others fail the call. A relay takes the call from its actor's entry before it has sent or buffered
the result, and a registration may come between. An actor that has exited is left out of the
registration, and its calls are failed before the buffer's are looked at (`result_lost`).
-/

namespace Mentat

/-! ## What is asked of it -/

namespace Relaying

/-- A thread of the agent has the result in hand. -/
def held (s : Relaying) (v : HostResult) : Bool :=
  s.box.threads.values.any fun t => t.inHand.any (·.msg == v.msg)

/-- The result is in the buffer, or in the part of it that is being drained. -/
def buffered (s : Relaying) (v : HostResult) : Bool :=
  (s.box.unsent ++ s.box.serving.rest).any (·.msg == v.msg)

/-- The result is written on the link and not read. -/
def unreadOn (s : Relaying) (v : HostResult) (w : FrameWriter) : Bool :=
  (s.unread w).any (·.msg == v.msg)

/-- The call is pending at the daemon. -/
def isPending (s : Relaying) (v : HostResult) : Bool :=
  (s.st.refs.get v.refId).any (·.state == .pending)

/-- The result is out of its thread's hands, the buffer is drained and what was written is read. -/
def drained (s : Relaying) (v : HostResult) : Bool :=
  !s.held v && s.box.unsent.isEmpty && s.box.serving.rest.isEmpty &&
    (List.range s.box.nextLink).all fun w => (s.unread w).isEmpty

/-- What a step must not do to a result on its way. -/
def safe (s : Relaying) (v : HostResult) : Act → Bool
  -- No snapshot of the actors leaves the actor out while the agent has its result.
  | .resume _ => s.hosts.has v.actorId || !(s.held v || s.buffered v)
  -- None of the buffer comes while the result is in a thread's hands, unless the other has the call.
  | .unacked => !s.held v || s.dial.lists v.refId
  -- The daemon reads the registration that the agent waits for, when no link has the result.
  | .register _ w => s.dial.waitsOn w &&
      (List.range s.box.nextLink).all fun w' => !s.unreadOn v w'
  -- The actor's end is written behind its result.
  | .send a => (s.box.writes a).all fun p => !p.1.msg.buries v.actorId || s.unreadOn v p.2
  | _ => true

/-- Until the daemon has the result, the steps do no harm to it. -/
def keeps (v : HostResult) (s : Relaying) (a : Act) : Bool := !s.isPending v || s.safe v a

/-- The daemon's other sections leave the call alone. -/
def spares (cfg : Cfg) (ops : ClaimOps) (v : HostResult) (s : Relaying) : Act → Bool
  | .head env sec =>
    decide (((exec cfg ops env s.st sec).refs.get v.refId).map (·.state) =
      (s.st.refs.get v.refId).map (·.state))
  | _ => true

end Relaying

/-! ## What the daemon's sections leave of a row -/

section Sections

variable {cfg : Cfg} {ops : ClaimOps} {env : Env} {st : State} {rid : RefId} {ref : RefInfo}

/-- A death leaves the calls of other actors, and those that are resolved. -/
theorem markActorDead_row (h : st.refs.get rid = some ref) {x : ActorId} (reason : String)
    (hk : ref.state ≠ .pending ∨ ref.actor ≠ some x) :
    (markActorDead cfg ops env st x reason).refs.get rid = some ref := by
  have hfan : ∀ s : State, s.refs = st.refs →
      (fanOutDeath cfg ops env s x reason).refs.get rid = some ref := by
    intro s hs
    rw [fanOutDeath_refs, Table.get_map, hs, h, Option.map_some, RefInfo.fail, if_neg]
    rintro ⟨hx, hp⟩
    exact hk.elim (fun hk => hk hp) fun hk => hk hx
  unfold markActorDead
  split
  · exact hfan st rfl
  · split
    · exact h
    · exact hfan _ rfl

/-- A registration leaves a call it names with its actor, and one that is resolved. -/
theorem register_row (h : st.refs.get rid = some ref) {w : FrameWriter} {r : AgentRegister}
    (hk : ref.state ≠ .pending ∨ (rid ∈ r.reported ∧ ∀ x, ref.actor = some x → x ∈ r.resumed)) :
    (register cfg ops env st w r).refs.get rid = some ref := by
  have hadopt : (adoptRefs env (adoptActors (insertAgent st w r) r) r).refs.get rid = some ref :=
    foldl_adoptRef_known (by rw [adoptActors_refs]; exact h)
  generalize hst : adoptRefs env (adoptActors (insertAgent st w r) r) r = adopted at hadopt
  have hbury : (buryMissing cfg ops env adopted r).refs.get rid = some ref := by
    refine List.foldlRecOn (motive := fun s : State => s.refs.get rid = some ref) _ _ hadopt
      fun s hs y hy => markActorDead_row hs _ ?_
    obtain ⟨b, -, hp⟩ := Env.mem_select.mp hy
    simp only [Bool.and_eq_true, Bool.not_eq_true', List.contains_eq_mem,
      decide_eq_false_iff_not] at hp
    exact hk.imp_right fun hk he => hp.2 (hk.2 y he)
  have hlost : isLost (buryMissing cfg ops env adopted r) r rid ref = false := by
    rcases hk with hk | hk
    · simp [isLost, hk]
    · simp [isLost, hk.1]
  rw [register_eq, tryPlace_refs]
  show (failLost (buryMissing cfg ops env
    (adoptRefs env (adoptActors (insertAgent st w r) r) r) r) r).refs.get rid = some ref
  rw [hst, failLost, Table.get_map, hbury, Option.map_some, hlost]
  rfl

/-- A frame of an agent leaves the calls it neither answers nor buries. -/
theorem agentFrame_row (h : st.refs.get rid = some ref) {id : AgentId} {msg : FromAgent}
    (hk : ref.state ≠ .pending ∨
      (msg.resultRef ≠ some rid ∧ ∀ x, ref.actor = some x → msg.buries x = false)) :
    (agentFrame cfg ops env st id msg).refs.get rid = some ref := by
  cases msg with
  | spawnResult y ok error pid =>
    obtain ⟨actors, hn⟩ := notePid_frame st y pid
    have hnote : (notePid st y pid).refs.get rid = some ref := by
      rw [hn]
      exact h
    simp only [agentFrame, spawnResult]
    generalize notePid st y pid = noted at hnote
    split
    · split <;> exact hnote
    · next hok =>
      refine markActorDead_row hnote _ (hk.imp_right fun hk he => ?_)
      have := hk.2 y he
      simp [FromAgent.buries, hok] at this
  | result r ok error payload =>
    simp only [agentFrame, actorResult, Table.get_modify]
    split
    · next hr =>
      rw [h, Option.map_some, if_neg]
      rcases hk with hk | hk
      · exact hk
      · exact absurd (congrArg some hr.symm) hk.1
    · exact h
  | exit y exitCode signal =>
    refine markActorDead_row h _ (hk.imp_right fun hk he => ?_)
    have := hk.2 y he
    simp [FromAgent.buries] at this
  | serviceNote service note =>
    unfold agentFrame serviceNote
    simp only
    split <;> exact h

/-- A host's result answers its call. -/
theorem agentFrame_result (h : st.refs.get rid = some ref) (hp : ref.state = .pending)
    (id : AgentId) (ok : Bool) (payload : Payload) :
    (agentFrame cfg ops env st id (.result rid ok "" payload)).refs.get rid =
      some { ref with state := .ready ok payload } := by
  simp [agentFrame, actorResult, h, hp]

end Sections

/-! ## A result on its way -/

namespace Relaying

variable {cfg : Cfg} {ops : ClaimOps} {g : AgentId} {s s' : Relaying} {v : HostResult}

theorem held_iff : s.held v = true ↔ ∃ m, s.box.Hand m ∧ m.msg = v.msg := by
  simp only [held, List.any_eq_true, Table.mem_values, Option.any_eq_true, beq_iff_eq]
  constructor
  · rintro ⟨t, ⟨k, hk⟩, m, hm, he⟩
    exact ⟨m, ⟨k, by rw [Outbox.thread, hk]; exact hm⟩, he⟩
  · rintro ⟨m, ⟨k, hk⟩, he⟩
    unfold Outbox.thread at hk
    cases ht : s.box.threads.get k with
    | none =>
      rw [ht] at hk
      cases hk
    | some t =>
      rw [ht] at hk
      exact ⟨t, ⟨k, ht⟩, m, hk, he⟩

theorem buffered_iff : s.buffered v = true ↔ ∃ m, s.box.Buffered m ∧ m.msg = v.msg := by
  simp only [buffered, List.any_eq_true, List.mem_append, beq_iff_eq, Outbox.Buffered]

theorem unreadOn_iff {w : FrameWriter} : s.unreadOn v w = true ↔ ∃ m ∈ s.unread w, m.msg = v.msg := by
  simp only [unreadOn, List.any_eq_true, beq_iff_eq]

/-- A frame is on a link that has been published. -/
theorem Lines.lt_nextLink (h : Lines s) {w : FrameWriter} {m : Letter} (hm : m ∈ s.unread w) :
    w < s.box.nextLink := by
  by_contra hw
  have hm' := List.mem_of_mem_drop hm
  rw [h.links.fresh w (not_lt.mp hw)] at hm'
  cases hm'

/-- The result is in the agent. -/
def inAgent (s : Relaying) (v : HostResult) : Prop := s.held v = true ∨ s.buffered v = true

theorem inAgent_iff : s.inAgent v ↔ ∃ m, (s.box.Hand m ∨ s.box.Buffered m) ∧ m.msg = v.msg := by
  rw [inAgent, held_iff, buffered_iff]
  constructor
  · rintro (⟨m, hm, he⟩ | ⟨m, hm, he⟩)
    · exact ⟨m, .inl hm, he⟩
    · exact ⟨m, .inr hm, he⟩
  · rintro ⟨m, hm | hm, he⟩
    · exact .inl ⟨m, hm, he⟩
    · exact .inr ⟨m, hm, he⟩

/-- The result is in the agent or on a link, and nothing that would fail the call is ahead of it. -/
structure OnWay (s : Relaying) (v : HostResult) : Prop where
  place : s.inAgent v ∨ ∃ w, s.unreadOn v w = true
  only : ∀ ok error payload, s.box.Tells (.result v.refId ok error payload) →
    .result v.refId ok error payload = v.msg
  resumed : ∀ l, s.dial.resume = some l → s.inAgent v → v.actorId ∈ l.map (·.actorId)
  reported : ∀ refs, s.dial.refs = some refs → s.inAgent v →
    s.dial.lists v.refId = true ∨ v.refId ∈ refs
  behind : ∀ w before m after, s.unread w = before ++ m :: after →
    m.msg.buries v.actorId = true → ∃ m' ∈ before, m'.msg = v.msg

/-- A frame that is written is read after what was on the link. -/
theorem unread_write (hl : Lines s) {m : Letter} {w : FrameWriter}
    (hw : s'.box.written = (s.box.write w m).written) (hread : s'.read = s.read) :
    s'.unread w = s.unread w ++ [m] ∧ ∀ u, u ≠ w → s'.unread u = s.unread u := by
  have hself : (s.box.write w m).written w = s.box.written w ++ [m] := by simp [Outbox.write]
  refine ⟨?_, fun u hu => ?_⟩
  · rw [unread, hw, hread, hself, List.drop_append_of_le_length (hl.read w), unread]
  · have hne : (s.box.write w m).written u = s.box.written u := by simp [Outbox.write, hu]
    rw [unread, hw, hread, hne, unread]

namespace OnWay

theorem tells (h : OnWay s v) : s.box.Tells v.msg := by
  rcases h.place with hp | ⟨w, hw⟩
  · obtain ⟨m, hm, he⟩ := inAgent_iff.mp hp
    exact ⟨m, he, hm.imp_right .inl⟩
  · obtain ⟨m, hm, he⟩ := unreadOn_iff.mp hw
    exact ⟨m, he, .inr (.inr ⟨w, List.mem_of_mem_drop hm⟩)⟩

/-- A step of the agent's threads. A registration that is under way goes on or is over. -/
theorem of_box (h : OnWay s v) (hf : Frames s) (hl : Lines s) {a : Act} {b : Outbox.Act}
    (hb : BoxStep s a b s') (hsafe : s.safe v a = true) (hread : s'.read = s.read)
    (hdial : s'.dial = s.dial ∨ s'.dial = .idle) : OnWay s' v := by
  have hmoved := Outbox.Moved.of_step hb.step
  -- No host has the call, so no other result of it is produced.
  have hnew : ∀ t ok error payload, b ≠ .produce t (.result v.refId ok error payload) := by
    intro t ok error payload he
    obtain ⟨x, p, hp, hr⟩ := hb.produce t _ ok error payload he
    exact (hf.answered _ _ _ _ h.tells).2 x p hp hr
  have hagent : s'.inAgent v → s.inAgent v := by
    intro hin
    obtain ⟨m, hm, he⟩ := inAgent_iff.mp hin
    refine inAgent_iff.mpr ⟨m, ?_, he⟩
    rcases hm with hm | hm
    · rcases hmoved.hand m hm with hm | ⟨t, ht⟩
      · exact .inl hm
      · exact absurd (ht.trans (congrArg _ he)) (hnew t v.ok "" v.payload)
    · exact hmoved.buffered m hm
  -- What is unread stays so, with the frame written behind it.
  have hunread : (∀ w, s'.unread w = s.unread w) ∨ ∃ m w, s.box.writes b = some (m, w) ∧
      s'.unread w = s.unread w ++ [m] ∧ ∀ u, u ≠ w → s'.unread u = s.unread u := by
    rcases hmoved.written with he | ⟨m, w, hw, -, he⟩
    · exact .inl fun w => by rw [unread, he, hread, unread]
    · exact .inr ⟨m, w, hw, unread_write hl he hread⟩
  have hmem : ∀ w m, m ∈ s.unread w → m ∈ s'.unread w := by
    intro w m hm
    rcases hunread with he | ⟨m', u, -, he, hne⟩
    · rw [he]
      exact hm
    · by_cases hu : w = u
      · rw [hu, he]
        exact List.mem_append_left _ (hu ▸ hm)
      · rw [hne w hu]
        exact hm
  refine ⟨?_, fun ok error payload ht => ?_, fun l hd hin => ?_, fun refs hd hin => ?_,
    fun w before m after hsplit hbury => ?_⟩
  · rcases h.place with hp | ⟨w, hw⟩
    · obtain ⟨m, hm, he⟩ := inAgent_iff.mp hp
      rcases hmoved.kept m hm with hk | ⟨w, hw, hwritten⟩
      · exact .inl (inAgent_iff.mpr ⟨m, hk, he⟩)
      · refine .inr ⟨w, unreadOn_iff.mpr ⟨m, ?_, he⟩⟩
        rw [(unread_write hl hwritten hread).1]
        exact List.mem_append_right _ (List.mem_singleton_self m)
    · obtain ⟨m, hm, he⟩ := unreadOn_iff.mp hw
      exact .inr ⟨w, unreadOn_iff.mpr ⟨m, hmem w m hm, he⟩⟩
  · rcases hmoved.tells ht with ht | ⟨t, ha⟩
    · exact h.only ok error payload ht
    · exact absurd ha (hnew t ok error payload)
  · rcases hdial with he | he
    · exact h.resumed l (he ▸ hd) (hagent hin)
    · rw [he] at hd
      cases hd
  · rcases hdial with he | he
    · rw [he] at hd ⊢
      exact h.reported refs hd (hagent hin)
    · rw [he] at hd
      cases hd
  · rcases hunread with he | ⟨m', u, hw, he, hne⟩
    · exact h.behind w before m after (he w ▸ hsplit) hbury
    · by_cases hu : w = u
      · subst hu
        rw [he] at hsplit
        rcases List.eq_nil_or_concat after with rfl | ⟨after', last, rfl⟩
        · -- It is the frame that is written.
          obtain ⟨rfl, hm⟩ := List.append_inj' hsplit rfl
          cases hm
          rw [hb.writes m w hw] at hsafe
          simp only [safe, hw, Option.all_some, Bool.or_eq_true, Bool.not_eq_true', hbury,
            Bool.true_eq_false, false_or] at hsafe
          exact unreadOn_iff.mp hsafe
        · have hpre : s.unread w = before ++ m :: after' := by
            rw [List.concat_eq_append, ← List.cons_append, ← List.append_assoc] at hsplit
            exact (List.append_inj' hsplit rfl).1
          exact h.behind w before m after' hpre hbury
      · exact h.behind w before m after (hne w hu ▸ hsplit) hbury

/-- It is not where nothing is left. -/
theorem not_drained (h : OnWay s v) (hl : Lines s) : s.drained v ≠ true := by
  intro hd
  simp only [drained, Bool.and_eq_true, Bool.not_eq_true', List.isEmpty_iff, List.all_eq_true,
    List.mem_range] at hd
  obtain ⟨⟨⟨hheld, hunsent⟩, hrest⟩, hunread⟩ := hd
  rcases h.place with (hin | hin) | ⟨w, hw⟩
  · cases hheld.symm.trans hin
  · simp [buffered, hunsent, hrest] at hin
  · obtain ⟨m, hm, -⟩ := unreadOn_iff.mp hw
    have hlt := hl.lt_nextLink hm
    rw [hunread w hlt] at hm
    cases hm

/-- Nothing moves, and a registration that is under way goes on or is over. -/
theorem of_dial (h : OnWay s v) (hbox : s'.box = s.box) (hread : s'.read = s.read)
    (hresume : ∀ l, s'.dial.resume = some l → s.inAgent v → v.actorId ∈ l.map (·.actorId))
    (hrefs : ∀ refs, s'.dial.refs = some refs → s.inAgent v →
      s'.dial.lists v.refId = true ∨ v.refId ∈ refs) : OnWay s' v := by
  have hagent : s'.inAgent v ↔ s.inAgent v := by rw [inAgent_iff, inAgent_iff, hbox]
  have hunread : ∀ w, s'.unread w = s.unread w := fun w => by rw [unread, hbox, hread, unread]
  refine ⟨?_, fun ok error payload ht => h.only ok error payload (hbox ▸ ht),
    fun l hl hin => hresume l hl (hagent.mp hin), fun refs hr hin => hrefs refs hr (hagent.mp hin),
    fun w before m after hsplit => h.behind w before m after (hunread w ▸ hsplit)⟩
  refine h.place.imp hagent.mpr (Exists.imp fun w hw => ?_)
  rw [unreadOn, hunread]
  exact hw

/-- The daemon reads a frame that is not the result. -/
theorem read (h : OnWay s v) {w : FrameWriter} {m : Letter} {l : List Letter}
    (hu : s.unread w = m :: l) (hm : m.msg ≠ v.msg) (hbox : s'.box = s.box) (hdial : s'.dial = s.dial)
    (hread : s'.read = Function.update s.read w (s.read w + 1)) : OnWay s' v := by
  have hagent : s'.inAgent v ↔ s.inAgent v := by rw [inAgent_iff, inAgent_iff, hbox]
  have hself : s'.unread w = l := by
    rw [unread, hbox, hread, Function.update_self, ← List.drop_drop]
    show (s.unread w).drop 1 = l
    rw [hu]
    rfl
  have hne : ∀ u, u ≠ w → s'.unread u = s.unread u := fun u hu => by
    rw [unread, hbox, hread, Function.update_of_ne hu, unread]
  refine ⟨h.place.imp hagent.mpr (Exists.imp fun u hw => ?_),
    fun ok error payload ht => h.only ok error payload (hbox ▸ ht), ?_, ?_,
    fun u before f after hsplit hbury => ?_⟩
  · by_cases he : u = w
    · obtain ⟨m', hm', hmsg⟩ := unreadOn_iff.mp hw
      rw [he, hu] at hm'
      rcases List.mem_cons.mp hm' with rfl | hm'
      · exact absurd hmsg hm
      · exact unreadOn_iff.mpr ⟨m', by rw [he, hself]; exact hm', hmsg⟩
    · rw [unreadOn, hne u he]
      exact hw
  · rw [hdial, hagent]
    exact h.resumed
  · rw [hdial, hagent]
    exact h.reported
  · by_cases he : u = w
    · subst he
      rw [hself] at hsplit
      obtain ⟨m', hm', hmsg⟩ := h.behind u (m :: before) f after (by rw [hu, hsplit]; rfl) hbury
      rcases List.mem_cons.mp hm' with rfl | hm'
      · exact absurd hmsg hm
      · exact ⟨m', hm', hmsg⟩
    · exact h.behind u before f after (hne u he ▸ hsplit) hbury

end OnWay

/-- The call is answered with the result, or it is pending and the result on its way. -/
structure Kept (s : Relaying) (v : HostResult) (ref : RefInfo) : Prop where
  row : s.st.refs.get v.refId = some ref
  state : ref.state = .ready v.ok v.payload ∨ (ref.state = .pending ∧ s.OnWay v)

namespace Kept

variable {ref : RefInfo}

/-- The daemon leaves the row, and the agent's part of the step does the result no harm. -/
theorem of_row (h : Kept s v ref) (hrow : s'.st.refs.get v.refId = some ref)
    (hway : ref.state = .pending → s.OnWay v → s'.OnWay v) : Kept s' v ref :=
  ⟨hrow, h.state.imp_right fun hp => ⟨hp.1, hway hp.1 hp.2⟩⟩

theorem isPending (h : Kept s v ref) : s.isPending v = true ↔ ref.state = .pending := by
  simp [Relaying.isPending, h.row]

theorem step {a : Act} (h : Kept s v ref) (hactor : ref.actor = some v.actorId) (hf : Frames s)
    (hl : Lines s) (hs : Step cfg ops g s a s') (hkeeps : keeps v s a = true)
    (hspares : spares cfg ops v s a = true) : ∃ ref', Kept s' v ref' := by
  have hsafe : ref.state = .pending → s.safe v a = true := by
    intro hp
    simpa [keeps, h.isPending.mpr hp] using hkeeps
  -- Most steps leave the daemon alone, and the registration as it is.
  have hbox : s'.st = s.st → s'.read = s.read → (s'.dial = s.dial ∨ s'.dial = .idle) →
      ∃ ref', Kept s' v ref' := by
    intro hst hread hdial
    refine ⟨ref, h.of_row (by rw [hst, h.row]) fun hp hway => ?_⟩
    rcases box_step hs with he | ⟨b, hb⟩
    · refine hway.of_dial he hread (fun l hd hin => ?_) fun refs hd hin => ?_
      · rcases hdial with hd' | hd'
        · exact hway.resumed l (hd' ▸ hd) hin
        · rw [hd'] at hd
          cases hd
      · rcases hdial with hd' | hd'
        · rw [hd'] at hd ⊢
          exact hway.reported refs hd hin
        · rw [hd'] at hd
          cases hd
    · exact hway.of_box hf hl hb (hsafe hp) hread hdial
  -- A section of the daemon that leaves the row.
  have hrow : s'.st.refs.get v.refId = some ref → s'.box = s.box → s'.read = s.read →
      s'.dial = s.dial → ∃ ref', Kept s' v ref' := by
    intro hrow hbox hread hdial
    refine ⟨ref, h.of_row hrow fun hp hway => hway.of_dial hbox hread ?_ ?_⟩
    · rw [hdial]
      exact hway.resumed
    · rw [hdial]
      exact hway.reported
  cases hs with
  | head hfresh hother =>
    simp only [spares, decide_eq_true_eq, h.row, Option.map_some] at hspares
    obtain ⟨ref', href', hstate⟩ := Option.map_eq_some_iff.mp hspares
    refine ⟨ref', href', ?_⟩
    rw [hstate]
    exact h.state.imp_right fun hp => ⟨hp.1, hp.2.of_dial rfl rfl hp.2.resumed hp.2.reported⟩
  | resume hd hserve =>
    refine ⟨ref, h.of_row h.row fun hp hway => hway.of_dial rfl rfl (fun l hd hin => ?_)
      fun refs hd => by cases hd⟩
    cases hd
    have hsafe := hsafe hp
    simp only [safe, Bool.or_eq_true, Bool.not_eq_true', Bool.or_eq_false_iff] at hsafe
    rcases hsafe with hx | ⟨hheld, hbuf⟩
    · obtain ⟨a, ha⟩ := Table.has_iff.mp hx
      exact List.mem_map.mpr ⟨_, mem_resumeOf ha, rfl⟩
    · rcases hin with hin | hin
      · cases hheld.symm.trans hin
      · cases hbuf.symm.trans hin
  | @unacked l hd =>
    refine ⟨ref, h.of_row h.row fun hp hway => hway.of_dial rfl rfl (fun l' hl' hin => ?_)
      fun refs hrefs hin => ?_⟩
    · exact hway.resumed l' (by rw [hd]; exact hl') hin
    · cases hrefs
      have hsafe := hsafe hp
      have hdown := hl.down (by rw [hd]; exact Dial.noConfusion)
      simp only [safe, Bool.or_eq_true, Bool.not_eq_true'] at hsafe
      rcases hin with hin | hin
      · left
        rw [hd] at hsafe
        exact hsafe.resolve_left fun hno => by cases hno.symm.trans hin
      · obtain ⟨m, hm, hmsg⟩ := buffered_iff.mp hin
        right
        rcases hm with hm | hm
        · exact List.mem_filterMap.mpr ⟨m, hm, by rw [hmsg]; rfl⟩
        · rw [hdown] at hm
          cases hm
  | ask hd hr =>
    refine ⟨ref, h.of_row h.row fun hp hway => hway.of_dial rfl rfl (fun l' hl' hin => ?_)
      fun refs hrefs hin => ?_⟩
    · refine hway.resumed l' ?_ hin
      rw [hd, ← hl', hr]
      rfl
    · have hrep := hway.reported refs (by rw [hd, ← hrefs, hr]; rfl) hin
      rw [hd] at hrep
      rw [hr]
      exact hrep
  | @register env w r ha hfresh =>
    refine hrow (register_row h.row ?_) rfl rfl rfl
    rcases h.state with hready | ⟨hp, hway⟩
    · exact .inl (by rw [hready]; exact RefState.noConfusion)
    · right
      have hsafe := hsafe hp
      simp only [safe, Bool.and_eq_true, List.all_eq_true, List.mem_range, Bool.not_eq_true'] at hsafe
      obtain ⟨hwaits, hunread⟩ := hsafe
      -- The result is in the agent, and the registration is the one under way.
      have hin : s.inAgent v := by
        refine hway.place.resolve_right ?_
        rintro ⟨u, hu⟩
        obtain ⟨m, hm, -⟩ := unreadOn_iff.mp hu
        cases (hunread u (hl.lt_nextLink hm)).symm.trans hu
      cases hd : s.dial with
      | asking w' r' =>
        rw [hd] at hwaits
        simp only [Dial.waitsOn, beq_iff_eq] at hwaits
        subst hwaits
        cases hl.asked w' r' r hd ha
        have hrep := hway.reported r.unackedRefs (by rw [hd]; rfl) hin
        have hres := hway.resumed r.resume (by rw [hd]; rfl) hin
        rw [hd] at hrep
        refine ⟨?_, fun x hx => ?_⟩
        · refine List.mem_append.mpr (hrep.imp_left fun hlist => ?_)
          simpa [Dial.lists, Dial.resume] using hlist
        · cases hactor.symm.trans hx
          exact hres
      | _ =>
        rw [hd] at hwaits
        cases hwaits
  | @frame env w m l hu =>
    rcases h.state with hready | ⟨hp, hway⟩
    · have hk : (exec cfg ops env s.st (.agentFrame g m.msg)).refs.get v.refId = some ref :=
        agentFrame_row h.row (.inl (by rw [hready]; exact RefState.noConfusion))
      exact ⟨ref, hk, .inl hready⟩
    · by_cases hm : m.msg = v.msg
      · -- The result has come.
        refine ⟨{ ref with state := .ready v.ok v.payload }, ?_, .inl rfl⟩
        show (agentFrame cfg ops env s.st g m.msg).refs.get v.refId = _
        rw [hm]
        exact agentFrame_result h.row hp g v.ok v.payload
      · have hk : (exec cfg ops env s.st (.agentFrame g m.msg)).refs.get v.refId = some ref := by
          refine agentFrame_row h.row (.inr ⟨fun hr => hm ?_, fun x hx => ?_⟩)
          · -- There is no other result of the call.
            have hmem : m ∈ s.box.written w :=
              List.mem_of_mem_drop (by rw [unread] at hu; rw [hu]; exact List.mem_cons_self)
            cases hmsg : m.msg with
            | result r ok error payload =>
              rw [hmsg] at hr
              cases hr
              exact hway.only ok error payload ⟨m, hmsg, .inr (.inr ⟨w, hmem⟩)⟩
            | _ =>
              rw [hmsg] at hr
              cases hr
          · cases hactor.symm.trans hx
            refine Bool.eq_false_iff.mpr fun hbury => ?_
            obtain ⟨m', hm', -⟩ := hway.behind w [] m l hu hbury
            cases hm'
        exact ⟨ref, hk, .inr ⟨hp, hway.read hu hm rfl rfl rfl⟩⟩
  | @eof env w =>
    obtain ⟨agents, events, he⟩ := agentEof_frame cfg env s.st g w
    refine hrow ?_ rfl rfl rfl
    show (agentEof cfg env s.st g w).refs.get v.refId = some ref
    rw [he]
    exact h.row
  | giveUp => exact hbox rfl rfl (.inr rfl)
  | accept hd ht => exact hbox rfl rfl (.inr rfl)
  | _ => exact hbox rfl rfl (.inl rfl)

end Kept

end Relaying

/-! ## Whole runs -/

namespace Relaying

variable {cfg : Cfg} {ops : ClaimOps} {g : AgentId} {s s' : Relaying}

/-- The result is on its way once the agent has read it, if the actor's reaper has not been there. -/
theorem onWay_of_read {v : HostResult} (hl : Ledger s) (hf : Frames s)
    (hs : Step cfg ops g s (.hostResult v) s') (hhost : s.hosts.has v.actorId = true) :
    OnWay s' v := by
  obtain ⟨a, ha⟩ := Table.has_iff.mp hhost
  cases hs with
  | @hostResult _ p box hp hph hv ht =>
    have hstep := Outbox.step_cases ht
    have hmoved := Outbox.Moved.of_step hstep
    have hunread : ∀ w, (box.written w).drop (s.read w) = s.unread w := by
      intro w
      cases hstep
      rfl
    have hhand : ∃ m, box.Hand m ∧ m.msg = v.msg := by
      cases hstep
      exact ⟨⟨s.box.nextStamp, v.actorId, v.msg⟩, ⟨.relay v.actorId,
        congrArg Sending.inHand ((Outbox.setThread_thread _ _ _ _).trans (if_pos rfl))⟩, rfl⟩
    refine ⟨.inl (.inl (held_iff.mpr hhand)), fun ok error payload ht => ?_, fun l hd _ => ?_,
      fun refs hd _ => .inl ?_, fun w before m after hsplit hbury => ?_⟩
    · rcases hmoved.tells ht with ht | ⟨t, he⟩
      · exact absurd hv ((hf.answered _ _ _ _ ht).2 _ p hp)
      · cases he
        rfl
    · exact (hl.resumed l hd v.actorId a p v.refId ha hp hv).1
    · have hlist : ∃ l, s.dial.resume = some l := by
        replace hd : s.dial.refs = some refs := hd
        cases hdial : s.dial with
        | unacked l _ => exact ⟨l, rfl⟩
        | asking _ r => exact ⟨r.resume, rfl⟩
        | _ =>
          rw [hdial] at hd
          cases hd
      obtain ⟨l, hl'⟩ := hlist
      show s.dial.lists v.refId = true
      rw [Dial.lists, hl', Option.any_some, List.contains_iff_mem]
      exact (hl.resumed l hl' v.actorId a p v.refId ha hp hv).2
    · -- An end of the actor would have come after its entry.
      have hmem : m ∈ s.unread w := by
        replace hsplit : (box.written w).drop (s.read w) = before ++ m :: after := hsplit
        rw [← hunread w, hsplit]
        exact List.mem_append_right _ List.mem_cons_self
      obtain ⟨q, hq, hor⟩ := hf.buried v.actorId m.msg
        ⟨m, rfl, .inr (.inr ⟨w, List.mem_of_mem_drop hmem⟩)⟩ hbury
      cases hp.symm.trans hq
      rcases hor with hfail | hnone
      · cases hph.symm.trans hfail
      · cases ha.symm.trans hnone

end Relaying

/-- Once the agent has read a host's result for a call that is pending at the daemon, before the
actor's reaper has been there, the call stays pending or is answered with it, over every run whose
steps do the result no harm. When the buffer is drained it is answered. -/
theorem result_kept {cfg : Cfg} {ops : ClaimOps} {g : AgentId} {s s₁ s' : Relaying} {v : HostResult}
    {trace : List Relaying.Act} (hreach : (relaying cfg ops g).Reach System.Free s)
    (hread : (relaying cfg ops g).next s (.hostResult v) = some s₁)
    (hhost : s.hosts.has v.actorId = true) (hp : s.isPending v = true)
    (hrun : (relaying cfg ops g).run (fun s a => s.keeps v a && s.spares cfg ops v a) s₁ trace =
      some s') :
    ∃ ref, s'.st.refs.get v.refId = some ref ∧
      (ref.state = .pending ∨ ref.state = .ready v.ok v.payload) ∧
      (s'.drained v = true → ref.state = .ready v.ok v.payload) := by
  obtain ⟨hledger, hframes, -⟩ := Relaying.reach_sound hreach
  have hstep : Relaying.Step cfg ops g s (.hostResult v) s₁ := Relaying.step_cases hread
  have hway := Relaying.onWay_of_read hledger hframes hstep hhost
  obtain ⟨ref, href, hpend⟩ := (Option.any_eq_true _ _).mp hp
  rw [beq_iff_eq] at hpend
  have hstart : s₁.Kept v ref ∧ (rsplitOnce v.refId).map (·.1) = some v.actorId := by
    cases hstep with
    | hostResult hproc hph hv ht => exact ⟨⟨href, .inr ⟨hpend, hway⟩⟩, (hledger.given _ _ _ hproc hv).2⟩
  have hs₁ : (relaying cfg ops g).Reach System.Free s₁ := .step hreach rfl hread
  have hend : (relaying cfg ops g).Reach System.Free s' ∧ ∃ ref, s'.Kept v ref := by
    refine System.run_keeps (I := fun s => (relaying cfg ops g).Reach System.Free s ∧
      ∃ ref, s.Kept v ref) hrun ⟨hs₁, ref, hstart.1⟩ ?_
    rintro s a s' ⟨hreach, ref, hk⟩ hok hn
    rw [Bool.and_eq_true] at hok
    obtain ⟨-, hf, hl⟩ := Relaying.reach_sound hreach
    -- The row is a call of the actor that has answered.
    have hactor := (refs_named (Relaying.reach_daemon hreach) hk.row).trans hstart.2
    exact ⟨.step hreach rfl hn, hk.step hactor hf hl (Relaying.step_cases hn) hok.1 hok.2⟩
  obtain ⟨hreach', ref', hk⟩ := hend
  obtain ⟨-, -, hl⟩ := Relaying.reach_sound hreach'
  refine ⟨ref', hk.row, ?_, fun hdrained => ?_⟩
  · exact hk.state.elim .inr fun hp => .inl hp.1
  · exact hk.state.resolve_right fun hp => hp.2.not_drained hl hdrained

namespace Sample

/-- The agent and the daemon before the first link. -/
def relayingAtStart : Relaying :=
  ⟨boot, outboxAtStart, ∅, ∅, ∅, .idle, 0, ∅, ∅, ∅, fun _ => 0⟩

/-- `serve_once` on the link `w`, up to the reply. -/
def asks (w : FrameWriter) : List Relaying.Act :=
  [.resume (at_ 0), .unacked, .ask w (registration [] [])]

/-- The rest of it, with a backlog of `n` frames. -/
def serves (w : FrameWriter) (n : Nat) : List Relaying.Act :=
  [.register (at_ 8) w, .accept, .send .takeBacklog] ++ List.replicate (n + 1) (.send (.drain true))

/-- A call runs on the agent's actor, and the link is lost. -/
def calledThenCut : List Relaying.Act :=
  .head (at_ 0) (.elect "n:1") :: asks 1 ++ serves 1 0 ++ [
    .head (at_ 2) (.hello 2 (driver "c" true)),
    .head (at_ 3) (group "c" "p:1"),
    .head (at_ 4) (actor "c" "p:1" "a:1"),
    .spawn "a:1" "a:1" "c" [0], .forked "a:1" 1000,
    .head (at_ 5) (call "c" "a:1"),
    .dispatch "a:1" "a:1:1" true,
    .ctorOk "a:1", .send (.readLink (.relay "a:1")), .send (.send (.relay "a:1") true),
    .frame (at_ 6) 1,
    .send (.breakLink 1), .send .close, .eof (at_ 7) 1]

def answer : HostResult := ⟨"a:1", "a:1:1", true, [1]⟩

/-- The relay finds no link and buffers. -/
def buffers : List Relaying.Act :=
  [.send (.readLink (.relay "a:1")), .send (.buffer (.relay "a:1"))]

end Sample

/-- The result is buffered and drained, and the actor's exit comes after it. -/
def bufferedInOutage : List Relaying.Act :=
  Sample.buffers ++ Sample.asks 3 ++ Sample.serves 3 1 ++ [
    .reap "a:1" (some 0) none, .send (.readLink (.reaper "a:1")), .send (.send (.reaper "a:1") true),
    .frame (Sample.at_ 9) 3, .frame (Sample.at_ 10) 3]

theorem result_kept_bufferedInOutage :
    ∃ s s₁ s' : Relaying, (relaying Sample.cfg Sample.ops "ag").Reach System.Free s ∧
      s.isPending Sample.answer = true ∧
      (relaying Sample.cfg Sample.ops "ag").next s (.hostResult Sample.answer) = some s₁ ∧
      s'.drained Sample.answer = true ∧
      ∃ ref, s'.st.refs.get "a:1:1" = some ref ∧ ref.state = .ready true [1] := by
  let sys := relaying Sample.cfg Sample.ops "ag"
  have hrun : (sys.run System.Free Sample.relayingAtStart Sample.calledThenCut).any (fun s =>
      s.hosts.has "a:1" && s.isPending Sample.answer &&
        (sys.next s (.hostResult Sample.answer)).any fun s₁ =>
          (sys.run (fun s a => s.keeps Sample.answer a &&
            s.spares Sample.cfg Sample.ops Sample.answer a) s₁ bufferedInOutage).any
              (·.drained Sample.answer)) = true := by decide +kernel
  obtain ⟨s, hreach, hs⟩ := System.Reach.of_run hrun
    ⟨"n:1", "10.0.0.1", "10.0.0.1:7070", Sample.outboxAtStart, rfl, rfl⟩
  simp only [Bool.and_eq_true, Option.any_eq_true] at hs
  obtain ⟨⟨hhost, hp⟩, s₁, hread, s', hend, hdrained⟩ := hs
  obtain ⟨ref, href, -, hready⟩ := result_kept hreach hread hhost hp hend
  exact ⟨s, s₁, s', hreach, hp, hread, hdrained, ref, href, hready hdrained⟩

/-- The agent has read the result and taken these steps, and the next registration fails the call. -/
def FailedAfter (steps : List Relaying.Act) (why : String) : Prop :=
  ∃ s s₁ s₂ s' : Relaying, (relaying Sample.cfg Sample.ops "ag").Reach System.Free s ∧
    s.hosts.has "a:1" = true ∧
    (relaying Sample.cfg Sample.ops "ag").next s (.hostResult Sample.answer) = some s₁ ∧
    (relaying Sample.cfg Sample.ops "ag").run System.Free s₁ steps = some s₂ ∧
    s₂.isPending Sample.answer = true ∧
    (relaying Sample.cfg Sample.ops "ag").next s₂ (.register (Sample.at_ 8) 3) = some s' ∧
    ∃ ref, s'.st.refs.get "a:1:1" = some ref ∧ ref.state = .actorDied why

theorem FailedAfter.of_run {steps : List Relaying.Act} {why : String}
    (h : ((relaying Sample.cfg Sample.ops "ag").run System.Free Sample.relayingAtStart
      Sample.calledThenCut).any (fun s => s.hosts.has "a:1" &&
        ((relaying Sample.cfg Sample.ops "ag").next s (.hostResult Sample.answer)).any fun s₁ =>
          ((relaying Sample.cfg Sample.ops "ag").run System.Free s₁ steps).any fun s₂ =>
            s₂.isPending Sample.answer &&
              ((relaying Sample.cfg Sample.ops "ag").next s₂ (.register (Sample.at_ 8) 3)).any fun s' =>
                (s'.st.refs.get "a:1:1").any (·.state == .actorDied why)) = true) :
    FailedAfter steps why := by
  obtain ⟨s, hreach, hs⟩ := System.Reach.of_run h
    ⟨"n:1", "10.0.0.1", "10.0.0.1:7070", Sample.outboxAtStart, rfl, rfl⟩
  simp only [Bool.and_eq_true, Option.any_eq_true, beq_iff_eq] at hs
  obtain ⟨hhost, s₁, hread, s₂, hrun, hp, s', hreg, ref, href, hdied⟩ := hs
  exact ⟨s, s₁, s₂, s', hreach, hhost, hread, hrun, hp, hreg, ref, href, hdied⟩

/-- The registration comes while the result is in the relay's hands, or when the result is buffered
and its actor has exited. -/
theorem result_lost :
    FailedAfter (Sample.asks 3) "call lost while the agent link was down" ∧
    FailedAfter (Sample.buffers ++ .reap "a:1" (some 0) none :: Sample.asks 3)
      "agent reconnected without this actor" :=
  ⟨.of_run (by decide +kernel), .of_run (by decide +kernel)⟩

end Mentat
