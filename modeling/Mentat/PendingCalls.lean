import Mentat.RefIds
import Mentat.Resolution

/-!
# Pending calls

What becomes of one pending call as the sections run. A section leaves it pending for as long as its
actor lives, unless it is the one that answers the call, forgets the calls of its owner, or gives
its id to another call.

* `parseU64_toString`: the number of a ref id reads back.
* `Outlives`: the invariant of a call under deaths. The actor's own death ends it.
* `exec_linkUp`, `exec_headSinceMs`, `exec_pendingRef`: what a section leaves of the agent's link, of
  the head's tenure and of the call.
-/

namespace Mentat

/-! ## The ids of calls -/

theorem parseU64_toString {n : Nat} (h : n < 2 ^ 64) : parseU64 (toString n) = some n := by
  have hdigits : ∀ c ∈ (toString n).toList, c.isDigit = true := fun c => digits_toString
  have hval : (toString n).toList.foldl (fun n c => n * 10 + (c.toNat - '0'.toNat)) 0 = n := by
    have := Nat.ofDigitChars_ten_toDigits (n := n)
    rw [Nat.ofDigitChars_eq_foldl] at this
    rw [Nat.toString_eq_repr, Nat.toList_repr]
    simpa only [Nat.mul_comm] using this
  have hne : (toString n).toList ≠ [] := by
    rw [Nat.toString_eq_repr, Nat.toList_repr]
    exact Nat.toDigits_ne_nil
  unfold parseU64
  split
  · next l hl =>
    have := hdigits '+' (by rw [hl]; exact List.mem_cons_self)
    cases this
  · have hsome : (!(toString n).toList.all Char.isDigit) = false := by
      rw [List.all_eq_true.mpr hdigits]
      rfl
    dsimp only
    rw [List.isEmpty_eq_false_iff.mpr hne, hsome, Bool.or_self, if_neg Bool.false_ne_true, hval]
    exact Option.filter_eq_some_iff.mpr ⟨rfl, decide_eq_true h⟩
/-! ## What a section leaves of a pending call -/

/-- A call of actor `x` is pending, for the client `owner`. -/
def PendingRef (x : ActorId) (owner : ClientId) (rid : RefId) (t : Table RefId RefInfo) : Prop :=
  ∃ ref, t.get rid = some ref ∧ ref.state = .pending ∧ ref.actor = some x ∧ ref.owner = owner

/-- The actor has a row, and while it is live its call is pending. -/
def Outlives (x : ActorId) (owner : ClientId) (rid : RefId) (st : State) : Prop :=
  ∃ a, st.actors.get x = some a ∧ (a.state.isDead = false → PendingRef x owner rid st.refs)

section Sections

variable {cfg : Cfg} {ops : ClaimOps} {env : Env} {st : State} {x : ActorId} {owner : ClientId}
  {rid : RefId}

/-- Rows changed in place that stay pending calls of the same actor. -/
theorem PendingRef.map {t t' : Table RefId RefInfo} {f : RefId → RefInfo → RefInfo}
    (h : PendingRef x owner rid t) (ht : t' = t.map f)
    (hf : ∀ ref, ref.state = .pending → ref.actor = some x →
      (f rid ref).state = .pending ∧ (f rid ref).actor = ref.actor ∧
        (f rid ref).owner = ref.owner) : PendingRef x owner rid t' := by
  obtain ⟨ref, hr, hs, ha, ho⟩ := h
  obtain ⟨hs', ha', ho'⟩ := hf ref hs ha
  exact ⟨f rid ref, by rw [ht, Table.get_map, hr, Option.map_some], hs', ha'.trans ha, ho'.trans ho⟩

theorem Outlives.of_eq {st' : State} (h : Outlives x owner rid st)
    (hactors : st'.actors = st.actors) (hrefs : st'.refs = st.refs) : Outlives x owner rid st' := by
  obtain ⟨a, ha, hp⟩ := h
  exact ⟨a, by rw [hactors, ha], fun hl => by rw [hrefs]; exact hp hl⟩

/-- The death of another actor leaves the call, and the actor's own death ends the case. -/
theorem Outlives.markActorDead (h : Outlives x owner rid st) (y : ActorId) (reason : String) :
    Outlives x owner rid (markActorDead cfg ops env st y reason) := by
  obtain ⟨a, ha, hp⟩ := h
  have hget := markActorDead_get cfg ops env st y x reason
  by_cases hy : x = y
  · rw [if_pos hy, ha, Option.map_some] at hget
    refine ⟨_, hget, fun hl => ?_⟩
    unfold ActorInfo.die at hl
    split at hl
    · next hd =>
      rw [hl] at hd
      cases hd
    · cases hl
  · rw [if_neg hy, ha] at hget
    refine ⟨a, hget, fun hl => ?_⟩
    have hfan : ∀ s : State, s.refs = st.refs →
        PendingRef x owner rid (fanOutDeath cfg ops env s y reason).refs := by
      intro s hs
      refine (hp hl).map (by rw [fanOutDeath_refs, hs]) fun ref hpend hact => ?_
      rw [RefInfo.fail, if_neg fun hc => hy (Option.some.inj (hact.symm.trans hc.1))]
      exact ⟨hpend, rfl, rfl⟩
    unfold Mentat.markActorDead
    split
    · exact hfan st rfl
    · split
      · exact hp hl
      · exact hfan _ rfl

theorem Outlives.buryAll (h : Outlives x owner rid st) (ids : List ActorId) (reason : String) :
    Outlives x owner rid (buryAll cfg ops env st ids reason) :=
  buryAll_keeps cfg ops env st (I := Outlives x owner rid)
    (fun _ y why hs => hs.markActorDead y why) h ids reason

/-- The row of actor `x` changed in place, alive or not as it was. -/
theorem Outlives.modify {st' : State} {y : ActorId} {f : ActorInfo → ActorInfo}
    (h : Outlives x owner rid st) (hactors : st'.actors = st.actors.modify y f)
    (hf : ∀ a, (f a).state.isDead = false → a.state.isDead = false)
    (hrefs : st'.refs = st.refs) : Outlives x owner rid st' := by
  obtain ⟨a, ha, hp⟩ := h
  by_cases hy : x = y
  · refine ⟨f a, by rw [hactors, hy, Table.get_modify_self, ← hy, ha]; rfl, fun hl => ?_⟩
    rw [hrefs]
    exact hp (hf a hl)
  · refine ⟨a, by rw [hactors, Table.get_modify_of_ne hy, ha], fun hl => ?_⟩
    rw [hrefs]
    exact hp hl

theorem Outlives.spawnResult (h : Outlives x owner rid st) (y : ActorId) (ok : Bool) (error : String)
    (pid : Nat) : Outlives x owner rid (spawnResult cfg ops env st y ok error pid) := by
  have hnote : Outlives x owner rid (notePid st y pid) := by
    unfold notePid
    split
    · exact h
    · exact h.modify rfl (fun _ hl => hl) rfl
  have hstart : ∀ b : ActorInfo, (if b.state = .spawning then { b with state := .running }
      else b).state.isDead = false → b.state.isDead = false := by
    intro b hb
    split at hb
    · next hs =>
      rw [hs]
      rfl
    · exact hb
  unfold Mentat.spawnResult
  simp only
  split
  · split
    · exact hnote.modify rfl hstart rfl
    · exact hnote.modify rfl hstart rfl
  · exact hnote.markActorDead _ _

/-- A call gets an id of its own. -/
theorem Outlives.actorCall (h : Outlives x owner rid st) {r : ActorCall}
    (hid : (st.newRefId r.actorId).1 ≠ rid) : Outlives x owner rid (actorCall env st r).1 := by
  have hset : ∀ (s : State) (ref : RefInfo), s.actors = st.actors →
      s.refs = st.refs.set (st.newRefId r.actorId).1 ref → Outlives x owner rid s := by
    intro s ref hactors hrefs
    obtain ⟨a, ha, hp⟩ := h
    refine ⟨a, by rw [hactors, ha], fun hl => ?_⟩
    obtain ⟨q, hq, hq'⟩ := hp hl
    exact ⟨q, by rw [hrefs, Table.get_set_of_ne hid.symm, hq], hq'⟩
  have hhold : ∀ (s : State) (id : RefId), Outlives x owner rid s →
      Outlives x owner rid (holdCall s r id) :=
    fun s id hs => hs.modify rfl (fun _ hl => hl) rfl
  unfold Mentat.actorCall
  simp only
  split
  · exact h.of_eq rfl rfl
  · simp only
    split
    · exact hset _ _ rfl rfl
    · split
      · split
        · exact hset _ _ rfl rfl
        · exact hhold _ _ (hset _ _ rfl rfl)
      · split
        · exact hhold _ _ (hset _ _ rfl rfl)
        · exact hset _ _ rfl rfl

theorem foldl_adoptRef_known {agentId : AgentId} {rids : List RefId} {ref : RefInfo}
    (h : st.refs.get rid = some ref) :
    (rids.foldl (adoptRef env agentId) st).refs.get rid = some ref := by
  induction rids generalizing st with
  | nil => exact h
  | cons rid' rids ih => exact ih (adoptRef_known env st agentId rid' h)

/-- A registration fails no call that another agent's actor has, or that it reports. -/
theorem Outlives.failLost (h : Outlives x owner rid st) {r : AgentRegister}
    (hr : rid ∈ r.reported ∨ ∀ a, st.actors.get x = some a → a.agent ≠ r.agentId) :
    Outlives x owner rid (failLost st r) := by
  obtain ⟨a, ha, hp⟩ := h
  refine ⟨a, ha, fun hl => (hp hl).map rfl fun ref hpend hact => ?_⟩
  have hlost : isLost st r rid ref = false := by
    rcases hr with hr | hr
    · simp [isLost, hr]
    · simp [isLost, hact, ha, hr a ha]
  rw [hlost]
  exact ⟨hpend, rfl, rfl⟩

theorem Outlives.drainHeld (h : Outlives x owner rid st) (w : FrameWriter) (id : AgentId) :
    Outlives x owner rid (drainHeld env st w id) := by
  obtain ⟨a, ha, hp⟩ := h
  refine ⟨_, by rw [Mentat.drainHeld, Table.get_map, ha]; rfl, fun hl => hp ?_⟩
  beta_reduce at hl
  split at hl
  · exact hl
  · exact hl

/-- What a registration has adopted lasts to its end, if it reports the call or the actor is not the
agent's. -/
theorem Outlives.resumed {w : FrameWriter} {r : AgentRegister}
    (h : Outlives x owner rid (adoptRefs env (adoptActors (insertAgent st w r) r) r))
    (hr : rid ∈ r.reported ∨ ∀ a, (adoptTable st r).get x = some a → a.agent ≠ r.agentId) :
    Outlives x owner rid (register cfg ops env st w r) := by
  let adopted := adoptRefs env (adoptActors (insertAgent st w r) r) r
  have hburied : Outlives x owner rid (buryMissing cfg ops env adopted r) := h.buryAll _ _
  have hreplied : Outlives x owner rid (repliedState cfg ops env st w r) := by
    refine (hburied.failLost (r := r) ?_).of_eq rfl rfl
    refine hr.imp id fun hr a ha => ?_
    obtain ⟨b, hb, hba, -⟩ := (buryAll_ages cfg ops env adopted (missingActors env adopted r)
      "agent reconnected without this actor").back ha
    rw [adoptRefs_actors, adoptActors_actors] at hb
    rw [hba.agent]
    exact hr b hb
  rw [register_eq]
  exact (hreplied.drainHeld w r.agentId).of_eq (tryPlace_actors _ _ _ _) (tryPlace_refs _ _ _ _)

/-- Another agent's registration leaves the call. -/
theorem Outlives.register (h : Outlives x owner rid st) (w : FrameWriter) {r : AgentRegister}
    (hother : ∀ a, st.actors.get x = some a → a.agent ≠ r.agentId) :
    Outlives x owner rid (register cfg ops env st w r) := by
  obtain ⟨a, ha, hp⟩ := h
  have hknown : (adoptTable st r).get x = some a := adoptTable_known st r ha
  refine Outlives.resumed ⟨a, ?_, fun hl => ?_⟩ (.inr fun b hb => ?_)
  · rw [adoptRefs_actors, adoptActors_actors]
    exact hknown
  · obtain ⟨ref, href, hpend⟩ := hp hl
    exact ⟨ref, foldl_adoptRef_known (by rw [adoptActors_refs]; exact href), hpend⟩
  · cases hknown.symm.trans hb
    exact hother a ha

/-- A ref that is not known is adopted when it is reported, for an actor of the agent. -/
theorem foldl_adoptRef_adopts {agentId : AgentId} {rids : List RefId} {a : ActorInfo} {n : String}
    (hnew : st.refs.get rid = none) (hsplit : rsplitOnce rid = some (x, n))
    (ha : st.actors.get x = some a) (hag : a.agent = agentId) (hrid : rid ∈ rids) :
    PendingRef x a.owner rid (rids.foldl (adoptRef env agentId) st).refs := by
  induction rids generalizing st with
  | nil => cases hrid
  | cons rid' rids ih =>
    rw [List.foldl_cons]
    by_cases he : rid = rid'
    · subst he
      refine ⟨⟨.pending, some x, a.owner, "", env.now, false⟩, foldl_adoptRef_known ?_, rfl, rfl, rfl⟩
      simp [adoptRef, Table.has_eq_false.mpr hnew, hsplit, ha, hag]
    · obtain ⟨refs, nextRef, hf⟩ := adoptRef_frame env st agentId rid'
      refine ih ?_ (by rw [hf]; exact ha) ((List.mem_cons.mp hrid).resolve_left he)
      cases hk : (adoptRef env agentId st rid').refs.get rid with
      | none => rfl
      | some ref =>
        rcases adoptRef_get env st hk with hk | ⟨hk, -, -⟩
        · cases hnew.symm.trans hk
        · exact absurd hk he

/-- The agent's registration adopts the call it reports with its actor. -/
theorem Outlives.adopted {w : FrameWriter} {r : AgentRegister} {n : String} {a : ActorInfo}
    (hsplit : rsplitOnce rid = some (x, n)) (hrid : rid ∈ r.reported)
    (hnew : st.refs.get rid = none) (ha : (adoptTable st r).get x = some a)
    (hag : a.agent = r.agentId) : Outlives x a.owner rid (Mentat.register cfg ops env st w r) := by
  have hrow : (adoptActors (insertAgent st w r) r).actors.get x = some a := by
    rw [adoptActors_actors]
    exact ha
  refine Outlives.resumed ⟨a, by rw [adoptRefs_actors, hrow], fun _ => ?_⟩ (.inl hrid)
  exact foldl_adoptRef_adopts (by rw [adoptActors_refs]; exact hnew) hsplit hrow hag hrid

/-- The agent's link is up, and no window of its runs. -/
def LinkUp (st : State) (g : AgentId) : Prop :=
  ∃ row, st.agents.get g = some row ∧ row.alive = true ∧ row.lostAtMs = none

/-- A link stays up until its end is seen or its agent registers anew. -/
theorem exec_linkUp {sec : Section} {g : AgentId} (h : LinkUp st g)
    (hreg : ∀ w r, sec = .register w r → r.agentId ≠ g)
    (heof : ∀ w, sec = .agentEof g w → ∀ row, st.agents.get g = some row → row.writer ≠ w) :
    LinkUp (exec cfg ops env st sec) g := by
  obtain ⟨row, hrow, hup, hlost⟩ := h
  cases sec with
  | register w r =>
    refine ⟨row, ?_, hup, hlost⟩
    rw [exec, (register_quiet cfg ops env st w r).agents]
    exact (Table.get_set_of_ne (hreg w r rfl).symm).trans hrow
  | agentFrame id msg =>
    cases msg with
    | spawnResult y ok error pid =>
      exact ⟨row, by rw [exec, agentFrame, (spawnResult_quiet cfg ops env st y ok error pid).agents,
        hrow], hup, hlost⟩
    | result ref ok error payload => exact ⟨row, hrow, hup, hlost⟩
    | exit y exitCode signal =>
      exact ⟨row, by rw [exec, agentFrame, (markActorDead_quiet cfg ops env st y _).agents, hrow],
        hup, hlost⟩
    | serviceNote service note =>
      have hkeep : LinkUp { st with agents := st.agents.modify id fun a =>
          { a with services := a.services.modify service fun s => { s with note } } } g := by
        by_cases hg : g = id
        · have hget : (st.agents.modify id fun a =>
              { a with services := a.services.modify service fun s => { s with note } }).get g =
                some { row with services := row.services.modify service fun s => { s with note } } := by
            rw [hg, Table.get_modify_self, ← hg, hrow, Option.map_some]
          exact ⟨_, hget, hup, hlost⟩
        · exact ⟨row, (Table.get_modify_of_ne hg).trans hrow, hup, hlost⟩
      simp only [exec, agentFrame, serviceNote]
      split
      · exact hkeep
      · exact hkeep
  | agentEof id w =>
    simp only [exec, agentEof]
    split
    · next hw =>
      obtain ⟨a, ha, haw⟩ := (Option.any_eq_true _ _).mp hw
      have hg : g ≠ id := by
        rintro rfl
        exact heof w rfl a ha (beq_iff_eq.mp haw)
      exact ⟨row, (Table.get_modify_of_ne hg).trans hrow, hup, hlost⟩
    · exact ⟨row, hrow, hup, hlost⟩
  | sweepLifecycle =>
    obtain ⟨p, e, ht⟩ := timeOutPgs_frame cfg env st
    obtain ⟨e', hd⟩ := degradeLate_frame cfg env (timeOutPgs cfg env st)
    have hwin : row.window cfg env.now = row := by simp [AgentInfo.window, downFor, hlost]
    have hswept : (sweepAgents cfg ops env (timeOutPgs cfg env st)).agents.get g = some row := by
      rw [(sweepAgents_quiet cfg ops env (timeOutPgs cfg env st)).agents, hd, ht, Table.get_map, hrow,
        Option.map_some, hwin]
    refine ⟨row, ?_, hup, hlost⟩
    simp only [exec, sweepLifecycle]
    rcases sweepHistory_frame cfg env (sweepAgents cfg ops env (timeOutPgs cfg env st)) with
      hs | ⟨e', hs⟩
    · rw [hs, hswept]
    · rw [hs, Table.get_filter, hswept]
      simp [goneAgent, hup]
  | _ => exact ⟨row, by rw [exec_agents_same cfg ops env rfl, hrow], hup, hlost⟩

/-- Only an election moves the start of the head's tenure. -/
theorem exec_headSinceMs {sec : Section} (h : ∀ candidate, sec ≠ .elect candidate) :
    (exec cfg ops env st sec).headSinceMs = st.headSinceMs := by
  have hquiet : ∀ {st' : State}, Quiet st st' → st'.headSinceMs = st.headSinceMs :=
    fun hq => (congrArg State.headSinceMs hq :)
  cases sec with
  | hello w hl =>
    cases hh : hello env st w hl with
    | none => rw [exec_hello_none _ _ _ hh]
    | some p =>
      obtain ⟨st', orphans⟩ := p
      rw [exec_hello_some _ _ _ hh]
      obtain ⟨-, -, e, rfl⟩ := hello_eq_some hh
      rfl
  | claim client name shape =>
    obtain ⟨c, g, e, hc⟩ := claim_frame ops st client name shape
    simp only [exec, hc]
  | pgCreate r => exact hquiet (pgCreate_quiet cfg ops env st r)
  | pgRemove id => exact hquiet (pgRemove_quiet cfg ops env st id)
  | actorCreate r => exact hquiet (createActor_quiet cfg ops env st r)
  | actorCall r => exact hquiet (actorCall_quiet env st r)
  | killActor x => exact hquiet (killActor_quiet cfg ops env st x)
  | dropRow client moved =>
    simp only [exec, dropRow]
    split <;> rfl
  | reapCheck client group token =>
    rcases reapCheck_cases env st client group token with ⟨-, hc⟩ | ⟨-, -, hc⟩ | ⟨-, -, hc⟩
    · simp only [exec, hc]
    · simp only [exec, hc]
    · obtain ⟨-, e, ht⟩ := reapTake_spec env st client group
      simp only [exec, hc, ht]
  | reapFinish client => exact hquiet (reapFinish_quiet cfg ops env st client)
  | register w r => exact (congrArg State.headSinceMs (register_quiet cfg ops env st w r) :)
  | agentFrame id msg =>
    exact (congrArg State.headSinceMs (agentFrame_sansAgents cfg ops env st id msg) :)
  | agentEof id w =>
    obtain ⟨a, e, hc⟩ := agentEof_frame cfg env st id w
    simp only [exec, hc]
  | sweepLifecycle => exact (congrArg State.headSinceMs (sweepLifecycle_sansAgents cfg ops env st) :)
  | elect candidate => exact absurd rfl (h candidate)
  | commitIslands fresh =>
    exact (congrArg State.headSinceMs (commitIslands_quiet cfg ops env st fresh) :)
  | _ => rfl

/-- What a section leaves of a live actor's pending call, unless it is the section that answers it,
that forgets its owner's calls or that takes its id. -/
theorem exec_pendingRef {sec : Section} {a a' : ActorInfo} (ha : st.actors.get x = some a)
    (hp : PendingRef x owner rid st.refs)
    (ha' : (exec cfg ops env st sec).actors.get x = some a') (hl' : a'.state.isDead = false)
    (hf : sec.fresh st = true) (hreg : ∀ w r, sec = .register w r → r.agentId ≠ a.agent)
    (hres : ∀ id ok e payload, sec ≠ .agentFrame id (.result rid ok e payload))
    (hreap : sec ≠ .reapFinish owner)
    (hcall : ∀ r, sec = .actorCall r → (st.newRefId r.actorId).1 ≠ rid)
    (helect : ∀ candidate, sec ≠ .elect candidate) :
    PendingRef x owner rid (exec cfg ops env st sec).refs := by
  have h : Outlives x owner rid st := ⟨a, ha, fun _ => hp⟩
  have hend : Outlives x owner rid (exec cfg ops env st sec) →
      PendingRef x owner rid (exec cfg ops env st sec).refs := by
    rintro ⟨b, hb, hpend⟩
    cases ha'.symm.trans hb
    exact hpend hl'
  have hsame : (exec cfg ops env st sec).refs = st.refs →
      PendingRef x owner rid (exec cfg ops env st sec).refs := by
    intro he
    rw [he]
    exact hp
  cases sec with
  | hello w hello =>
    cases hh : Mentat.hello env st w hello with
    | none => exact hsame (by rw [exec_hello_none _ _ _ hh])
    | some p =>
      obtain ⟨st', orphans⟩ := p
      refine hsame ?_
      rw [exec_hello_some _ _ _ hh]
      obtain ⟨-, -, e, rfl⟩ := hello_eq_some hh
      rfl
  | claim client name shape =>
    obtain ⟨c, g, e, he⟩ := claim_frame ops st client name shape
    exact hsame (by simp only [exec, he])
  | pgCreate r => exact hsame (by simp only [exec, pgCreate, tryPlace_refs, State.emitPatch])
  | pgRemove id =>
    refine hsame ?_
    simp only [exec, pgRemove, tryPlace_refs]
    split <;> rfl
  | actorCreate r =>
    have hx : x ≠ r.actorId := by
      rintro rfl
      simp [Section.fresh, Table.has, ha] at hf
    refine hend ?_
    simp only [exec, createActor]
    split
    · exact h
    · next bundle agent ip _ =>
      have hput : Outlives x owner rid (putSpawning st r bundle) :=
        ⟨a, (Table.get_set_of_ne hx).trans ha, fun _ => hp⟩
      split
      · exact hput
      · exact hput.markActorDead _ _
  | actorCall r => exact hend (h.actorCall (hcall r rfl))
  | killActor y =>
    refine hend ?_
    simp only [exec]
    rcases killActor_cases cfg ops env st y with he | ⟨_, _, _, _, _, he⟩ | ⟨_, _, _, _, he⟩
    · rw [he]
      exact h
    · rw [he]
      exact h
    · rw [he]
      exact h.markActorDead _ _
  | dropRow client moved =>
    refine hsame ?_
    simp only [exec, dropRow]
    split <;> rfl
  | reapCheck client group token =>
    refine hsame ?_
    rcases reapCheck_cases env st client group token with ⟨-, he⟩ | ⟨-, -, he⟩ | ⟨-, -, he⟩
    · simp only [exec, he]
    · simp only [exec, he]
    · obtain ⟨-, e, ht⟩ := reapTake_spec env st client group
      simp only [exec, he, ht]
  | reapFinish client =>
    obtain ⟨ref, href, hpend, hact, hown⟩ := hp
    refine ⟨ref, ?_, hpend, hact, hown⟩
    have hne : owner ≠ client := fun he => hreap (by rw [he])
    simp only [exec, reapFinish, tryPlace_refs, Table.get_filter, href, Option.filter_some, hown,
      bne_iff_ne, ne_eq, hne, not_false_eq_true, if_true]
  | register w r =>
    refine hend (h.register w fun b hb => ?_)
    cases ha.symm.trans hb
    exact (hreg w r rfl).symm
  | agentFrame id msg =>
    cases msg with
    | spawnResult y ok error pid => exact hend (h.spawnResult y ok error pid)
    | result ref ok error payload =>
      have hne : rid ≠ ref := fun he => hres id ok error payload (by rw [he])
      obtain ⟨q, hq, hq'⟩ := hp
      refine ⟨q, ?_, hq'⟩
      simp only [exec, agentFrame, actorResult]
      exact (Table.get_modify_of_ne hne).trans hq
    | exit y exitCode signal => exact hend (h.markActorDead _ _)
    | serviceNote service note =>
      refine hsame ?_
      simp only [exec, agentFrame, serviceNote]
      split <;> rfl
  | agentEof id w =>
    obtain ⟨g, e, he⟩ := agentEof_frame cfg env st id w
    exact hsame (by simp only [exec, he])
  | sweepLifecycle =>
    obtain ⟨p, e, ht⟩ := timeOutPgs_frame cfg env st
    obtain ⟨e', hd⟩ := degradeLate_frame cfg env (timeOutPgs cfg env st)
    have hwarned : Outlives x owner rid (timeOutPgs cfg env st) := by
      refine ⟨a, by rw [ht, ha], fun _ => hp.map (by rw [ht]) fun ref hpend hact => ?_⟩
      unfold RefInfo.warn
      split
      · exact ⟨hpend, rfl, rfl⟩
      · exact ⟨hpend, rfl, rfl⟩
    have hswept : Outlives x owner rid (sweepAgents cfg ops env (timeOutPgs cfg env st)) :=
      sweepAgents_keeps cfg ops env _ (I := Outlives x owner rid) (fun _ _ hs => hs.of_eq rfl rfl)
        (fun _ y why hs => hs.markActorDead y why) (hwarned.of_eq (by rw [hd]) (by rw [hd]))
    simp only [exec, sweepLifecycle] at ha' ⊢
    obtain ⟨b, hb, hpend⟩ := hswept
    rcases sweepHistory_frame cfg env (sweepAgents cfg ops env (timeOutPgs cfg env st)) with
      hs | ⟨e', hs⟩
    · rw [hs] at ha' ⊢
      cases hb.symm.trans ha'
      exact hpend hl'
    · rw [hs] at ha' ⊢
      rw [Table.get_filter, hb] at ha'
      obtain ⟨he, hkept⟩ := Option.filter_eq_some_iff.mp ha'
      cases he
      obtain ⟨ref, href, hpend, hact, hown⟩ := hpend hl'
      refine ⟨ref, ?_, hpend, hact, hown⟩
      -- The ref goes with its actor, and the actor stays.
      rw [Table.get_filter, href]
      refine Option.filter_eq_some_iff.mpr ⟨rfl, ?_⟩
      simp only [hact, Option.all_some, Table.has, Table.get_filter, hb, Option.filter_some, hkept,
        if_true, Option.isSome_some]
  | elect candidate => exact absurd rfl (helect candidate)
  | commitIslands fresh =>
    exact hsame (by simp only [exec, commitIslands, tryPlace_refs, State.emitPatch])
  | _ => exact hsame rfl

end Sections

end Mentat
