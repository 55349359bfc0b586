import Mentat.Stall

/-!
# Groups that come to be placed

What a section does to the placement groups: it may remove some, and then place some of those that
wait. `exec_turns` says so of every section, together with what is true of the state that each group
was placed in (`Between`): the claims and the drivers' rows are those the section found, the fabrics
and the live agents' nodes those it leaves.
-/

namespace Mentat

variable {cfg : Cfg} {ops : ClaimOps} {env : Env} {st st' : State} {P : State → Prop}
  {pgs : Table PgId PgInfo}

/-- What a placement goes by: the claims and the drivers' rows. -/
def State.rules (st : State) : Table (String × String) ClaimInfo × Table ClientId ClientInfo :=
  (st.claims, st.clients)

/-- Some live agent of the group is on a node of the committed tagged set. -/
def State.optedIn (st : State) (group : String) : Bool :=
  st.agents.values.any fun a => a.alive && a.group == group && decide (a.nodeId ∈ st.fabrics.tagged)

/-- What the fabrics offer the groups. -/
def State.offer (st : State) : Fabrics × (String → Bool) := (st.fabrics, st.optedIn)

theorem optedIn_iff {group : String} : st.optedIn group = true ↔ ∃ id a, st.agents.get id = some a ∧
    a.alive = true ∧ a.group = group ∧ a.nodeId ∈ st.fabrics.tagged := by
  simp only [State.optedIn, List.any_eq_true, Table.mem_values, Bool.and_eq_true, beq_iff_eq,
    decide_eq_true_eq]
  constructor
  · rintro ⟨a, ⟨id, ha⟩, ⟨hl, hg⟩, ht⟩
    exact ⟨id, a, ha, hl, hg, ht⟩
  · rintro ⟨id, a, ha, hl, hg, ht⟩
    exact ⟨a, ⟨id, ha⟩, ⟨hl, hg⟩, ht⟩

theorem Quiet.rules (h : Quiet st st') : st'.rules = st.rules := (congrArg State.rules h :)

theorem Quiet.offer (h : Quiet st st') : st'.offer = st.offer := (congrArg State.offer h :)

/-- The history sweep forgets no live agent. -/
theorem sweepHistory_offer (cfg : Cfg) (env : Env) (st : State) :
    (sweepHistory cfg env st).offer = st.offer := by
  rcases sweepHistory_frame cfg env st with h | ⟨e, h⟩
  · rw [h]
  · have hopt : (sweepHistory cfg env st).optedIn = st.optedIn := by
      funext group
      rw [Bool.eq_iff_iff, optedIn_iff, optedIn_iff, h]
      simp only [Table.get_filter, Option.filter_eq_some_iff]
      constructor
      · rintro ⟨id, a, ⟨ha, -⟩, hrest⟩
        exact ⟨id, a, ha, hrest⟩
      · rintro ⟨id, a, ha, hl, hrest⟩
        exact ⟨id, a, ⟨ha, by simp [goneAgent, hl]⟩, hl, hrest⟩
    rw [State.offer, State.offer, hopt, h]

/-! ## Placements -/

/-- What a group has of its placement: the bundles, and its copy of the island. -/
def PgInfo.laid (pg : PgInfo) : List (Option BundleAssignment) × Option Island :=
  (pg.assignment, pg.island)

/-- The group has been placed in a state that meets `P`. -/
def PlacedIn (cfg : Cfg) (ops : ClaimOps) (P : State → Prop) (pg' : PgInfo) : Prop :=
  ∃ s pg, P s ∧ pg'.asked = pg.asked ∧
    placementOf cfg ops s pg = .ok (pg'.island, pg'.assignment)

theorem PlacedIn.congr {pg pg' : PgInfo} (h : PlacedIn cfg ops P pg) (ha : pg'.asked = pg.asked)
    (hl : pg'.laid = pg.laid) : PlacedIn cfg ops P pg' := by
  obtain ⟨s, q, hs, hq, hpl⟩ := h
  simp only [PgInfo.laid, Prod.mk.injEq] at hl
  exact ⟨s, q, hs, ha.trans hq, by rw [hl.1, hl.2, hpl]⟩

/-- Every group of the table was there in `st`, and is as it was or was pending and has been placed
in a state that meets `P`. -/
def Follows (cfg : Cfg) (ops : ClaimOps) (P : State → Prop) (st : State)
    (pgs : Table PgId PgInfo) : Prop :=
  ∀ id pg', pgs.get id = some pg' → ∃ pg, st.pgs.get id = some pg ∧ pg'.asked = pg.asked ∧
    ((pg'.laid = pg.laid ∧ pg'.state = pg.state) ∨
      (pg.state = .pending ∧ pg'.state = .created ∧ PlacedIn cfg ops P pg'))

namespace Follows

theorem of_eq (h : pgs = st.pgs) : Follows cfg ops P st pgs :=
  fun _ pg hp => ⟨pg, h ▸ hp, rfl, .inl ⟨rfl, rfl⟩⟩

theorem trans (h : Follows cfg ops P st st'.pgs) (h' : Follows cfg ops P st' pgs) :
    Follows cfg ops P st pgs := by
  intro id pg'' hp
  obtain ⟨pg', hp', ha', hplace'⟩ := h' id pg'' hp
  obtain ⟨pg, hp, ha, hplace⟩ := h id pg' hp'
  refine ⟨pg, hp, ha'.trans ha, ?_⟩
  rcases hplace' with ⟨hl', hs'⟩ | ⟨hw, hc, hby⟩
  · rcases hplace with ⟨hl, hs⟩ | ⟨hw, hc, hby⟩
    · exact .inl ⟨hl'.trans hl, hs'.trans hs⟩
    · exact .inr ⟨hw, hs'.trans hc, hby.congr ha' hl'⟩
  · rcases hplace with ⟨hl, hs⟩ | ⟨-, hc', -⟩
    · exact .inr ⟨hs.symm.trans hw, hc, hby⟩
    · rw [hc'] at hw
      cases hw

theorem placeGroup {id : PgId} {pg : PgInfo} (hp : Pending st id pg) (hP : P st) :
    Follows cfg ops P st (placeGroup cfg ops st id).pgs := by
  rcases placeGroup_cases cfg ops st id with he | ⟨why, he⟩ | ⟨q, island, asg, hq, hpl, he⟩
  · exact of_eq he
  · intro k pg' hk
    rw [he, Table.get_modify] at hk
    split at hk
    · obtain ⟨q, hq, rfl⟩ := Option.map_eq_some_iff.mp hk
      exact ⟨q, hq, rfl, .inl ⟨rfl, rfl⟩⟩
    · exact ⟨pg', hk, rfl, .inl ⟨rfl, rfl⟩⟩
  · intro k pg' hk
    rw [he, Table.get_modify] at hk
    split at hk
    · next hkey =>
      subst hkey
      cases hp.1.symm.trans hq
      rw [hq] at hk
      cases hk
      exact ⟨pg, hq, rfl, .inr ⟨hp.2, rfl, st, pg, hP, rfl, hpl⟩⟩
    · exact ⟨pg', hk, rfl, .inl ⟨rfl, rfl⟩⟩

/-- A try places in states with the registry of the one it starts in. -/
theorem tryPlace (env : Env) (st : State) (hP : ∀ s, Quiet st s → P s) :
    Follows cfg ops P st (tryPlace cfg ops env st).pgs := by
  have hfold : ∀ (ids : List PgId) (s : State), Quiet st s → ids.Nodup →
      (∀ id ∈ ids, ∃ pg, Pending s id pg) →
      Follows cfg ops P s (ids.foldl (Mentat.placeGroup cfg ops) s).pgs := by
    intro ids
    induction ids with
    | nil => exact fun s _ _ _ => of_eq rfl
    | cons id ids ih =>
      intro s hs hnd hids
      obtain ⟨hid, hnd⟩ := List.nodup_cons.mp hnd
      obtain ⟨pg, hp⟩ := hids id List.mem_cons_self
      have hq : Quiet s (Mentat.placeGroup cfg ops s id) :=
        (congrArg State.registry (placeGroup_sansPgs cfg ops s id) :)
      refine (placeGroup hp (hP s hs)).trans (ih _ (hs.trans hq) hnd fun k hk => ?_)
      obtain ⟨q, hq⟩ := hids k (List.mem_cons_of_mem id hk)
      have hne : k ≠ id := fun he => hid (he ▸ hk)
      exact ⟨q, by rw [placeGroup_get_ne hne, hq.1], hq.2⟩
  refine hfold _ st (.refl st) (env.select_nodup _ _) fun id hid => ?_
  obtain ⟨pg, hget, hst⟩ := Env.mem_select.mp hid
  exact ⟨pg, hget, by simpa using hst⟩

theorem markActorDead {s0 : State} (hP : ∀ s, Quiet s0 s → P s) (h : Quiet s0 st)
    (x : ActorId) (reason : String) :
    Follows cfg ops P st (markActorDead cfg ops env st x reason).pgs := by
  unfold Mentat.markActorDead
  split
  · exact tryPlace env _ fun s hs => hP s (h.trans hs)
  · split
    · exact of_eq rfl
    · exact tryPlace env _ fun s hs => hP s (h.trans hs)

end Follows

/-- Rows may have been marked removed. -/
def Drops (st : State) (pgs : Table PgId PgInfo) : Prop :=
  ∀ id pg', pgs.get id = some pg' → ∃ pg, st.pgs.get id = some pg ∧ pg'.asked = pg.asked ∧
    pg'.laid = pg.laid ∧ (pg'.state = pg.state ∨ pg'.state = .removed)

namespace Drops

theorem of_eq (h : pgs = st.pgs) : Drops st pgs :=
  fun _ pg hp => ⟨pg, h ▸ hp, rfl, rfl, .inl rfl⟩

theorem trans (h : Drops st st'.pgs) (h' : Drops st' pgs) : Drops st pgs := by
  intro id pg'' hp
  obtain ⟨pg', hp', ha', hl', hs'⟩ := h' id pg'' hp
  obtain ⟨pg, hp, ha, hl, hs⟩ := h id pg' hp'
  refine ⟨pg, hp, ha'.trans ha, hl'.trans hl, ?_⟩
  rcases hs' with hs' | hs'
  · exact hs.imp hs'.trans hs'.trans
  · exact .inr hs'

theorem of_map {f : PgId → PgInfo → PgInfo} (h : pgs = st.pgs.map f)
    (hf : ∀ id pg, (f id pg).asked = pg.asked ∧ (f id pg).laid = pg.laid ∧
      ((f id pg).state = pg.state ∨ (f id pg).state = .removed)) : Drops st pgs := by
  intro id pg' hp
  rw [h, Table.get_map, Option.map_eq_some_iff] at hp
  obtain ⟨pg, hp, rfl⟩ := hp
  exact ⟨pg, hp, hf id pg⟩

theorem of_modify {k : PgId} {f : PgInfo → PgInfo} (h : pgs = st.pgs.modify k f)
    (hf : ∀ pg, (f pg).asked = pg.asked ∧ (f pg).laid = pg.laid ∧ (f pg).state = .removed) :
    Drops st pgs := by
  refine of_map h fun id pg => ?_
  split
  · exact ⟨(hf pg).1, (hf pg).2.1, .inr (hf pg).2.2⟩
  · exact ⟨rfl, rfl, .inl rfl⟩

theorem timeOutPgs : Drops st (timeOutPgs cfg env st).pgs := by
  unfold Mentat.timeOutPgs
  refine List.foldlRecOn _ _ (motive := fun s : State => Drops st s.pgs) (of_eq rfl) ?_
  intro s hs id _
  refine hs.trans ?_
  unfold timeOutPg
  split
  · exact of_eq rfl
  · exact of_modify rfl fun _ => ⟨rfl, rfl, rfl⟩

end Drops

/-- Some groups have been removed and then some placed. -/
def Turns (cfg : Cfg) (ops : ClaimOps) (P : State → Prop) (st : State) (pgs : Table PgId PgInfo) :
    Prop :=
  ∀ id pg', pgs.get id = some pg' → ∃ pg, st.pgs.get id = some pg ∧ pg'.asked = pg.asked ∧
    ((pg'.laid = pg.laid ∧ (pg'.state = pg.state ∨ pg'.state = .removed)) ∨
      (pg.state = .pending ∧ pg'.state = .created ∧ PlacedIn cfg ops P pg'))

theorem Follows.after (h : Drops st st'.pgs) (h' : Follows cfg ops P st' pgs) :
    Turns cfg ops P st pgs := by
  intro id pg'' hp
  obtain ⟨pg', hp', ha', hplace⟩ := h' id pg'' hp
  obtain ⟨pg, hp, ha, hl, hs⟩ := h id pg' hp'
  refine ⟨pg, hp, ha'.trans ha, ?_⟩
  rcases hplace with ⟨hl', hs'⟩ | ⟨hw, hc, hby⟩
  · refine .inl ⟨hl'.trans hl, ?_⟩
    exact hs.imp hs'.trans hs'.trans
  · rcases hs with hs | hs
    · exact .inr ⟨hs.symm.trans hw, hc, hby⟩
    · rw [hs] at hw
      cases hw

theorem Follows.turns (h : Follows cfg ops P st pgs) : Turns cfg ops P st pgs :=
  after (.of_eq rfl) h

theorem Drops.turns (h : Drops st pgs) : Turns cfg ops P st pgs := by
  intro id pg' hp
  obtain ⟨pg, hp, ha, hl, hs⟩ := h id pg' hp
  exact ⟨pg, hp, ha, .inl ⟨hl, hs⟩⟩

theorem Turns.of_eq (h : pgs = st.pgs) : Turns cfg ops P st pgs := Drops.turns (.of_eq h)

/-! ## What a section places -/

/-- The state a group is placed in, in a section from `st` to `st'`. -/
def Between (st st' s : State) : Prop := s.rules = st.rules ∧ s.offer = st'.offer

theorem register_turns (w : FrameWriter) (r : AgentRegister) :
    Turns cfg ops (Between st (register cfg ops env st w r)) st
      (register cfg ops env st w r).pgs := by
  have hP : ∀ s, Quiet (insertAgent st w r) s → Between st (register cfg ops env st w r) s :=
    fun s hs => ⟨hs.rules, hs.offer.trans (register_quiet cfg ops env st w r).offer.symm⟩
  generalize Between st (register cfg ops env st w r) = P at hP
  have hadopt : Quiet (insertAgent st w r) (adoptRefs env (adoptActors (insertAgent st w r) r) r) ∧
      Follows cfg ops P st (adoptRefs env (adoptActors (insertAgent st w r) r) r).pgs := by
    have hactors := adoptActors_quiet (insertAgent st w r) r
    refine ⟨hactors.trans (adoptRefs_quiet env (adoptActors (insertAgent st w r) r) r), ?_⟩
    obtain ⟨refs, n, he⟩ := adoptRefs_frame env (adoptActors (insertAgent st w r) r) r
    rw [he]
    unfold adoptActors
    simp only
    split <;> exact .of_eq rfl
  have hbury := buryAll_keeps cfg ops env _
    (I := fun s => Quiet (insertAgent st w r) s ∧ Follows cfg ops P st s.pgs)
    (fun s x reason hs => ⟨hs.1.trans (markActorDead_quiet cfg ops env s x reason),
      hs.2.trans (.markActorDead hP hs.1 x reason)⟩) hadopt
    (missingActors env (adoptRefs env (adoptActors (insertAgent st w r) r) r) r)
    "agent reconnected without this actor"
  have hdrained : Follows cfg ops P st
      (drainHeld env (repliedState cfg ops env st w r) w r.agentId).pgs := hbury.2
  have hquiet : Quiet (insertAgent st w r)
      (drainHeld env (repliedState cfg ops env st w r) w r.agentId) :=
    (resumeState_quiet cfg ops env st w r).trans
      (drainHeld_quiet env (repliedState cfg ops env st w r) w r.agentId)
  rw [register_eq]
  exact (hdrained.trans (.tryPlace env _ fun s hs => hP s (hquiet.trans hs))).turns

theorem sweepLifecycle_turns :
    Turns cfg ops (Between st (sweepLifecycle cfg ops env st)) st
      (sweepLifecycle cfg ops env st).pgs := by
  obtain ⟨p, e, htime⟩ := timeOutPgs_frame cfg env st
  obtain ⟨e', hlate⟩ := degradeLate_frame cfg env (timeOutPgs cfg env st)
  have hq := sweepAgents_quiet cfg ops env (timeOutPgs cfg env st)
  have hP : ∀ s, Quiet (degradeLate cfg env (timeOutPgs cfg env st)) s →
      Between st (sweepLifecycle cfg ops env st) s := by
    intro s hs
    refine ⟨hs.rules.trans (by rw [hlate, htime]; rfl), ?_⟩
    rw [sweepLifecycle, sweepHistory_offer, hq.offer, hs.offer]
  generalize Between st (sweepLifecycle cfg ops env st) = P at hP
  obtain ⟨-, hagents⟩ := sweepAgents_keeps cfg ops env (timeOutPgs cfg env st)
    (I := fun s => Quiet (degradeLate cfg env (timeOutPgs cfg env st)) s ∧
      Follows cfg ops P (timeOutPgs cfg env st) s.pgs)
    (fun s e hs => hs)
    (fun s x reason hs => ⟨hs.1.trans (markActorDead_quiet cfg ops env s x reason),
      hs.2.trans (.markActorDead hP hs.1 x reason)⟩)
    ⟨.refl _, .of_eq (by rw [hlate])⟩
  refine Follows.after Drops.timeOutPgs (hagents.trans ?_)
  unfold sweepLifecycle
  rcases sweepHistory_frame cfg env (sweepAgents cfg ops env (timeOutPgs cfg env st)) with
    he | ⟨e, he⟩
  · exact .of_eq (by rw [he])
  · intro id pg hp
    rw [he] at hp
    simp only [Table.get_filter, Option.filter_eq_some_iff] at hp
    exact ⟨pg, hp.1, rfl, .inl ⟨rfl, rfl⟩⟩

theorem agentFrame_turns (id : AgentId) (msg : FromAgent) :
    Turns cfg ops (Between st (agentFrame cfg ops env st id msg)) st
      (agentFrame cfg ops env st id msg).pgs := by
  cases msg with
  | spawnResult x ok error pid =>
    have hP : ∀ s, Quiet st s → Between st (agentFrame cfg ops env st id (.spawnResult x ok error pid)) s :=
      fun s hs => ⟨hs.rules, hs.offer.trans (spawnResult_quiet cfg ops env st x ok error pid).offer.symm⟩
    generalize Between st (agentFrame cfg ops env st id (.spawnResult x ok error pid)) = P at hP
    obtain ⟨actors, he⟩ := notePid_frame st x pid
    simp only [agentFrame, spawnResult, he]
    split
    · split <;> exact .of_eq rfl
    · have hnote : Quiet st { st with actors := actors } := Eq.refl st.registry
      exact Follows.after (.of_eq rfl) (.markActorDead hP hnote x _)
  | result ref ok error payload => exact .of_eq rfl
  | exit x exitCode signal =>
    have hP : ∀ s, Quiet st s → Between st (agentFrame cfg ops env st id (.exit x exitCode signal)) s :=
      fun s hs => ⟨hs.rules, hs.offer.trans (markActorDead_quiet cfg ops env st x _).offer.symm⟩
    exact (Follows.markActorDead hP (.refl st) x _).turns
  | serviceNote service note =>
    unfold agentFrame serviceNote
    simp only
    split <;> exact .of_eq rfl

theorem exec_turns {sec : Section} (hc : ∀ r, sec ≠ .pgCreate r) :
    Turns cfg ops (Between st (exec cfg ops env st sec)) st (exec cfg ops env st sec).pgs := by
  -- Where the registry stays, every state on the way is between the two.
  have hquiet : Quiet st (exec cfg ops env st sec) → ∀ s, Quiet st s →
      Between st (exec cfg ops env st sec) s := fun hq s hs =>
    ⟨hs.rules, hs.offer.trans hq.offer.symm⟩
  cases sec with
  | pgCreate r => exact absurd rfl (hc r)
  | hello w h =>
    cases hh : hello env st w h with
    | none => exact .of_eq (by rw [exec_hello_none _ _ _ hh])
    | some p =>
      obtain ⟨st', orphans⟩ := p
      refine .of_eq ?_
      rw [exec_hello_some _ _ _ hh]
      obtain ⟨-, -, e, rfl⟩ := hello_eq_some hh
      rfl
  | claim client name shape =>
    obtain ⟨c, g, e, h⟩ := claim_frame ops st client name shape
    exact .of_eq (by simp only [exec, h])
  | pgRemove id =>
    have hP := hquiet (pgRemove_quiet cfg ops env st id)
    generalize Between st (exec cfg ops env st (.pgRemove id)) = P at hP
    have hgo : Drops st (st.pgs.modify id (·.remove env.now)) :=
      .of_modify rfl fun _ => ⟨rfl, rfl, rfl⟩
    simp only [exec, pgRemove]
    split
    · exact Follows.after hgo (.tryPlace env _ hP)
    · exact Follows.after hgo (.tryPlace env _ hP)
  | actorCreate r =>
    have hP := hquiet (createActor_quiet cfg ops env st r)
    generalize Between st (exec cfg ops env st (.actorCreate r)) = P at hP
    simp only [exec, createActor]
    split
    · exact .of_eq rfl
    · next bundle agent ip _ =>
      split
      · exact .of_eq rfl
      · have hput : Quiet st (putSpawning st r bundle) := Eq.refl st.registry
        exact Follows.after (.of_eq rfl) (.markActorDead hP hput r.actorId _)
  | actorCall r =>
    refine .of_eq ?_
    simp only [exec, actorCall]
    split
    · rfl
    · simp only
      split
      · rfl
      · split
        · split <;> rfl
        · split <;> rfl
  | killActor x =>
    have hP := hquiet (killActor_quiet cfg ops env st x)
    generalize Between st (exec cfg ops env st (.killActor x)) = P at hP
    rcases killActor_cases cfg ops env st x with he | ⟨_, _, _, _, _, he⟩ | ⟨_, _, _, _, he⟩
    · exact .of_eq (by simp only [exec, he])
    · exact .of_eq (by simp only [exec, he]; rfl)
    · simp only [exec, he]
      exact (Follows.markActorDead hP (.refl st) x _).turns
  | dropRow client moved =>
    refine .of_eq ?_
    simp only [exec, dropRow]
    split <;> rfl
  | reapCheck client group token =>
    rcases reapCheck_cases env st client group token with ⟨-, h⟩ | ⟨-, -, h⟩ | ⟨-, -, h⟩
    · exact .of_eq (by simp only [exec, h])
    · exact .of_eq (by simp only [exec, h])
    · obtain ⟨-, e, ht⟩ := reapTake_spec env st client group
      refine Drops.turns (.of_map (by simp only [exec, h, ht]; rfl) fun id pg => ?_)
      unfold PgInfo.reap
      split
      · exact ⟨rfl, rfl, .inr rfl⟩
      · exact ⟨rfl, rfl, .inl rfl⟩
  | reapFinish client =>
    have hP := hquiet (reapFinish_quiet cfg ops env st client)
    generalize Between st (exec cfg ops env st (.reapFinish client)) = P at hP
    exact Follows.after (.of_eq rfl) (.tryPlace env _ hP)
  | register w r => exact register_turns w r
  | agentFrame id msg => exact agentFrame_turns id msg
  | agentEof id w =>
    obtain ⟨a, e, h⟩ := agentEof_frame cfg env st id w
    exact .of_eq (by simp only [exec, h])
  | sweepLifecycle => exact sweepLifecycle_turns
  | elect candidate =>
    simp only [exec]
    rcases elect_frame env st candidate with ⟨_, _, _, -, he⟩ | ⟨_, _, _, -, he⟩
    · exact .of_eq (by rw [he])
    · refine Drops.turns (.of_map (by rw [he]) fun id pg => ?_)
      unfold PgInfo.move
      split
      · exact ⟨rfl, rfl, .inl rfl⟩
      · exact ⟨rfl, rfl, .inr rfl⟩
  | commitIslands fresh =>
    have hq := commitIslands_quiet cfg ops env st fresh
    exact (Follows.tryPlace env _ fun s hs => ⟨hs.rules, hs.offer.trans hq.offer.symm⟩).turns
  | _ => exact .of_eq rfl

/-- The section makes a group of this id. -/
def Section.makes (id : PgId) : Section → Bool
  | .pgCreate r => r.pgId == id
  | _ => false

theorem Section.makes_fresh {sec : Section} {id : PgId} (hf : sec.fresh st = true)
    (hm : sec.makes id = true) : st.pgs.get id = none := by
  cases sec with
  | pgCreate r =>
    simp only [makes, beq_iff_eq] at hm
    subst hm
    simpa only [Section.fresh, Bool.not_eq_true', Table.has_eq_false] using hf
  | _ => cases hm

/-- A group after a section is as it was before, or removed since. Or it is new and waits. Or it has
been placed, and was not before. -/
theorem exec_laid {sec : Section} {id : PgId} {pg' : PgInfo} (hf : sec.fresh st = true)
    (h : (exec cfg ops env st sec).pgs.get id = some pg') :
    (∃ pg, st.pgs.get id = some pg ∧ pg'.asked = pg.asked ∧ pg'.laid = pg.laid ∧
      (pg'.state = pg.state ∨ pg'.state = .removed)) ∨
    (sec.makes id = true ∧ pg'.state = .pending ∧ pg'.placed = []) ∨
    ((sec.makes id = true ∨ ∃ pg, Pending st id pg) ∧ pg'.state = .created ∧
      PlacedIn cfg ops (Between st (exec cfg ops env st sec)) pg') := by
  by_cases hnew : ∃ r, sec = .pgCreate r
  · obtain ⟨r, rfl⟩ := hnew
    have hq := pgCreate_quiet cfg ops env st r
    have hP : ∀ s, Quiet st s → Between st (exec cfg ops env st (.pgCreate r)) s := fun s hs =>
      ⟨hs.rules, hs.offer.trans hq.offer.symm⟩
    let st1 : State := { st with pgs := st.pgs.set r.pgId (newPg env st r) }
    have htry : Follows cfg ops (Between st (exec cfg ops env st (.pgCreate r))) st1
        (exec cfg ops env st (.pgCreate r)).pgs :=
      Follows.tryPlace env (st1.emitPatch "pg_created" (pgPatch st1 r.pgId).toList "") hP
    obtain ⟨pg, hget, hasked, hplace⟩ := htry id pg' h
    rcases Table.get_set_some hget with ⟨rfl, rfl⟩ | ⟨-, hget⟩
    · rcases hplace with ⟨hl, hs⟩ | ⟨-, hcr, hby⟩
      · refine .inr (.inl ⟨by simp [Section.makes], hs, ?_⟩)
        have hasg : pg'.assignment = r.bundles.map fun _ => none := (Prod.mk.inj hl).1
        simp [PgInfo.placed, hasg]
      · exact .inr (.inr ⟨.inl (by simp [Section.makes]), hcr, hby⟩)
    · rcases hplace with ⟨hl, hs⟩ | ⟨hpend, hcr, hby⟩
      · exact .inl ⟨pg, hget, hasked, hl, .inl hs⟩
      · exact .inr (.inr ⟨.inr ⟨pg, hget, hpend⟩, hcr, hby⟩)
  · obtain ⟨pg, hget, hasked, hplace⟩ := exec_turns (fun r hr => hnew ⟨r, hr⟩) id pg' h
    rcases hplace with ⟨hl, hs⟩ | ⟨hpend, hcr, hby⟩
    · exact .inl ⟨pg, hget, hasked, hl, hs⟩
    · exact .inr (.inr ⟨.inr ⟨pg, hget, hpend⟩, hcr, hby⟩)

/-- Only the island thread changes the committed fabrics. -/
theorem exec_fabrics {sec : Section} (hc : ∀ fresh, sec ≠ .commitIslands fresh) :
    (exec cfg ops env st sec).fabrics = st.fabrics := by
  have hquiet : ∀ {s s' : State}, Quiet s s' → s'.fabrics = s.fabrics := fun h =>
    (congrArg State.fabrics h :)
  cases sec with
  | commitIslands fresh => exact absurd rfl (hc fresh)
  | hello w h =>
    cases hh : hello env st w h with
    | none => rw [exec_hello_none _ _ _ hh]
    | some p =>
      obtain ⟨st', orphans⟩ := p
      rw [exec_hello_some _ _ _ hh]
      obtain ⟨-, -, e, rfl⟩ := hello_eq_some hh
      rfl
  | claim client name shape =>
    obtain ⟨c, g, e, h⟩ := claim_frame ops st client name shape
    simp only [exec, h]
  | pgCreate r => exact hquiet (pgCreate_quiet cfg ops env st r)
  | pgRemove id => exact hquiet (pgRemove_quiet cfg ops env st id)
  | actorCreate r => exact hquiet (createActor_quiet cfg ops env st r)
  | actorCall r => exact hquiet (actorCall_quiet env st r)
  | killActor x => exact hquiet (killActor_quiet cfg ops env st x)
  | dropRow client moved =>
    simp only [exec, dropRow]
    split <;> rfl
  | reapCheck client group token =>
    rcases reapCheck_cases env st client group token with ⟨-, h⟩ | ⟨-, -, h⟩ | ⟨-, -, h⟩
    · simp only [exec, h]
    · simp only [exec, h]
    · obtain ⟨-, e, ht⟩ := reapTake_spec env st client group
      simp only [exec, h, ht]
  | reapFinish client => exact hquiet (reapFinish_quiet cfg ops env st client)
  | register w r =>
    have h := hquiet (register_quiet cfg ops env st w r)
    exact h
  | agentFrame id msg => exact (congrArg State.fabrics (agentFrame_sansAgents cfg ops env st id msg) :)
  | agentEof id w =>
    obtain ⟨a, e, h⟩ := agentEof_frame cfg env st id w
    simp only [exec, h]
  | sweepLifecycle =>
    obtain ⟨p, e, htime⟩ := timeOutPgs_frame cfg env st
    obtain ⟨e', hlate⟩ := degradeLate_frame cfg env (timeOutPgs cfg env st)
    have hhist := sweepHistory_offer cfg env (sweepAgents cfg ops env (timeOutPgs cfg env st))
    refine (congrArg Prod.fst hhist).trans ((hquiet (sweepAgents_quiet cfg ops env _)).trans ?_)
    rw [hlate, htime]
  | elect candidate =>
    simp only [exec]
    rcases elect_frame env st candidate with ⟨_, _, _, -, he⟩ | ⟨_, _, _, -, he⟩
    · rw [he]
    · rw [he]
  | _ => rfl

end Mentat
