import Mentat.Daemon.Section

/-!
# Device accounting

Who holds which device, over whole runs of one daemon.

* `Accounts` is the invariant: no device is with two placement groups or with two bundles of one,
  and a live actor's devices are with no group but the one it was created in. It survives
  whatever only gives devices back (`Accounts.shrink`) and every placement (`Accounts.tryPlace`).
* The daemon does not record the group an actor was created in, so `Ledger` carries it along.
* Two live actors on one device is another matter: `create_actor` looks at the bundle and not at
  who is in it already. `Exclusive` is what holds as long as no bundle is used twice.
-/

namespace Mentat

instance {p : PgInfo} {a : AgentId} {g : Nat} : Decidable (p.Holds a g) :=
  inferInstanceAs (Decidable (_ ∧ _))

/-! ## The invariant -/

/-- The state gives no device out twice, when actor `x` was created in group `madeIn x`. -/
structure Accounts (madeIn : ActorId → Option PgId) (st : State) : Prop where
  machines : MachinesDistinct st
  apart {p q : PgId} {P Q : PgInfo} {a : AgentId} {g : Nat} : st.pgs.get p = some P →
    st.pgs.get q = some Q → p ≠ q → P.Holds a g → ¬ Q.Holds a g
  bundles {p : PgId} {P : PgInfo} : st.pgs.get p = some P →
    P.placed.Pairwise fun b b' => b.agent = b'.agent → b.gpuIds.Disjoint b'.gpuIds
  actors {x : ActorId} {A : ActorInfo} {p : PgId} {P : PgInfo} {a : AgentId} {g : Nat} :
    st.actors.get x = some A → st.pgs.get p = some P → madeIn x ≠ some p → A.Holds a g →
    ¬ P.Holds a g

/-- Each group of `t'` is a group of `t` with the same bundles, perhaps removed since, or has
none. -/
def PgsShrink (t t' : Table PgId PgInfo) : Prop :=
  ∀ k P', t'.get k = some P' → P'.placed = [] ∨
    ∃ P, t.get k = some P ∧ P'.placed = P.placed ∧ (P'.state ≠ .removed → P.state ≠ .removed)

namespace PgsShrink

theorem of_eq {t t' : Table PgId PgInfo} (h : t' = t) : PgsShrink t t' :=
  fun _ P' hP => .inr ⟨P', h ▸ hP, rfl, id⟩

theorem of_map {t t' : Table PgId PgInfo} {f : PgId → PgInfo → PgInfo} (h : t' = t.map f)
    (hf : ∀ (k : PgId) (P : PgInfo), (f k P).placed = P.placed ∧
      ((f k P).state ≠ .removed → P.state ≠ .removed)) : PgsShrink t t' := by
  intro k P' hP
  rw [h, Table.get_map, Option.map_eq_some_iff] at hP
  obtain ⟨P, hP, rfl⟩ := hP
  exact .inr ⟨P, hP, hf k P⟩

theorem of_modify {t t' : Table PgId PgInfo} {x : PgId} {f : PgInfo → PgInfo}
    (h : t' = t.modify x f) (hf : ∀ P : PgInfo, (f P).placed = P.placed ∧
      ((f P).state ≠ .removed → P.state ≠ .removed)) : PgsShrink t t' := by
  refine of_map h fun k P => ?_
  split
  · exact hf P
  · exact ⟨rfl, id⟩

/-- What a group holds after, it held before. -/
theorem holds {t t' : Table PgId PgInfo} (h : PgsShrink t t') {k : PgId} {P' : PgInfo}
    {a : AgentId} {g : Nat} (hk : t'.get k = some P') (hh : P'.Holds a g) :
    ∃ P, t.get k = some P ∧ P.Holds a g := by
  obtain ⟨hs, b, hb, hag⟩ := hh
  rcases h k P' hk with he | ⟨P, hP, hpl, hst⟩
  · simp [he] at hb
  · exact ⟨P, hP, hst hs, b, hpl ▸ hb, hag⟩

end PgsShrink

variable {madeIn : ActorId → Option PgId} {cfg : Cfg} {ops : ClaimOps} {env : Env} {st st' : State}

theorem machines_of_agentsAge (h : MachinesDistinct st) (ha : AgentsAge st.agents st'.agents) :
    MachinesDistinct st' := by
  intro id a hid
  obtain ⟨b, hb, hl⟩ := ha id a hid
  rw [hl.machine]
  exact h id b hb

theorem Later.holds {x x' : ActorInfo} (h : x.Later x') {a : AgentId} {g : Nat}
    (hh : x'.Holds a g) : x.Holds a g :=
  ⟨h.live hh.1, h.agent ▸ hh.2.1, h.gpuIds ▸ hh.2.2⟩

namespace Accounts

/-- Devices that are only given back leave the accounts in order. -/
theorem shrink (h : Accounts madeIn st) (why : ActorId → AgentId → String → Prop)
    (hm : AgentsAge st.agents st'.agents) (hp : PgsShrink st.pgs st'.pgs)
    (ha : Ages why st.actors st'.actors) : Accounts madeIn st' where
  machines := machines_of_agentsAge h.machines hm
  apart hP hQ hne hhP hhQ := by
    obtain ⟨P0, hP0, hhP⟩ := hp.holds hP hhP
    obtain ⟨Q0, hQ0, hhQ⟩ := hp.holds hQ hhQ
    exact h.apart hP0 hQ0 hne hhP hhQ
  bundles {p P} hP := by
    rcases hp p P hP with he | ⟨P0, hP0, hpl, -⟩
    · rw [he]
      exact .nil
    · rw [hpl]
      exact h.bundles hP0
  actors hA hP hne hhA hhP := by
    obtain ⟨P0, hP0, hhP⟩ := hp.holds hP hhP
    obtain ⟨A0, hA0, hl, -⟩ := ha.back hA
    exact h.actors hA0 hP0 hne (Later.holds hl hhA) hhP

/-- The same, when only groups and the like change. -/
theorem of_pgs (h : Accounts madeIn st) (hm : st'.agents = st.agents)
    (ha : st'.actors = st.actors) (hp : PgsShrink st.pgs st'.pgs) : Accounts madeIn st' :=
  h.shrink (fun _ _ _ => False) (.of_eq hm) hp (.of_eq ha)

/-- A group is placed on free devices, so nobody else had them. -/
theorem placeGroup (h : Accounts madeIn st) (pgId : PgId) :
    Accounts madeIn (placeGroup cfg ops st pgId) := by
  have hframe := placeGroup_sansPgs cfg ops st pgId
  have hagents : (Mentat.placeGroup cfg ops st pgId).agents = st.agents :=
    (congrArg State.agents hframe :)
  have hactors : (Mentat.placeGroup cfg ops st pgId).actors = st.actors :=
    (congrArg State.actors hframe :)
  rcases placeGroup_cases cfg ops st pgId with he | ⟨why, he⟩ | ⟨pg, island, asg, hpg, hpl, he⟩
  · exact h.of_pgs hagents hactors (.of_eq he)
  · exact h.of_pgs hagents hactors (.of_modify he fun _ => ⟨rfl, fun hs => hs⟩)
  have hfit := placementOf_fits hpl
  -- The group in question holds free devices now, and every other group is as it was.
  have hself : ∀ {P : PgInfo}, (Mentat.placeGroup cfg ops st pgId).pgs.get pgId = some P →
      P.placed = asg.filterMap id := by
    intro P hP
    rw [he, Table.get_modify_self, hpg] at hP
    cases hP
    rfl
  have hother : ∀ {k : PgId} {P : PgInfo}, k ≠ pgId →
      (Mentat.placeGroup cfg ops st pgId).pgs.get k = some P → st.pgs.get k = some P := by
    intro k P hk hP
    rwa [he, Table.get_modify_of_ne hk] at hP
  have hfree : ∀ {P : PgInfo} {a : AgentId} {g : Nat},
      (Mentat.placeGroup cfg ops st pgId).pgs.get pgId = some P → P.Holds a g → g ∈ st.freeGpusOf a := by
    rintro P a g hP ⟨-, b, hb, rfl, hg⟩
    exact hfit.free b (hself hP ▸ hb) g hg
  refine ⟨fun i a hi => h.machines i a (hagents ▸ hi), ?_, ?_, ?_⟩
  · intro p q P Q a g hP hQ hne hhP hhQ
    by_cases hp : p = pgId
    · subst hp
      exact (State.mem_freeGpusOf.mp (hfree hP hhP)).2.1 q Q (hother hne.symm hQ) hhQ
    · by_cases hq : q = pgId
      · subst hq
        exact (State.mem_freeGpusOf.mp (hfree hQ hhQ)).2.1 p P (hother hp hP) hhP
      · exact h.apart (hother hp hP) (hother hq hQ) hne hhP hhQ
  · intro p P hP
    by_cases hp : p = pgId
    · subst hp
      rw [hself hP]
      exact hfit.apart h.machines
    · exact h.bundles (hother hp hP)
  · intro x A p P a g hA hP hne hhA hhP
    rw [hactors] at hA
    by_cases hp : p = pgId
    · subst hp
      exact (State.mem_freeGpusOf.mp (hfree hP hhP)).2.2 x A hA hhA
    · exact h.actors hA (hother hp hP) hne hhA hhP

theorem tryPlace (h : Accounts madeIn st) : Accounts madeIn (tryPlace cfg ops env st) := by
  unfold Mentat.tryPlace
  exact List.foldlRecOn _ _ h fun s hs id _ => hs.placeGroup id

theorem markActorDead (h : Accounts madeIn st) (x : ActorId) (reason : String) :
    Accounts madeIn (markActorDead cfg ops env st x reason) := by
  unfold Mentat.markActorDead
  split
  · exact tryPlace (h.of_pgs rfl rfl (.of_eq rfl))
  · split
    · exact h
    · refine tryPlace (h.shrink (fun _ _ _ => True) (.of_eq rfl) (.of_eq rfl) ?_)
      refine .of_map (f := fun k a => if k = x then a.die reason env.now else a) rfl (fun k a => ?_)
        fun k a hl => ?_
      · split
        · exact .die a _ _
        · exact .refl a
      · split
        · exact .inr ⟨reason, env.now, by simp [ActorInfo.die, hl], trivial⟩
        · exact .inl hl

theorem buryAll (h : Accounts madeIn st) (ids : List ActorId) (reason : String) :
    Accounts madeIn (buryAll cfg ops env st ids reason) :=
  buryAll_keeps cfg ops env st (fun _ x why hs => hs.markActorDead x why) h ids reason

theorem killActor (h : Accounts madeIn st) (x : ActorId) :
    Accounts madeIn (killActor cfg ops env st x) := by
  rcases killActor_cases cfg ops env st x with he | ⟨_, _, _, _, _, he⟩ | ⟨_, _, _, _, he⟩
  · rw [he]
    exact h
  · rw [he]
    exact h.of_pgs rfl rfl (.of_eq rfl)
  · rw [he]
    exact h.markActorDead x _

theorem pgCreate (h : Accounts madeIn st) (r : PgCreate) :
    Accounts madeIn (pgCreate cfg ops env st r) := by
  refine tryPlace (h.of_pgs rfl rfl fun k P hP => ?_)
  replace hP : (st.pgs.set r.pgId (newPg env st r)).get k = some P := hP
  rw [Table.get_set] at hP
  split at hP
  · cases hP
    exact .inl (by simp [PgInfo.placed, newPg])
  · exact .inr ⟨P, hP, rfl, id⟩

theorem pgRemove (h : Accounts madeIn st) (pgId : PgId) :
    Accounts madeIn (pgRemove cfg ops env st pgId) := by
  have hs : PgsShrink st.pgs (st.pgs.modify pgId (·.remove env.now)) :=
    .of_modify rfl fun _ => ⟨rfl, fun hr => absurd rfl hr⟩
  unfold Mentat.pgRemove
  simp only
  split
  · exact tryPlace (h.of_pgs rfl rfl hs)
  · exact tryPlace (h.of_pgs rfl rfl hs)

theorem reapCheck (h : Accounts madeIn st) (client : ClientId) (group : String)
    (token : Option Nat) : Accounts madeIn (reapCheck env st client group token).1 := by
  rcases reapCheck_cases env st client group token with ⟨-, he⟩ | ⟨-, -, he⟩ | ⟨-, -, he⟩
  · rw [he]
    exact h
  · rw [he]
    exact h.of_pgs rfl rfl (.of_eq rfl)
  · obtain ⟨-, e, ht⟩ := reapTake_spec env st client group
    rw [he, ht]
    refine h.of_pgs rfl rfl (.of_map rfl fun k P => ?_)
    unfold PgInfo.reap
    split
    · exact ⟨rfl, fun hr => absurd rfl hr⟩
    · exact ⟨rfl, id⟩

theorem agentFrame (h : Accounts madeIn st) (agentId : AgentId) (msg : FromAgent) :
    Accounts madeIn (agentFrame cfg ops env st agentId msg) := by
  cases msg with
  | spawnResult x ok error pid =>
    obtain ⟨actors, hn⟩ := notePid_frame st x pid
    have h1 : Accounts madeIn (notePid st x pid) :=
      h.shrink (fun _ _ _ => False) (.of_eq (by rw [hn])) (.of_eq (by rw [hn]))
        (notePid_ages st x pid)
    unfold Mentat.agentFrame spawnResult
    simp only
    split
    · have h2 : Accounts madeIn { notePid st x pid with
          actors := (notePid st x pid).actors.modify x fun a =>
            if a.state = .spawning then { a with state := .running } else a } :=
        h1.shrink (fun _ _ _ => False) (.of_eq rfl) (.of_eq rfl) (start_ages _ x)
      split
      · exact h2.of_pgs rfl rfl (.of_eq rfl)
      · exact h2
    · exact h1.markActorDead x _
  | result ref ok error payload => exact h.of_pgs rfl rfl (.of_eq rfl)
  | exit x exitCode signal => exact h.markActorDead x _
  | serviceNote service note =>
    refine h.shrink _ (agentFrame_agents cfg ops env st agentId _) (.of_eq ?_)
      (agentFrame_ages cfg ops env st agentId _)
    unfold Mentat.agentFrame serviceNote
    simp only
    split <;> rfl

theorem timeOutPg (h : Accounts madeIn st) (pgId : PgId) : Accounts madeIn (timeOutPg env st pgId) := by
  unfold Mentat.timeOutPg
  split
  · exact h
  · exact h.of_pgs rfl rfl (.of_modify rfl fun _ => ⟨rfl, fun hr => absurd rfl hr⟩)

theorem timeOutPgs (h : Accounts madeIn st) : Accounts madeIn (timeOutPgs cfg env st) := by
  refine List.foldlRecOn _ _ ?_ fun s hs pgId _ => hs.timeOutPg pgId
  exact h.of_pgs rfl rfl (.of_eq rfl)

theorem sweepAgents (h : Accounts madeIn st) : Accounts madeIn (sweepAgents cfg ops env st) := by
  obtain ⟨e, hd⟩ := degradeLate_frame cfg env st
  refine sweepAgents_keeps cfg ops env st (fun s e hs => hs.of_pgs rfl rfl (.of_eq rfl))
    (fun s x why hs => hs.markActorDead x why) ?_
  rw [hd]
  exact h.shrink (fun _ _ _ => False) (.of_map rfl fun _ a => window_later cfg env.now a)
    (.of_eq rfl) (.of_eq rfl)

theorem sweepLifecycle (h : Accounts madeIn st) :
    Accounts madeIn (sweepLifecycle cfg ops env st) := by
  have h1 : Accounts madeIn (Mentat.sweepAgents cfg ops env (Mentat.timeOutPgs cfg env st)) :=
    (timeOutPgs h).sweepAgents
  rcases sweepHistory_frame cfg env (Mentat.sweepAgents cfg ops env (Mentat.timeOutPgs cfg env st))
    with hs | ⟨e, hs⟩
  · rw [Mentat.sweepLifecycle, hs]
    exact h1
  · rw [Mentat.sweepLifecycle]
    refine h1.shrink (fun _ _ _ => False) ?_ ?_ (sweepHistory_ages cfg env _)
    · rw [hs]
      intro id a ha
      simp only [Table.get_filter, Option.filter_eq_some_iff] at ha
      exact ⟨a, ha.1, .refl a⟩
    · rw [hs]
      intro k P hP
      simp only [Table.get_filter, Option.filter_eq_some_iff] at hP
      exact .inr ⟨P, hP.1, rfl, id⟩

theorem elect (h : Accounts madeIn st) (candidate : NodeId) :
    Accounts madeIn (elect env st candidate) := by
  have ha := elect_ages env st candidate
  rcases elect_frame env st candidate with ⟨_, _, _, -, he⟩ | ⟨_, _, _, -, he⟩
  · rw [he]
    exact h.of_pgs rfl rfl (.of_eq rfl)
  · rw [he] at ha ⊢
    refine h.shrink _ (.of_eq rfl) (.of_map rfl fun k P => ?_) ha
    unfold PgInfo.move
    split
    · exact ⟨rfl, id⟩
    · exact ⟨rfl, fun hr => absurd rfl hr⟩

/-- A new actor has the devices of its bundle, which no group has but its own. -/
theorem createActor (h : Accounts madeIn st) (r : ActorCreate) :
    Accounts (match createTarget st r with
      | .ok _ => Function.update madeIn r.actorId (some r.pgId)
      | .error _ => madeIn) (createActor cfg ops env st r).1 := by
  unfold Mentat.createActor
  cases hc : createTarget st r with
  | error e => exact h
  | ok t =>
    obtain ⟨bundle, agent, ip⟩ := t
    obtain ⟨pg, hpg, hb, hst⟩ := createTarget_bundle hc
    have h1 : Accounts (Function.update madeIn r.actorId (some r.pgId)) (putSpawning st r bundle) := by
      refine ⟨h.machines, h.apart, h.bundles, ?_⟩
      intro x A p P a g hA hP hne hhA hhP
      replace hA : (st.actors.set r.actorId (newActor st r bundle)).get x = some A := hA
      rw [Table.get_set] at hA
      split at hA
      · next hx =>
        subst hx
        cases hA
        rw [Function.update_self] at hne
        obtain ⟨-, rfl, hg⟩ := hhA
        exact h.apart hpg hP (fun he => hne (congrArg some he))
          ⟨hst, bundle, hb, rfl, hg⟩ hhP
      · next hx =>
        rw [Function.update_of_ne hx] at hne
        exact h.actors hA hP hne hhA hhP
    simp only
    split
    · exact h1.of_pgs rfl rfl (.of_eq rfl)
    · exact h1.markActorDead _ _

/-- A registration keeps the accounts when the machine lists each device once and what it adopts
is with no group. -/
theorem register (h : Accounts madeIn st) (w : FrameWriter) {r : AgentRegister}
    (hm : (r.machine.gpus.map (·.index)).Nodup)
    (hfree : ∀ x ∈ adoptions st r, ∀ g ∈ x.gpuIds, ∀ P ∈ st.pgs.values, ¬ P.Holds r.agentId g) :
    Accounts (fun x => if x ∈ (adoptions st r).map (·.actorId) then none else madeIn x)
      (register cfg ops env st w r) := by
  have h0 : Accounts madeIn (insertAgent st w r) := by
    refine ⟨fun id a ha => ?_, h.apart, h.bundles, h.actors⟩
    replace ha : (st.agents.set r.agentId (agentOfRegister r w st.nextSeq)).get id = some a := ha
    rw [Table.get_set] at ha
    split at ha
    · cases ha
      exact hm
    · exact h.machines id a ha
  obtain ⟨refs, n, hr⟩ := adoptRefs_frame env (adoptActors (insertAgent st w r) r) r
  have hpgs : (adoptActors (insertAgent st w r) r).pgs = st.pgs := by
    unfold adoptActors
    simp only
    split <;> rfl
  have hagents := (adoptActors_quiet (insertAgent st w r) r).agents
  have h1 : Accounts (fun x => if x ∈ (adoptions st r).map (·.actorId) then none else madeIn x)
      (adoptRefs env (adoptActors (insertAgent st w r) r) r) := by
    rw [hr]
    refine ⟨fun id a ha => h0.machines id a (hagents ▸ ha), ?_, ?_, ?_⟩
    · intro p q P Q a g hP hQ
      exact h.apart (hpgs ▸ hP) (hpgs ▸ hQ)
    · intro p P hP
      exact h.bundles (hpgs ▸ hP)
    · intro x A p P a g hA hP hne hhA hhP
      replace hP : st.pgs.get p = some P := hpgs ▸ hP
      rw [adoptActors_actors] at hA
      by_cases hx : x ∈ (adoptions st r).map (·.actorId)
      · obtain ⟨y, hy, rfl⟩ := List.mem_map.mp hx
        rcases adoptTable_get (insertAgent st w r) r hA with hk | ⟨hk, z, hz, hzx, rfl⟩
        · simp only [adoptions, List.mem_filter, Bool.not_eq_true', Table.has_eq_false] at hy
          cases hy.2.symm.trans hk
        · obtain ⟨-, rfl, hg⟩ := hhA
          refine hfree z ?_ g hg P (Table.mem_values.mpr ⟨p, hP⟩) hhP
          simp only [adoptions, List.mem_filter, Bool.not_eq_true', Table.has_eq_false]
          exact ⟨hz, hzx ▸ hk⟩
      · rw [if_neg hx] at hne
        rcases adoptTable_get (insertAgent st w r) r hA with hk | ⟨hk, z, hz, hzx, rfl⟩
        · exact h.actors hk hP hne hhA hhP
        · refine absurd (List.mem_map.mpr ⟨z, ?_, hzx⟩) hx
          simp only [adoptions, List.mem_filter, Bool.not_eq_true', Table.has_eq_false]
          exact ⟨hz, hzx ▸ hk⟩
  have h2 : Accounts _ (buryMissing cfg ops env
      (adoptRefs env (adoptActors (insertAgent st w r) r) r) r) := h1.buryAll _ _
  rw [register_eq]
  exact tryPlace (h2.shrink (fun _ _ _ => False) (.of_eq rfl) (.of_eq rfl)
    (drainHeld_ages env (repliedState cfg ops env st w r) w _ r.agentId))

end Accounts

/-! ## Whole runs -/

/-- What is assumed of a registration: the machine lists each device once, and no group holds a
device that an adopted actor reports. -/
def Section.honest (st : State) : Section → Bool
  | .register _ r => decide ((r.machine.gpus.map (·.index)).Nodup ∧
      ∀ x ∈ adoptions st r, ∀ g ∈ x.gpuIds, ∀ P ∈ st.pgs.values, ¬ P.Holds r.agentId g)
  | _ => true

/-- The group each actor was created in, after a section. An adopted actor was created in no group
this daemon knows. -/
def Section.madeInAfter (st : State) (madeIn : ActorId → Option PgId) :
    Section → ActorId → Option PgId
  | .actorCreate r => match createTarget st r with
      | .ok _ => Function.update madeIn r.actorId (some r.pgId)
      | .error _ => madeIn
  | .register _ r => fun x => if x ∈ (adoptions st r).map (·.actorId) then none else madeIn x
  | _ => madeIn

/-- The daemon's state, and the group each actor was created in. -/
structure Ledger where
  st : State
  madeIn : ActorId → Option PgId

def ledger (cfg : Cfg) (ops : ClaimOps) : System Ledger (Env × Section) where
  init l := (daemon cfg ops).init l.st
  next l a := ((daemon cfg ops).next l.st a).map (⟨·, a.2.madeInAfter l.st l.madeIn⟩)

theorem Accounts.exec (h : Accounts madeIn st) {sec : Section} (hh : sec.honest st = true) :
    Accounts (sec.madeInAfter st madeIn) (exec cfg ops env st sec) := by
  -- Every section but these few neither frees nor places anything.
  have hquiet : PgsShrink st.pgs (Mentat.exec cfg ops env st sec).pgs →
      sec.opened st = st.actors → (∀ w r, sec ≠ .register w r) →
      Accounts madeIn (Mentat.exec cfg ops env st sec) := by
    intro hp ho hr
    refine h.shrink _ ?_ hp (ho ▸ exec_ages cfg ops env st sec)
    rcases exec_agents cfg ops env st sec with ⟨w, r, he, -⟩ | ha
    · exact absurd he (hr w r)
    · exact ha
  cases sec with
  | hello w hello =>
    refine hquiet (.of_eq ?_) rfl (by simp)
    cases hh : Mentat.hello env st w hello with
    | none => rw [exec_hello_none _ _ _ hh]
    | some p =>
      obtain ⟨st', orphans⟩ := p
      rw [exec_hello_some _ _ _ hh]
      obtain ⟨-, -, e, rfl⟩ := hello_eq_some hh
      rfl
  | claim client name shape =>
    obtain ⟨c, g, e, he⟩ := claim_frame ops st client name shape
    exact hquiet (.of_eq (by simp only [Mentat.exec, he])) rfl (by simp)
  | pgCreate r => exact h.pgCreate r
  | pgRemove pgId => exact h.pgRemove pgId
  | actorCreate r => exact h.createActor r
  | actorCall r =>
    refine hquiet (.of_eq ?_) rfl (by simp)
    simp only [Mentat.exec, actorCall]
    split
    · rfl
    · split
      · rfl
      · split <;> split <;> rfl
  | killActor x => exact h.killActor x
  | closeLink w => exact hquiet (.of_eq rfl) rfl (by simp)
  | dropRow client moved =>
    refine hquiet (.of_eq ?_) rfl (by simp)
    simp only [Mentat.exec, dropRow]
    split <;> rfl
  | reapRow client => exact hquiet (.of_eq rfl) rfl (by simp)
  | reapArm client => exact hquiet (.of_eq rfl) rfl (by simp)
  | reapCheck client group token => exact h.reapCheck client group token
  | reapFinish client => exact Accounts.tryPlace (h.of_pgs rfl rfl (.of_eq rfl))
  | register w r =>
    simp only [Section.honest, decide_eq_true_eq] at hh
    exact h.register w hh.1 hh.2
  | agentFrame agentId msg => exact h.agentFrame agentId msg
  | agentEof agentId w =>
    obtain ⟨a, e, he⟩ := agentEof_frame cfg env st agentId w
    exact hquiet (.of_eq (by simp only [Mentat.exec, he])) rfl (by simp)
  | sweepLifecycle => exact h.sweepLifecycle
  | elect candidate => exact h.elect candidate
  | commitIslands fresh => exact Accounts.tryPlace (h.of_pgs rfl rfl (.of_eq rfl))
  | peers t => exact hquiet (.of_eq rfl) rfl (by simp)

/-- The accounts are in order in every state a run reaches. -/
theorem ledger_accounts {l : Ledger} (h : (ledger cfg ops).Reach (fun l a => a.2.honest l.st) l) :
    Accounts l.madeIn l.st := by
  refine h.invariant (I := fun l => Accounts l.madeIn l.st) ?_ ?_
  · rintro l ⟨_, _, _, hl⟩
    rw [hl]
    refine ⟨fun _ _ h => ?_, fun h => ?_, fun h => ?_, fun h => ?_⟩ <;> cases h
  · intro l a l' hl hok hn
    simp only [ledger, Option.map_eq_some_iff] at hn
    obtain ⟨st', hst, rfl⟩ := hn
    obtain ⟨-, rfl⟩ := daemon_next cfg ops hst
    exact hl.exec hok

/-- No device is given out twice: not to two groups, not to two bundles of a group, and a live
actor's devices are with no group but the one it was created in. -/
theorem no_double_allocation {l : Ledger}
    (h : (ledger cfg ops).Reach (fun l a => a.2.honest l.st) l) :
    (∀ p q P Q, l.st.pgs.get p = some P → l.st.pgs.get q = some Q → p ≠ q →
      ∀ a g, P.Holds a g → ¬ Q.Holds a g) ∧
    (∀ p P, l.st.pgs.get p = some P → P.state ≠ .removed →
      P.placed.Pairwise fun b b' => b.agent = b'.agent → b.gpuIds.Disjoint b'.gpuIds) ∧
    (∀ x A p P, l.st.actors.get x = some A → A.state.isDead = false → l.st.pgs.get p = some P →
      l.madeIn x ≠ some p → ∀ g ∈ A.gpuIds, ¬ P.Holds A.agent g) := by
  have hacc := ledger_accounts h
  refine ⟨fun p q P Q hP hQ hne a g => hacc.apart hP hQ hne, fun p P hP _ => hacc.bundles hP, ?_⟩
  intro x A p P hA hl hP hne g hg
  exact hacc.actors hA hP hne ⟨hl, rfl, hg⟩

/-- Two groups on one agent, with an actor in the first. -/
def twoGroups : List (Env × Section) := [
  (Sample.at_ 0, .elect "n:1"),
  (Sample.at_ 1, .register 1 (Sample.registration [] [])),
  (Sample.at_ 2, .hello 2 (Sample.driver "c" true)),
  (Sample.at_ 3, Sample.group "c" "p:1"),
  (Sample.at_ 4, Sample.actor "c" "p:1" "a:1"),
  (Sample.at_ 5, Sample.group "c" "p:2")]

theorem no_double_allocation_twoGroups :
    ∃ l, (ledger Sample.cfg Sample.ops).Reach (fun l a => a.2.honest l.st) l ∧
      (∃ P, l.st.pgs.get "p:1" = some P ∧ P.Holds "ag" 0) ∧
      (∃ Q, l.st.pgs.get "p:2" = some Q ∧ Q.Holds "ag" 1 ∧ ¬ Q.Holds "ag" 0) := by
  have hrun : ((ledger Sample.cfg Sample.ops).run (fun l a => a.2.honest l.st)
      ⟨Sample.boot, fun _ => none⟩ twoGroups).any (fun l =>
        (l.st.pgs.get "p:1").any (fun P => decide (P.Holds "ag" 0)) &&
        (l.st.pgs.get "p:2").any fun Q => decide (Q.Holds "ag" 1)) = true := by decide +kernel
  obtain ⟨l, hreach, hp⟩ := System.Reach.of_run hrun ⟨_, _, _, rfl⟩
  simp only [Bool.and_eq_true, Option.any_eq_true, decide_eq_true_eq] at hp
  obtain ⟨⟨P, hP, hP0⟩, Q, hQ, hQ1⟩ := hp
  exact ⟨l, hreach, ⟨P, hP, hP0⟩, Q, hQ, hQ1,
    (no_double_allocation hreach).1 "p:1" "p:2" P Q hP hQ (by decide) "ag" 0 hP0⟩

/-! ## Two actors on one device -/

instance {x : ActorInfo} {a : AgentId} {g : Nat} : Decidable (x.Holds a g) :=
  inferInstanceAs (Decidable (_ ∧ _))

/-- No device is with two live actors. -/
def Exclusive (st : State) : Prop :=
  ∀ x y A B, x ≠ y → st.actors.get x = some A → st.actors.get y = some B →
    A.state.isDead = false → B.state.isDead = false → A.agent = B.agent →
    A.gpuIds.Disjoint B.gpuIds

/-- The devices a registration adds are disjoint: those of two adopted actors, and those of an
adopted actor and of one of the agent's own that the list keeps. -/
def Section.disjointReport (st : State) : Section → Bool
  | .register _ r => decide (∀ x ∈ adoptions st r,
      (∀ y ∈ adoptions st r, x.actorId ≠ y.actorId → ∀ g ∈ x.gpuIds, g ∉ y.gpuIds) ∧
      ∀ k ∈ r.resumed, ∀ A ∈ st.actors.get k, ∀ g ∈ x.gpuIds, ¬ A.Holds r.agentId g)
  | _ => true

/-- No live actor is in the bundle a creation names. -/
def Section.bundleUnused (st : State) : Section → Bool
  | .actorCreate r => match createTarget st r with
      | .ok (bundle, _, _) => decide (∀ A ∈ st.actors.values, ∀ g ∈ bundle.gpuIds,
          ¬ A.Holds bundle.agent g)
      | .error _ => true
  | _ => true

/-- One section keeps actors apart when it uses no bundle twice. -/
theorem Exclusive.exec (h : Exclusive st) {sec : Section} (hd : sec.disjointReport st = true)
    (hu : sec.bundleUnused st = true) : Exclusive (exec cfg ops env st sec) := by
  -- The new row of a pair, against any other live row. The general case follows by symmetry.
  have hnew : ∀ x y A B, x ≠ y → (Mentat.exec cfg ops env st sec).actors.get x = some A →
      (Mentat.exec cfg ops env st sec).actors.get y = some B → A.state.isDead = false →
      B.state.isDead = false → A.agent = B.agent →
      (∀ A0, st.actors.get x = some A0 → ¬ A0.Later A) → A.gpuIds.Disjoint B.gpuIds := by
    intro x y A B hne hA hB hlA hlB hag hx g hgA hgB
    rcases exec_actor cfg ops env hA with ⟨A0, hA0, hl⟩ |
      ⟨r, bundle, agent, ip, rfl, hid, hc, hl⟩ | ⟨w, r, z, rfl, hn, hz, hzx, hl⟩
    · exact hx A0 hA0 hl
    · simp only [Section.bundleUnused, hc, decide_eq_true_eq] at hu
      have hg : g ∈ (newActor st r bundle).gpuIds := hl.gpuIds ▸ hgA
      rcases exec_actor cfg ops env hB with ⟨B0, hB0, hlB0⟩ | ⟨r', _, _, _, he, hid', -⟩ |
        ⟨_, _, _, he, -⟩
      · refine hu B0 (Table.mem_values.mpr ⟨y, hB0⟩) g hg ⟨hlB0.live hlB, ?_, ?_⟩
        · rw [← hlB0.agent, ← hag, hl.agent]
          rfl
        · exact hlB0.gpuIds ▸ hgB
      · cases he
        exact hne (hid.symm.trans hid')
      · cases he
    · have hzad : z ∈ adoptions st r := by
        simp only [adoptions, List.mem_filter, Bool.not_eq_true', Table.has_eq_false]
        exact ⟨hz, hzx ▸ hn⟩
      simp only [Section.disjointReport, decide_eq_true_eq] at hd
      have hg : g ∈ (adoptedActor r z).gpuIds := hl.gpuIds ▸ hgA
      have hagent : B.agent = r.agentId := by rw [← hag, hl.agent]; rfl
      rcases exec_actor cfg ops env hB with ⟨B0, hB0, hlB0⟩ | ⟨_, _, _, _, he, -⟩ |
        ⟨w', r', z', he, hn', hz', hzy, hl'⟩
      · have hres := register_live_resumed cfg ops env st w r hB hlB hagent
        refine (hd z hzad).2 y hres B0 hB0 g hg ⟨hlB0.live hlB, ?_, ?_⟩
        · rw [← hlB0.agent, hagent]
        · exact hlB0.gpuIds ▸ hgB
      · cases he
      · cases he
        have hzad' : z' ∈ adoptions st r := by
          simp only [adoptions, List.mem_filter, Bool.not_eq_true', Table.has_eq_false]
          exact ⟨hz', hzy ▸ hn'⟩
        have hg' : g ∈ (adoptedActor r z').gpuIds := hl'.gpuIds ▸ hgB
        exact (hd z hzad).1 z' hzad' (by rw [hzx, hzy]; exact hne) g hg hg'
  intro x y A B hne hA hB hlA hlB hag
  by_cases hx : ∃ A0, st.actors.get x = some A0 ∧ A0.Later A
  · by_cases hy : ∃ B0, st.actors.get y = some B0 ∧ B0.Later B
    · obtain ⟨A0, hA0, hlA0⟩ := hx
      obtain ⟨B0, hB0, hlB0⟩ := hy
      rw [hlA0.gpuIds, hlB0.gpuIds]
      exact h x y A0 B0 hne hA0 hB0 (hlA0.live hlA) (hlB0.live hlB)
        (by rw [← hlA0.agent, hag, hlB0.agent])
    · exact (hnew y x B A hne.symm hB hA hlB hlA hag.symm fun B0 hB0 hl => hy ⟨B0, hB0, hl⟩).symm
  · exact hnew x y A B hne hA hB hlA hlB hag fun A0 hA0 hl => hx ⟨A0, hA0, hl⟩

/-- In every run that puts at most one live actor in a bundle, no two live actors share a
device. -/
theorem live_actors_disjoint {st : State}
    (h : (daemon cfg ops).Reach
      (fun st a => a.2.disjointReport st && a.2.bundleUnused st) st) :
    ∀ x y A B, x ≠ y → st.actors.get x = some A → st.actors.get y = some B →
      A.state.isDead = false → B.state.isDead = false → A.agent = B.agent →
      A.gpuIds.Disjoint B.gpuIds := by
  refine h.invariant (I := Exclusive) ?_ ?_
  · rintro st ⟨_, _, _, rfl⟩ x y A B - hA
    cases hA
  · intro st a st' hst hok hn
    obtain ⟨-, rfl⟩ := daemon_next cfg ops hn
    rw [Bool.and_eq_true] at hok
    exact hst.exec hok.1 hok.2

/-- One actor in each of two groups. -/
def twoActors : List (Env × Section) := twoGroups ++ [(Sample.at_ 6, Sample.actor "c" "p:2" "a:2")]

theorem live_actors_disjoint_twoActors :
    ∃ st, (daemon Sample.cfg Sample.ops).Reach
        (fun st a => a.2.disjointReport st && a.2.bundleUnused st) st ∧
      ∃ A B, st.actors.get "a:1" = some A ∧ st.actors.get "a:2" = some B ∧ A.Holds "ag" 0 ∧
        B.Holds "ag" 1 ∧ A.gpuIds.Disjoint B.gpuIds := by
  have hrun : ((daemon Sample.cfg Sample.ops).run
      (fun st a => a.2.disjointReport st && a.2.bundleUnused st) Sample.boot twoActors).any
        (fun st => (st.actors.get "a:1").any (fun A => decide (A.Holds "ag" 0)) &&
          (st.actors.get "a:2").any fun B => decide (B.Holds "ag" 1)) = true := by decide +kernel
  obtain ⟨st, hreach, hp⟩ := System.Reach.of_run hrun ⟨_, _, _, rfl⟩
  simp only [Bool.and_eq_true, Option.any_eq_true, decide_eq_true_eq] at hp
  obtain ⟨⟨A, hA, hA0⟩, B, hB, hB1⟩ := hp
  exact ⟨st, hreach, A, B, hA, hB, hA0, hB1, live_actors_disjoint hreach "a:1" "a:2" A B (by decide)
    hA hB hA0.1 hB1.1 (hA0.2.1.trans hB1.2.1.symm)⟩

/-- Two creations with different names and the same bundle. -/
def sharedBundle : List (Env × Section) := twoGroups ++ [(Sample.at_ 6, Sample.actor "c" "p:1" "a:2")]

/-- The second creation is accepted, and both actors have device 0. -/
theorem sharedBundle_shares_device :
    ∃ st, (daemon Sample.cfg Sample.ops).Reach (fun st a => a.2.disjointReport st) st ∧
      ∃ A B, st.actors.get "a:1" = some A ∧ st.actors.get "a:2" = some B ∧
        A.state.isDead = false ∧ B.state.isDead = false ∧ A.agent = B.agent ∧
        ¬ A.gpuIds.Disjoint B.gpuIds := by
  have hrun : ((daemon Sample.cfg Sample.ops).run (fun st a => a.2.disjointReport st)
      Sample.boot sharedBundle).any
        (fun st => (st.actors.get "a:1").any (fun A => decide (A.Holds "ag" 0)) &&
          (st.actors.get "a:2").any fun B => decide (B.Holds "ag" 0)) = true := by decide +kernel
  obtain ⟨st, hreach, hp⟩ := System.Reach.of_run hrun ⟨_, _, _, rfl⟩
  simp only [Bool.and_eq_true, Option.any_eq_true, decide_eq_true_eq] at hp
  obtain ⟨⟨A, hA, hA0⟩, B, hB, hB0⟩ := hp
  exact ⟨st, hreach, A, B, hA, hB, hA0.1, hB0.1,
    hA0.2.1.trans hB0.2.1.symm, fun hd => hd hA0.2.2 hB0.2.2⟩

end Mentat
