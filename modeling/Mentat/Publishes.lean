import Mentat.Snapshot
import Mentat.Stall

/-!
# What a section owes the snapshot

An agent's row in the snapshot shows which of its devices are free, and so it changes with the
placement groups and the actors too. Every section that changes a row re-emits it.

`Publishes st st'` is what a piece of a section owes: the events it adds keep to the layout, and they
lead from the agents `st` lists to those `st'` lists. It composes, so each function of the daemon
has one lemma and a section is put together from them. The one fact about the state it needs is that
a pending group holds nothing yet: placing it then frees no device.

Here are the rules for it, and the functions that every section shares: placing groups, and deaths.
-/

namespace Mentat

/-- A pending group has no bundle yet. -/
def Unplaced (st : State) : Prop := ∀ id pg, Pending st id pg → pg.placed = []

theorem Fewer.unplaced {st st' : State} (h : Fewer st st') (hu : Unplaced st) : Unplaced st' := by
  intro id pg' hp
  obtain ⟨pg, hpend, -, hpl⟩ := h id pg' hp
  rw [hpl]
  exact hu id pg hpend

/-- The events since `st` lead from the agents it lists to those that `st'` lists. -/
structure Publishes (st st' : State) : Prop where
  unplaced : Unplaced st → Unplaced st'
  events : Unplaced st → ∃ new, st'.events = st.events ++ new ∧
    (∀ e ∈ new, ∀ p ∈ e.patch, p.InPlace) ∧ new.foldl Event.on st.listed = st'.listed

/-- The patch keeps to the layout, and is about no agent. -/
structure Patch.Elsewhere (p : Patch) : Prop where
  inPlace : p.InPlace
  aside (g : String) (id : AgentId) : ¬ p.path <+: agentPath g id

/-- An agent's row without what the snapshot does not show of it. -/
def AgentInfo.shown (a : AgentInfo) : AgentInfo := { a with writer := 0, lostAtMs := none, seq := 0 }

section Patches

theorem agentPath_prefix {g g' : String} {id id' : AgentId} :
    agentPath g id <+: agentPath g' id' ↔ g' = g ∧ id' = id := by
  simp only [agentPath, List.cons_prefix_cons, List.prefix_refl, and_true, true_and]
  exact and_congr eq_comm eq_comm

/-- A row of a group's other tables. -/
theorem elsewhere_table {p : Patch} {g c id : String}
    (hc : c ∈ ["claims", "actors", "placement_groups"]) (hp : p.path = ["groups", g, c, id]) :
    p.Elsewhere where
  inPlace := by
    unfold Patch.InPlace
    rw [hp]
    exact inPlace_table (by simp at hc ⊢; tauto)
  aside g' id' := by
    rw [hp]
    simp only [agentPath, List.cons_prefix_cons, not_and]
    rintro - - rfl
    simp at hc

theorem elsewhere_row {p : Patch} {k id : String} (hk : k ∈ ["clients", "peers"])
    (hp : p.path = [k, id]) : p.Elsewhere where
  inPlace := by
    unfold Patch.InPlace
    rw [hp]
    exact inPlace_row hk
  aside g' id' := by
    rw [hp]
    simp only [agentPath, List.cons_prefix_cons, not_and]
    rintro rfl
    simp at hk

theorem elsewhere_field {p : Patch} {k : String}
    (hk : k ∈ ["head_node_id", "head_generation", "islands"]) (hp : p.path = [k]) : p.Elsewhere where
  inPlace := by
    unfold Patch.InPlace
    rw [hp]
    exact inPlace_field hk
  aside g' id' := by
    rw [hp]
    simp only [agentPath, List.cons_prefix_cons, not_and]
    rintro rfl
    simp at hk

variable {st : State}

theorem elsewhere_actorPatch {id : ActorId} {p : Patch} (h : p ∈ (actorPatch st id).toList) :
    p.Elsewhere := by
  obtain ⟨a, -, rfl⟩ := Option.map_eq_some_iff.mp (Option.mem_toList.mp h)
  exact elsewhere_table (by simp) rfl

theorem elsewhere_pgPatch {id : PgId} {p : Patch} (h : p ∈ (pgPatch st id).toList) :
    p.Elsewhere := by
  obtain ⟨pg, -, rfl⟩ := Option.map_eq_some_iff.mp (Option.mem_toList.mp h)
  exact elsewhere_table (by simp) rfl

theorem inPlace_agentPatch {id : AgentId} {p : Patch} (h : agentPatch st id = some p) : p.InPlace := by
  obtain ⟨a, -, rfl⟩ := Option.map_eq_some_iff.mp h
  exact inPlace_table (by simp)

open Classical in
/-- Row patches of agents list them as they are now, whatever else stands between them. -/
theorem foldl_on {ps : List Patch} (h : ∀ p ∈ ps, p.Elsewhere ∨ ∃ id, agentPatch st id = some p)
    (f : Listing) (g : String) (id : AgentId) :
    ps.foldl Patch.on f g id =
      if (∃ p ∈ ps, agentPatch st id = some p) ∧ (st.agents.get id).any (·.group == g) = true then
        st.listed g id
      else f g id := by
  induction ps generalizing f with
  | nil => simp
  | cons p ps ih =>
    rw [List.foldl_cons, ih fun q hq => h q (List.mem_cons_of_mem p hq)]
    by_cases hid : (∃ q ∈ ps, agentPatch st id = some q) ∧
        (st.agents.get id).any (·.group == g) = true
    · obtain ⟨⟨q, hq, hqp⟩, hany⟩ := hid
      rw [if_pos ⟨⟨q, hq, hqp⟩, hany⟩, if_pos ⟨⟨q, List.mem_cons_of_mem p hq, hqp⟩, hany⟩]
    · rw [if_neg hid]
      -- Only the first patch may be about this row.
      have hcond : ((∃ q ∈ p :: ps, agentPatch st id = some q) ∧
          (st.agents.get id).any (·.group == g) = true) ↔
          agentPatch st id = some p ∧ (st.agents.get id).any (·.group == g) = true := by
        refine and_congr_left fun hany => ?_
        simp only [List.exists_mem_cons_iff, or_iff_left_iff_imp]
        exact fun hq => absurd ⟨hq, hany⟩ hid
      rw [if_congr hcond rfl rfl]
      rcases h p List.mem_cons_self with hp | ⟨i, hp⟩
      · rw [if_neg]
        · exact if_neg (hp.aside g id)
        · rintro ⟨hpatch, -⟩
          obtain ⟨a, -, rfl⟩ := Option.map_eq_some_iff.mp hpatch
          exact hp.aside a.group id List.prefix_rfl
      · obtain ⟨a, ha, rfl⟩ := Option.map_eq_some_iff.mp hp
        simp only [Patch.on, Patch.path, agentPath_prefix, Patch.value]
        by_cases hi : g = a.group ∧ id = i
        · obtain ⟨rfl, rfl⟩ := hi
          simp [agentPatch, ha, State.listed]
        · rw [if_neg hi, if_neg]
          rintro ⟨hpatch, hany⟩
          obtain ⟨b, hb, he⟩ := Option.map_eq_some_iff.mp hpatch
          simp only [Patch.set.injEq, agentPath, List.cons.injEq, true_and, and_true] at he
          obtain ⟨⟨hg, rfl⟩, -⟩ := he
          have hbg : b.group = g := by simpa [hb] using hany
          exact hi ⟨hbg ▸ hg, rfl⟩

end Patches

/-! ## What a row depends on -/

section Rows

variable {st st' : State}

/-- The free devices of an agent are settled by its machine and by what is held. -/
theorem freeGpusOf_congr {id : AgentId}
    (hm : (st'.agents.get id).map (·.machine) = (st.agents.get id).map (·.machine))
    (hheld : ∀ n, st'.Held id n ↔ st.Held id n) : st'.freeGpusOf id = st.freeGpusOf id := by
  cases ha : st.agents.get id with
  | none =>
    have ha' : st'.agents.get id = none := by simpa [ha] using hm
    simp [State.freeGpusOf, ha, ha']
  | some a =>
    rw [ha, Option.map_some, Option.map_eq_some_iff] at hm
    obtain ⟨a', ha', hm⟩ := hm
    obtain ⟨q, hq⟩ := State.freeGpusOf_filter ha
    obtain ⟨q', hq'⟩ := State.freeGpusOf_filter ha'
    have hmem : ∀ n, n ∈ st'.freeGpusOf id ↔ n ∈ st.freeGpusOf id := by
      intro n
      rw [freeGpusOf_iff_held ha', freeGpusOf_iff_held ha, hm, hheld]
    rw [hq, hq', hm] at hmem ⊢
    refine List.filter_congr fun n hn => ?_
    have := hmem n
    simp only [List.mem_filter, hn, true_and] at this
    exact Bool.eq_iff_iff.mpr this

theorem listed_congr {id : AgentId}
    (ha : (st'.agents.get id).map (·.shown) = (st.agents.get id).map (·.shown))
    (hheld : ∀ n, st'.Held id n ↔ st.Held id n) (g : String) : st'.listed g id = st.listed g id := by
  have hm : (st'.agents.get id).map (·.machine) = (st.agents.get id).map (·.machine) := by
    have := congrArg (Option.map AgentInfo.machine) ha
    rwa [Option.map_map, Option.map_map] at this
  have hfree := freeGpusOf_congr hm hheld
  -- The listing reads the row through `shown`.
  have hread : ∀ s : State, s.listed g id = ((s.agents.get id).map (·.shown)).bind fun a =>
      if a.group = g then some (.row (.agent { agentRow s id a with gpusFree := s.freeGpusOf id }))
      else none := by
    intro s
    unfold State.listed
    cases s.agents.get id with
    | none => rfl
    | some a => by_cases hg : a.group = g <;> simp [hg, AgentInfo.shown, agentRow]
  rw [hread, hread, ha, hfree]
  rfl

/-- Nothing is listed otherwise where neither an agent nor a device held has changed. -/
theorem listed_of_held (ha : st'.agents = st.agents) (hheld : ∀ a n, st'.Held a n ↔ st.Held a n) :
    st'.listed = st.listed := by
  funext g id
  exact listed_congr (by rw [ha]) (hheld id) g

end Rows

/-! ## Pieces of a section -/

namespace Publishes

variable {st st' st'' : State} {kind why : String} {patch : List Patch}

theorem refl (st : State) : Publishes st st := ⟨id, fun _ => ⟨[], by simp, by simp, rfl⟩⟩

theorem trans (h : Publishes st st') (h' : Publishes st' st'') : Publishes st st'' where
  unplaced hu := h'.unplaced (h.unplaced hu)
  events hu := by
    obtain ⟨new, he, hin, hl⟩ := h.events hu
    obtain ⟨new', he', hin', hl'⟩ := h'.events (h.unplaced hu)
    refine ⟨new ++ new', by rw [he', he, List.append_assoc], fun e hmem => ?_, ?_⟩
    · rcases List.mem_append.mp hmem with hmem | hmem
      · exact hin e hmem
      · exact hin' e hmem
    · rw [List.foldl_append, hl, hl']

/-- A change, and the events that patch the rows of agents. No other row changes. -/
theorem intro (new : List Event) (hu : Unplaced st → Unplaced st')
    (he : st'.events = st.events ++ new)
    (hpatch : ∀ e ∈ new, ∀ p ∈ e.patch, p.Elsewhere ∨ ∃ id, agentPatch st' id = some p)
    (hgroup : ∀ id a, st.agents.get id = some a → ∃ a', st'.agents.get id = some a' ∧
      a'.group = a.group)
    (hsame : ∀ id, (∀ e ∈ new, ∀ p ∈ e.patch, agentPatch st' id ≠ some p) →
      ∀ g, st'.listed g id = st.listed g id) : Publishes st st' where
  unplaced := hu
  events _ := by
    have hfold : new.foldl Event.on st.listed = (new.flatMap (·.patch)).foldl Patch.on st.listed := by
      rw [List.foldl_flatMap]
      rfl
    refine ⟨new, he, fun e hmem p hp => ?_, ?_⟩
    · rcases hpatch e hmem p hp with hp | ⟨id, hp⟩
      · exact hp.inPlace
      · exact inPlace_agentPatch hp
    · rw [hfold]
      funext g id
      rw [@foldl_on st' _ (fun p hp => ?_)]
      · split
        · rfl
        · next hno =>
          by_cases hid : ∃ p ∈ new.flatMap (·.patch), agentPatch st' id = some p
          · -- The agent is not in the group, and was not before.
            have hnone : ∀ s : State, (s.agents.get id).any (·.group == g) = false →
                s.listed g id = none := by
              intro s hs
              cases ha : s.agents.get id with
              | none => simp [State.listed, ha]
              | some a => simp_all [State.listed]
            have h1 : (st'.agents.get id).any (·.group == g) = false :=
              Bool.eq_false_iff.mpr fun hany => hno ⟨hid, hany⟩
            rw [hnone st' h1, hnone st]
            cases ha : st.agents.get id with
            | none => rfl
            | some a =>
              obtain ⟨a', ha', hg⟩ := hgroup id a ha
              simpa [ha', hg] using h1
          · refine (hsame id (fun e he p hp hid' => hid ⟨p, ?_, hid'⟩) g).symm
            exact List.mem_flatMap.mpr ⟨e, he, hp⟩
      · obtain ⟨e, hmem, hp⟩ := List.mem_flatMap.mp hp
        exact hpatch e hmem p hp

/-- Without an event, nothing listed may change. -/
theorem silent (st' : State) (hf : Fewer st st') (he : st'.events = st.events)
    (hl : st'.listed = st.listed) : Publishes st st' :=
  ⟨hf.unplaced, fun _ => ⟨[], by simp [he], by simp, hl.symm⟩⟩

/-- A change, and one event with the rows of the agents `ids`. -/
theorem emit (st1 : State) (ids : List AgentId) (hf : Fewer st st1)
    (he : st1.events = st.events)
    (hpatch : ∀ p ∈ patch, p.Elsewhere ∨ ∃ id, agentPatch st1 id = some p)
    (hids : ∀ id ∈ ids, ∀ p, agentPatch st1 id = some p → p ∈ patch)
    (hgroup : ∀ id a, st.agents.get id = some a → ∃ a', st1.agents.get id = some a' ∧
      a'.group = a.group)
    (hsame : ∀ id, id ∉ ids → ∀ g, st1.listed g id = st.listed g id) :
    Publishes st (st1.emitPatch kind patch why) := by
  refine intro [⟨kind, patch, why⟩] (hf.trans (.of_eq rfl)).unplaced
    (by simp [State.emitPatch, he]) (fun e hmem p hp => ?_) hgroup fun id hno g => ?_
  · rw [List.mem_singleton.mp hmem] at hp
    exact hpatch p hp
  · have hno : ∀ p ∈ patch, agentPatch st1 id ≠ some p := hno _ List.mem_cons_self
    by_cases hid : id ∈ ids
    · -- An agent without a patch has no row, neither now nor before.
      have h1 : st1.agents.get id = none := by
        cases ha : st1.agents.get id with
        | none => rfl
        | some a =>
          have hp : agentPatch st1 id = some (.set (agentPath a.group id) (.agent (agentRow st1 id a))) := by
            simp [agentPatch, ha]
          exact absurd hp (hno _ (hids id hid _ hp))
      have h0 : st.agents.get id = none := by
        cases ha : st.agents.get id with
        | none => rfl
        | some a =>
          obtain ⟨a', ha', -⟩ := hgroup id a ha
          rw [h1] at ha'
          cases ha'
      have hlist : st1.listed g id = st.listed g id := by simp [State.listed, h0, h1]
      exact hlist
    · exact hsame id hid g

/-- A change that shows in no agent's row, and an event about something else. -/
theorem note (st1 : State) (hf : Fewer st st1) (he : st1.events = st.events)
    (hp : ∀ p ∈ patch, p.Elsewhere) (hl : st1.listed = st.listed) :
    Publishes st (st1.emitPatch kind patch why) :=
  (silent st1 hf he hl).trans (emit st1 [] (.refl st1) rfl (fun p h => .inl (hp p h)) (by simp)
    (fun _ a ha => ⟨a, ha, rfl⟩) fun _ _ _ => rfl)

theorem of_unplaced (h : Unplaced st → Publishes st st') : Publishes st st' :=
  ⟨fun hu => (h hu).unplaced hu, fun hu => (h hu).events hu⟩

variable {cfg : Cfg} {ops : ClaimOps} {env : Env}

theorem setPendingReason (id : PgId) (why : String) :
    Publishes st (setPendingReason st id why) := by
  have hheld : ∀ a g, (Mentat.setPendingReason st id why).Held a g ↔ st.Held a g :=
    setPendingReason_held id why
  unfold Mentat.setPendingReason at hheld ⊢
  split
  · exact .refl st
  · next pg hpg =>
    split
    · exact .refl st
    · next hwhy =>
      simp only [hpg, hwhy, if_false] at hheld
      exact note _ (.of_modify rfl fun _ hp => ⟨hp, rfl, rfl⟩) rfl
        (fun p hp => elsewhere_pgPatch hp) (listed_of_held rfl hheld)

theorem mem_agentPatches {id : PgId} {pg : PgInfo} (h : st.pgs.get id = some pg) {p : Patch} :
    p ∈ agentPatches st id ↔ ∃ a ∈ pg.placed.map (·.agent), agentPatch st a = some p := by
  simp only [agentPatches, h, List.mem_filterMap, mem_sortDedup]

/-- A pending group holds nothing, so its turn changes the rows of the agents it goes to. -/
theorem placeGroup {id : PgId} {pg : PgInfo} (hp : Pending st id pg) :
    Publishes st (placeGroup cfg ops st id) := by
  refine of_unplaced fun hu => ?_
  unfold Mentat.placeGroup
  rw [hp.1]
  simp only
  split
  · next why _ => exact setPendingReason id why
  · next island assignment _ =>
    let placed (pg : PgInfo) : PgInfo :=
      { pg with assignment, state := .created, island, pendingReason := none }
    let st1 : State := { st with pgs := st.pgs.modify id placed }
    have hget : st1.pgs.get id = some (placed pg) := by
      simp only [st1, Table.get_modify_self, hp.1, Option.map_some]
    refine emit st1 ((placed pg).placed.map (·.agent))
      (.of_modify rfl fun _ hs => by cases hs) rfl (fun p hp => ?_)
      (fun a ha p hp => List.mem_append_right _ ((mem_agentPatches hget).mpr ⟨a, ha, hp⟩))
      (fun _ a ha => ⟨a, ha, rfl⟩) fun a ha => ?_
    · refine (List.mem_append.mp hp).imp elsewhere_pgPatch fun hp => ?_
      obtain ⟨a, -, hp⟩ := (mem_agentPatches hget).mp hp
      exact ⟨a, hp⟩
    have hheld : ∀ n, st1.Held a n ↔ st.Held a n := by
      refine fun n => State.held_iff_of_map
        (show st1.pgs = st.pgs.map fun k p => if k = id then placed p else p from rfl) rfl
        fun k p hk => ?_
      split
      · next hid =>
        subst hid
        cases hp.1.symm.trans hk
        refine iff_of_false ?_ (not_holds_of_unplaced (hu k pg hp))
        rintro ⟨-, b, hb, rfl, -⟩
        exact ha (List.mem_map_of_mem hb)
      · rfl
    exact listed_congr rfl hheld

theorem tryPlace (env : Env) : Publishes st (tryPlace cfg ops env st) := by
  have hfold : ∀ (ids : List PgId) (s : State), ids.Nodup → (∀ id ∈ ids, ∃ pg, Pending s id pg) →
      Publishes s (ids.foldl (Mentat.placeGroup cfg ops) s) := by
    intro ids
    induction ids with
    | nil => exact fun s _ _ => .refl s
    | cons id ids ih =>
      intro s hnd hids
      obtain ⟨hid, hnd⟩ := List.nodup_cons.mp hnd
      obtain ⟨pg, hp⟩ := hids id List.mem_cons_self
      refine (placeGroup hp).trans (ih _ hnd fun k hk => ?_)
      obtain ⟨q, hq⟩ := hids k (List.mem_cons_of_mem id hk)
      have hne : k ≠ id := fun he => hid (he ▸ hk)
      exact ⟨q, (placeGroup_get_ne hne).trans hq.1, hq.2⟩
  refine hfold _ st (env.select_nodup _ _) fun id hid => ?_
  obtain ⟨pg, hget, hst⟩ := Env.mem_select.mp hid
  exact ⟨pg, hget, beq_iff_eq.mp hst⟩

theorem fanOutDeath (x : ActorId) (reason : String) :
    Publishes st (fanOutDeath cfg ops env st x reason) := by
  have hrefs : Publishes st { st with refs := st.refs.map fun _ r => r.fail x reason } :=
    silent _ (.of_eq rfl) rfl rfl
  exact hrefs.trans (tryPlace env)

/-- A death frees devices of one agent, whose row goes with it. -/
theorem markActorDead (x : ActorId) (reason : String) :
    Publishes st (markActorDead cfg ops env st x reason) := by
  unfold Mentat.markActorDead
  split
  · exact fanOutDeath x reason
  · next actor hx =>
    split
    · exact .refl st
    · let st1 : State := { st with actors := st.actors.modify x (·.die reason env.now) }
      suffices hdead : Publishes st (st1.emitPatch "actor_dead"
          ((actorPatch st1 x).toList ++ (agentPatch st1 actor.agent).toList) reason) from
        hdead.trans (fanOutDeath x reason)
      refine emit st1 [actor.agent] (.of_eq rfl) rfl
        (fun p hp => (List.mem_append.mp hp).imp elsewhere_actorPatch fun hp => ⟨_, Option.mem_toList.mp hp⟩)
        (fun a ha p hp => ?_) (fun _ a ha => ⟨a, ha, rfl⟩) fun a ha => ?_
      · rw [List.mem_singleton.mp ha] at hp
        exact List.mem_append_right _ (Option.mem_toList.mpr hp)
      have hne : actor.agent ≠ a := fun he => ha (by simp [he])
      have hheld : ∀ n, st1.Held a n ↔ st.Held a n := by
        refine fun n => State.held_iff_of_actors_map (show st1.pgs = st.pgs from rfl)
          (show st1.actors = st.actors.map fun k y => if k = x then y.die reason env.now else y
            from rfl) fun k y hk => ?_
        split
        · next hid =>
          subst hid
          cases hx.symm.trans hk
          refine iff_of_false (fun hh => ?_) fun hh => hne hh.2.1
          unfold ActorInfo.die at hh
          split at hh
          · exact hne hh.2.1
          · exact hne hh.2.1
        · rfl
      exact listed_congr rfl hheld

theorem buryAll (ids : List ActorId) (reason : String) :
    Publishes st (buryAll cfg ops env st ids reason) :=
  buryAll_keeps cfg ops env st (I := Publishes st)
    (fun _ x why hs => hs.trans (markActorDead x why)) (.refl st) ids reason

theorem killActor (x : ActorId) : Publishes st (killActor cfg ops env st x) := by
  rcases killActor_cases cfg ops env st x with he | ⟨_, _, _, _, _, he⟩ | ⟨_, _, _, _, he⟩
  · rw [he]
    exact .refl st
  · rw [he]
    exact silent _ (.of_eq rfl) rfl rfl
  · rw [he]
    exact markActorDead x _

end Publishes

end Mentat
