import Mentat.Reports
import Mentat.Events

/-!
# Events reproduce the other tables

A consumer that holds a snapshot and applies every event after it is to hold the clients, and in each
group the claims, the actors and the placement groups, of a fresh snapshot. The daemon does not emit an
event for every change of them, and `Section.reported` says of which sections it does:

* a hello with a session is reported, and one without changes the clients' table in silence;
* a claim's first holder is reported, and a later one is not;
* the row of a connection without a session, or of one that a head change cut, goes in silence;
* the process id of an actor that is dead already is filled in, in silence;
* a claim, or a placement group, of a group with no agent and no actor in it is reported for a group that
  no snapshot lists. A group becomes one when its last agent and actor leave it.

* `events_reproduce_tables`: in runs whose steps are reported the consumer's tables are the snapshot's.
* `hello_unreported`: a connection without a session.
-/

namespace Mentat

namespace Reports

variable {st : State} {cfg : Cfg} {ops : ClaimOps} {env : Env}

/-! ## Clients -/

/-- A hello without a session changes no row when the row it would leave is there already. -/
theorem hello (w : FrameWriter) {h : Hello}
    (hh : h.session = true ∨ st.clients.get h.clientId = some (helloRow st h)) :
    Reports st (((hello env st w h).map (·.1)).getD st) := by
  unfold Mentat.hello
  split
  · exact .refl st
  let st1 : State := { st with clients := st.clients.set h.clientId (helloRow st h) }
  simp only [Option.map_some, Option.getD_some]
  split
  · have hrow : Reports st (st1.emitPatch "driver_connected"
        [.set ["clients", h.clientId] (.client (helloRow st h))] "") := by
      refine note st1 rfl (fun _ p hp => ?_) (fun s hno => ?_) fun _ _ => rfl
      · rw [List.mem_singleton.mp hp]
        refine .of_slot (s := .client h.clientId) rfl ?_ fun g hg => by cases hg
        simp [Patch.value, State.slot, st1]
      · cases s with
        | client id =>
          have hid : id ≠ h.clientId := by
            rintro rfl
            exact hno _ List.mem_cons_self List.prefix_rfl
          simp only [State.slot, st1, Table.get_set_of_ne hid]
        | _ => rfl
    exact hrow.trans (silent _ rfl rfl rfl)
  · next hs =>
    refine silent _ rfl (funext fun s => ?_) rfl
    cases s with
    | client id =>
      simp only [State.slot, Table.get_set]
      split
      · next hid => rw [hid, hh.resolve_left hs]
      · rfl
    | _ => rfl

theorem reapRow (client : ClientId) : Reports st (reapRow st client) := by
  refine note { st with clients := st.clients.erase client } rfl (fun _ p hp => ?_) (fun s hno => ?_)
    fun _ _ => rfl
  · rw [List.mem_singleton.mp hp]
    refine .of_slot (s := .client client) rfl ?_ fun g hg => by cases hg
    simp [Patch.value, State.slot]
  · cases s with
    | client id =>
      have hid : id ≠ client := by
        rintro rfl
        exact hno _ List.mem_cons_self List.prefix_rfl
      simp only [State.slot, Table.get_erase, if_neg hid]
    | _ => rfl

/-! ## Claims -/

/-- One claim's row changes or goes, and its event says so. -/
theorem noteClaim (st1 : State) (key : String × String) {kind why : String} {p : Patch}
    (he : st1.events = st.events) (hl : st.Rooted → st1.lists key.1 = true)
    (hp : p.path = claimPath key.1 key.2) (hv : p.value = st1.slot (.claim key.1 key.2))
    (hslot : ∀ s, s ≠ .claim key.1 key.2 → st1.slot s = st.slot s) (hlists : st1.lists = st.lists) :
    Reports st (st1.emitPatch kind [p] why) := by
  refine note st1 he (fun hr q hq => ?_) (fun s hno => hslot s ?_) fun g _ => by rw [hlists]
  · rw [List.mem_singleton.mp hq]
    refine .of_slot (s := .claim key.1 key.2) hp hv fun g hg => ?_
    cases hg
    exact hl hr
  · rintro rfl
    refine hno p List.mem_cons_self ?_
    rw [hp]
    exact List.prefix_rfl

theorem release (client : ClientId) (key : String × String) : Reports st (release st client key) := by
  unfold Mentat.release
  split
  · exact .refl st
  · next c hc =>
    have hlisted : st.Rooted → st.lists key.1 = true := fun hr => hr.claim hc
    have hne : ∀ {g name : String}, Slot.claim g name ≠ .claim key.1 key.2 → (g, name) ≠ key :=
      fun hs he => hs (by rw [← he])
    simp only
    split
    · refine noteClaim { st with claims := st.claims.erase key } key rfl hlisted rfl ?_ (fun s hs => ?_) rfl
      · simp [Patch.value, State.slot]
      · cases s with
        | claim g name => simp only [State.slot, Table.get_erase, if_neg (hne hs)]
        | _ => rfl
    · refine noteClaim { st with claims := st.claims.set key _ } key rfl hlisted rfl ?_ (fun s hs => ?_) rfl
      · simp [Patch.value, State.slot]
      · cases s with
        | claim g name => simp only [State.slot, Table.get_set_of_ne (hne hs)]
        | _ => rfl

theorem releaseAll (client : ClientId) : Reports st (releaseAll st client) :=
  List.foldlRecOn _ _ (.refl st) fun _ hs key _ => hs.trans (release client key)

end Reports

/-- A claim that changes no row, or that is the first on its name and in a group that is listed. -/
def claimReported (ops : ClaimOps) (st : State) (client : ClientId) (name : String) (shape : Value) : Bool :=
  name.toList.all isWhiteSpace || st.headNodeId != st.nodeId ||
    match st.claims.get (clientGroup st client, name) with
    | some c => decide (c.shape ≠ ops.canonical shape) || decide (client ∈ c.holders)
    | none => st.lists (clientGroup st client) ||
      ((ops.parse shape).toOption.bind fun req => (ops.solve st req).toOption).isNone

namespace Reports

variable {st : State} {cfg : Cfg} {ops : ClaimOps} {env : Env}

theorem claim {client : ClientId} {name : String} {shape : Value}
    (h : claimReported ops st client name shape = true) : Reports st (claim ops st client name shape).1 := by
  unfold claimReported at h
  simp only [Bool.or_eq_true, bne_iff_ne] at h
  unfold Mentat.claim
  simp only
  split
  · exact .refl st
  · next hname =>
    split
    · exact .refl st
    · next hhead =>
      replace h := h.resolve_left fun h => h.elim hname hhead
      split
      · next c hc =>
        split
        · exact .refl st
        · next hshape =>
          simp only [hc, Bool.or_eq_true, decide_eq_true_eq] at h
          have hin := h.resolve_left hshape
          refine silent _ rfl (funext fun s => ?_) rfl
          cases s with
          | claim g n =>
            simp only [State.slot, Table.get_modify]
            split
            · next hk => rw [hk, hc, Option.map_some, Finset.insert_eq_of_mem hin]
            · rfl
          | _ => rfl
      · next hc =>
        simp only [hc, Bool.or_eq_true] at h
        split
        · exact .refl st
        · next req hreq =>
          split
          · exact .refl st
          · next view hview =>
            have hlisted := h.resolve_right (by simp [hreq, hview, Except.toOption])
            refine noteClaim { st with
              claimGeneration := st.claimGeneration + 1
              claims := st.claims.set (clientGroup st client, name) _ } (clientGroup st client, name) rfl
              (fun _ => hlisted) rfl ?_ (fun s hs => ?_) rfl
            · simp [Patch.value, State.slot]
            · cases s with
              | claim g n =>
                have hne : (g, n) ≠ (clientGroup st client, name) := by
                  rintro ⟨⟩
                  exact hs rfl
                simp only [State.slot, Table.get_set_of_ne hne]
              | _ => rfl

/-! ## Placement groups and actors -/

/-- The new group is in a group that is listed. -/
theorem pgCreate {r : PgCreate} (hf : st.pgs.has r.pgId = false)
    (hl : st.lists (clientGroup st r.client) = true) : Reports st (pgCreate cfg ops env st r) := by
  let st1 : State := { st with pgs := st.pgs.set r.pgId (newPg env st r) }
  have hmem : .set (pgPath (newPg env st r).group r.pgId) (.pg (pgRow (newPg env st r))) ∈
      (pgPatch st1 r.pgId).toList := by
    rw [Option.mem_toList, pgPatch, Table.get_set_self]
    rfl
  have hcreated : Reports st (st1.emitPatch "pg_created" (pgPatch st1 r.pgId).toList "") := by
    refine note st1 rfl (fun _ p hp => ?_) (fun s hno => ?_) fun _ _ => rfl
    · refine .of_pgPatch (fun pg hpg => ?_) (Option.mem_toList.mp hp)
      rw [Table.get_set_self] at hpg
      cases hpg
      exact hl
    · cases s with
      | pg g k =>
        by_cases hk : k = r.pgId
        · subst hk
          have hne : (newPg env st r).group ≠ g := by
            rintro rfl
            exact hno _ hmem List.prefix_rfl
          rw [Table.has_eq_false] at hf
          simp only [State.slot, st1, Table.get_set_self, hf, Option.filter_some,
            beq_eq_false_iff_ne.mpr hne]
          rfl
        · simp only [State.slot, st1, Table.get_set_of_ne hk]
      | _ => rfl
  exact hcreated.trans (tryPlace env)

theorem pgRemove (id : PgId) : Reports st (pgRemove cfg ops env st id) := by
  let st1 : State := { st with pgs := st.pgs.modify id (·.remove env.now) }
  unfold Mentat.pgRemove
  simp only
  split
  · next p hp =>
    have hnote : Reports st (st1.emitPatch "pg_removed"
        ((pgPatch st1 id).toList ++ agentPatches st1 id) "") :=
      notePg (f := (·.remove env.now)) (fun _ => rfl) fun p hp => mem_agentPatches hp
    have hp : pgPatch st1 id = some p := hp
    rw [hp] at hnote
    exact hnote.trans (tryPlace env)
  · next hno =>
    have hnone : st.pgs.get id = none := by
      have hno : st1.pgs.get id = none := Option.map_eq_none_iff.mp hno
      simpa [st1] using hno
    rw [Table.modify_of_get_none hnone]
    exact tryPlace env

/-- A reap removes every group of its client, and tells of each. -/
theorem reapPgs (env : Env) (client : ClientId) : Reports st (emitReaped
    { st with pgs := st.pgs.map fun _ p => p.reap client env.now }
    (env.select st.pgs fun _ p => p.owner == client && p.state != .removed)) := by
  let st1 : State := { st with pgs := st.pgs.map fun _ p => p.reap client env.now }
  let ids := env.select st.pgs fun _ p => p.owner == client && p.state != .removed
  have heq : emitReaped st1 ids = { st1 with
      events := st1.events ++ ids.filterMap (Publishes.reapedEvent st1) } :=
    Publishes.emitReaped_eq st1 ids st1.events
  have hgroup : ∀ (k : PgId) (p : PgInfo), (p.reap client env.now).group = p.group := by
    intro k p
    unfold PgInfo.reap
    split <;> rfl
  suffices h : Reports st { st1 with events := st1.events ++ ids.filterMap (Publishes.reapedEvent st1) } by
    rw [← heq] at h
    exact h
  refine notes (ids.filterMap (Publishes.reapedEvent st1)) rfl (fun hr p hp => ?_) (fun s hno => ?_)
    fun _ _ => rfl
  · obtain ⟨e, he, hp⟩ := List.mem_flatMap.mp hp
    obtain ⟨id, -, he⟩ := List.mem_filterMap.mp he
    obtain ⟨q, hq, rfl⟩ := Option.map_eq_some_iff.mp he
    have htrue : p.True st1 := by
      rcases List.mem_cons.mp hp with rfl | hp
      · refine .of_pgPatch (fun pg hpg => ?_) hq
        rw [Table.get_map, Option.map_eq_some_iff] at hpg
        obtain ⟨pg, hpg, rfl⟩ := hpg
        rw [hgroup id]
        exact hr.pg hpg
      · exact (mem_agentPatches hp).elim fun _ => .of_agentPatch
    exact ⟨htrue.inPlace, htrue.rows, htrue.groups, htrue.within⟩
  · cases s with
    | pg g k =>
      refine pg_slot_map (f := fun _ p => p.reap client env.now) rfl hgroup fun p hp hg => ?_
      by_cases hreap : p.owner = client ∧ p.state ≠ .removed
      · have hid : k ∈ ids := Env.mem_select.mpr ⟨p, hp, by simp [hreap.1, bne_iff_ne.mpr hreap.2]⟩
        have hk : st1.pgs.get k = some (p.remove env.now) := by
          simp only [st1, Table.get_map, hp, Option.map_some, PgInfo.reap, if_pos hreap]
        subst hg
        have hevent : Publishes.reapedEvent st1 k = some ⟨"pg_removed", .set (pgPath p.group k)
            (.pg (pgRow (p.remove env.now))) :: agentPatches st1 k, "driver session closed"⟩ := by
          simp only [Publishes.reapedEvent, pgPatch, hk, Option.map_some]
          rfl
        refine absurd List.prefix_rfl (hno (.set (pgPath p.group k) (.pg (pgRow (p.remove env.now)))) ?_)
        exact List.mem_flatMap.mpr ⟨_, List.mem_filterMap.mpr ⟨k, hid, hevent⟩, List.mem_cons_self⟩
      · rw [PgInfo.reap, if_neg hreap]
    | _ => rfl

theorem reapTake (client : ClientId) (group : String) : Reports st (reapTake env st client group).1 := by
  have htimer : Reports st { st with reapPending := st.reapPending.erase client } := silent _ rfl rfl rfl
  have hreleased := htimer.trans (releaseAll client)
  unfold Mentat.reapTake
  simp only
  generalize Mentat.releaseAll { st with reapPending := st.reapPending.erase client } client = s
    at hreleased
  have hreaped := hreleased.trans (reapPgs env client)
  split
  · exact hreaped
  · exact hreaped.trans (note _ rfl (fun _ p hp => absurd hp List.not_mem_nil) (fun _ _ => rfl) fun _ _ => rfl)

theorem reapCheck (client : ClientId) (group : String) (token : Option Nat) :
    Reports st (reapCheck env st client group token).1 := by
  rcases reapCheck_cases env st client group token with ⟨-, he⟩ | ⟨-, -, he⟩ | ⟨-, -, he⟩
  · rw [he]
    exact .refl st
  · rw [he]
    exact silent _ rfl rfl rfl
  · rw [he]
    exact reapTake client group

/-- One row put in, at an id that had none in another group. -/
theorem tells_set {x : ActorId} {a : ActorInfo}
    (h : ∀ b, st.actors.get x = some b → b.group = a.group) :
    Tells [.set (actorPath a.group x) (.actor (actorRow a))] st
      { st with actors := st.actors.set x a } := by
  refine .of_true (fun p hp => ?_) (fun s hno => ?_) fun g hno => ?_
  · rw [List.mem_singleton.mp hp]
    have hset : actorPatch { st with actors := st.actors.set x a } x =
        some (.set (actorPath a.group x) (.actor (actorRow a))) := by
      rw [actorPatch, Table.get_set_self]
      rfl
    exact .of_actorPatch hset
  · cases s with
    | actor g k =>
      by_cases hk : k = x
      · subst hk
        have hne : a.group ≠ g := by
          rintro rfl
          exact hno _ List.mem_cons_self List.prefix_rfl
        simp only [State.slot, Table.get_set_self, Option.filter_some, beq_eq_false_iff_ne.mpr hne]
        cases hb : st.actors.get k with
        | none => rfl
        | some b =>
          rw [Option.filter_some, h b hb, beq_eq_false_iff_ne.mpr hne]
          rfl
      · simp only [State.slot, Table.get_set_of_ne hk]
    | _ => rfl
  · have hne : a.group ≠ g := by
      rintro rfl
      exact hno _ List.mem_cons_self (Slot.group_prefix (s := .actor _ x).mpr rfl)
    rw [Bool.eq_iff_iff, State.lists_iff, State.lists_iff]
    refine or_congr_right (exists_congr fun k => exists_congr fun b => ?_)
    by_cases hk : k = x
    · subst hk
      rw [Table.get_set_self]
      constructor
      · rintro ⟨⟨⟩, he⟩
        exact absurd he hne
      · rintro ⟨hb, rfl⟩
        exact absurd (h b hb).symm hne
    · rw [Table.get_set_of_ne hk]

/-- The new actor's group is listed from now on, if it was not before. -/
theorem createActor {r : ActorCreate} (hf : st.actors.has r.actorId = false) :
    Reports st (createActor cfg ops env st r).1 := by
  rw [Table.has_eq_false] at hf
  unfold Mentat.createActor
  split
  · exact .refl st
  · next bundle agent ip hc =>
    have hput : Reports st (putSpawning st r bundle) := by
      let st1 : State := { st with actors := st.actors.set r.actorId (newActor st r bundle) }
      refine emit st1 rfl (fun hr => hr.of_actors fun k a ha => ?_) fun _ => ?_
      · have hk : k ≠ r.actorId := by
          rintro rfl
          rw [hf] at ha
          cases ha
        exact ⟨a, (Table.get_set_of_ne hk).trans ha, rfl⟩
      · rw [actorPatch, Table.get_set_self]
        exact tells_set fun b hb => by rw [hf] at hb; cases hb
    simp only
    split
    · exact hput.trans (silent _ rfl rfl rfl)
    · exact hput.trans (markActorDead _ _)

/-- A held call shows in no row. -/
theorem actorCall (r : ActorCall) : Reports st (actorCall env st r).1 := by
  have hframe : (Mentat.actorCall env st r).1.events = st.events ∧
      ((Mentat.actorCall env st r).1.actors = st.actors ∨
        ∃ call, (Mentat.actorCall env st r).1.actors = st.actors.modify r.actorId fun a =>
          { a with queuedCalls := a.queuedCalls ++ [call] }) := by
    unfold Mentat.actorCall
    simp only
    split
    · exact ⟨rfl, .inl rfl⟩
    · split
      · exact ⟨rfl, .inl rfl⟩
      · split
        · split
          · exact ⟨rfl, .inl rfl⟩
          · exact ⟨rfl, .inr ⟨_, rfl⟩⟩
        · split
          · exact ⟨rfl, .inr ⟨_, rfl⟩⟩
          · exact ⟨rfl, .inl rfl⟩
  have hquiet := actorCall_quiet env st r
  have hclients : (Mentat.actorCall env st r).1.clients = st.clients := (congrArg State.clients hquiet :)
  have hrow : ∃ f : ActorId → ActorInfo → ActorInfo, (Mentat.actorCall env st r).1.actors =
      st.actors.map f ∧ ∀ k a, (f k a).group = a.group ∧ actorRow (f k a) = actorRow a := by
    rcases hframe.2 with h | ⟨call, h⟩
    · exact ⟨fun _ a => a, h.trans (Table.map_id _).symm, fun _ _ => ⟨rfl, rfl⟩⟩
    · refine ⟨_, h, fun k a => ?_⟩
      split
      · exact ⟨rfl, rfl⟩
      · exact ⟨rfl, rfl⟩
  obtain ⟨f, hf, hsame⟩ := hrow
  refine silent _ hframe.1 (funext fun s => ?_) (lists_actors_map hquiet.agents hf fun k a => (hsame k a).1)
  cases s with
  | client id => simp only [State.slot, hclients]
  | actor g k => exact actor_slot_map hf (fun k a => (hsame k a).1) fun a _ _ => (hsame k a).2
  | pg g k => simp only [State.slot, actorCall_pgs env st r]
  | claim g name => simp only [State.slot, hquiet.claims]

end Reports

/-! ## Agents -/

/-- Another agent, or an actor, is in the group. -/
def State.listsBeside (st : State) (id : AgentId) (g : String) : Bool :=
  st.agents.rows.any (fun r => r.1 != id && r.2.group == g) || st.actors.values.any (·.group == g)

/-- A failed spawn names no other process id for an actor that is dead already. -/
def frameReported (st : State) : FromAgent → Bool
  | .spawnResult x ok _ pid =>
    ok || pid == 0 || (st.actors.get x).all fun a => !a.state.isDead || a.pid == some pid
  | _ => true

namespace Reports

variable {st : State} {cfg : Cfg} {ops : ClaimOps} {env : Env}

/-- An agent leaves no group that is empty without it. -/
theorem insertAgent {w : FrameWriter} {r : AgentRegister}
    (hg : (st.agents.get r.agentId).all (fun a => a.group == r.group || st.listsBeside r.agentId a.group) =
      true) : Reports st (insertAgent st w r) := by
  let st1 : State := { st with
    nextSeq := st.nextSeq + 1
    agents := st.agents.set r.agentId (agentOfRegister r w st.nextSeq) }
  have hmem : .set (agentPath r.group r.agentId) (.agent (agentRow st1 r.agentId
      (agentOfRegister r w st.nextSeq))) ∈ (agentPatch st1 r.agentId).toList := by
    rw [Option.mem_toList, agentPatch, Table.get_set_self]
    rfl
  refine note st1 rfl (fun _ p hp => .of_agentPatch (Option.mem_toList.mp hp)) (fun _ _ => rfl)
    fun g hno => ?_
  have hne : g ≠ r.group := by
    rintro rfl
    refine hno _ hmem ?_
    simp [Patch.path, agentPath]
  rw [Bool.eq_iff_iff, State.lists_iff, State.lists_iff]
  constructor
  · rintro (⟨id, a, ha, rfl⟩ | hactor)
    · rcases Table.get_set_some ha with ⟨-, rfl⟩ | ⟨-, ha⟩
      · exact absurd rfl hne
      · exact .inl ⟨id, a, ha, rfl⟩
    · exact .inr hactor
  · rintro (⟨id, a, ha, rfl⟩ | hactor)
    · by_cases hid : id = r.agentId
      · subst hid
        simp only [ha, Option.all_some, beq_eq_false_iff_ne.mpr hne, Bool.false_or, State.listsBeside,
          Bool.or_eq_true, List.any_eq_true, Bool.and_eq_true, bne_iff_ne, beq_iff_eq] at hg
        rcases hg with ⟨⟨id', a'⟩, hrow, hid', hg'⟩ | ⟨a', ha', hg'⟩
        · exact .inl ⟨id', a', (Table.get_set_of_ne hid').trans (Table.mem_rows.mp hrow), hg'⟩
        · obtain ⟨k, hk⟩ := Table.mem_values.mp ha'
          exact .inr ⟨k, a', hk, hg'⟩
      · exact .inl ⟨id, a, (Table.get_set_of_ne hid).trans ha, rfl⟩
    · exact .inr hactor

/-- The adopted rows are told one by one, as they are put in. -/
theorem tells_adopted (r : AgentRegister) {l : List ResumeActor}
    (h : ∀ x ∈ l, ∀ b, st.actors.get x.actorId = some b → b.group = r.group) :
    Tells (l.map fun x => .set (actorPath r.group x.actorId) (.actor (actorRow (adoptedActor r x)))) st
      { st with actors := l.foldl (fun t x => t.set x.actorId (adoptedActor r x)) st.actors } := by
  induction l generalizing st with
  | nil => exact ⟨by simp, fun _ => rfl, fun _ => rfl⟩
  | cons x l ih =>
    let st1 : State := { st with actors := st.actors.set x.actorId (adoptedActor r x) }
    have hrest := @ih st1 fun y hy b hb => by
      rcases Table.get_set_some hb with ⟨-, rfl⟩ | ⟨-, hb⟩
      · rfl
      · exact h y (List.mem_cons_of_mem x hy) b hb
    exact (tells_set (a := adoptedActor r x) (h x List.mem_cons_self)).append hrest

theorem adoptActors (r : AgentRegister) : Reports st (adoptActors st r) := by
  let st1 : State := { st with actors := adoptTable st r }
  unfold Mentat.adoptActors
  simp only
  split
  · next hnone =>
    have hsame : adoptTable st r = st.actors := by
      rw [adoptTable, List.isEmpty_iff.mp hnone]
      rfl
    rw [hsame]
    exact .refl st
  · have htold : Tells ((adoptions st r).map fun x =>
        .set (actorPath r.group x.actorId) (.actor (actorRow (adoptedActor r x)))) st st1 := by
      refine tells_adopted r fun x hx b hb => ?_
      simp only [adoptions, List.mem_filter, Bool.not_eq_true', Table.has_eq_false] at hx
      rw [hx.2] at hb
      cases hb
    have hagent : Tells (agentPatch st1 r.agentId).toList st1 st1 :=
      .of_true (fun p hp => .of_agentPatch (Option.mem_toList.mp hp)) (fun _ _ => rfl) fun _ _ => rfl
    refine emit st1 rfl (fun hr => hr.of_actors fun k a ha => ?_) fun _ => htold.append hagent
    exact ⟨a, adoptTable_known st r ha, rfl⟩

theorem drainHeld (w : FrameWriter) (id : AgentId) : Reports st (drainHeld env st w id) := by
  have hsame : ∀ (k : ActorId) (a : ActorInfo),
      (if a.agent = id ∧ a.state.isDead = false then { a with queuedCalls := [] } else a).group = a.group ∧
      actorRow (if a.agent = id ∧ a.state.isDead = false then { a with queuedCalls := [] } else a) =
        actorRow a := by
    intro k a
    split <;> exact ⟨rfl, rfl⟩
  refine silent _ rfl (funext fun s => ?_) (lists_actors_map rfl rfl fun k a => (hsame k a).1)
  cases s with
  | actor g k => exact actor_slot_map rfl (fun k a => (hsame k a).1) fun a _ _ => (hsame k a).2
  | _ => rfl

theorem register {w : FrameWriter} {r : AgentRegister}
    (hg : (st.agents.get r.agentId).all (fun a => a.group == r.group || st.listsBeside r.agentId a.group) =
      true) : Reports st (register cfg ops env st w r) := by
  obtain ⟨refs, n, hrefs⟩ := adoptRefs_frame env (Mentat.adoptActors (Mentat.insertAgent st w r) r) r
  have hadopt : Reports st (adoptRefs env (Mentat.adoptActors (Mentat.insertAgent st w r) r) r) := by
    rw [hrefs]
    exact ((insertAgent hg).trans (adoptActors r)).trans (silent _ rfl rfl rfl)
  have hbury : Reports st (buryMissing cfg ops env
      (adoptRefs env (Mentat.adoptActors (Mentat.insertAgent st w r) r) r) r) :=
    hadopt.trans (buryAll _ _)
  have hreply : Reports st (repliedState cfg ops env st w r) := hbury.trans (silent _ rfl rfl rfl)
  rw [register_eq]
  exact (hreply.trans (drainHeld w r.agentId)).trans (tryPlace env)

/-- A failed spawn fills in the process id of an actor that is dead already, and no event tells. -/
theorem spawnResult {x : ActorId} {ok : Bool} (error : String) {pid : Nat}
    (h : (ok || pid == 0 || (st.actors.get x).all fun a => !a.state.isDead || a.pid == some pid) = true) :
    Reports st (spawnResult cfg ops env st x ok error pid) := by
  cases hx : st.actors.get x with
  | none =>
    have hnote : notePid st x pid = st := by
      unfold notePid
      rw [Table.modify_of_get_none hx, ite_self]
    unfold Mentat.spawnResult
    simp only [hnote, Table.modify_of_get_none hx]
    split
    · split
      · next p hp =>
        rw [actorPatch, hx] at hp
        cases hp
      · exact .refl st
    · exact markActorDead x _
  | some a =>
    let a1 : ActorInfo := if pid = 0 then a else { a with pid := some pid }
    have hgroup : a1.group = a.group := by
      simp only [a1, apply_ite ActorInfo.group, ite_self]
    have hstate : a1.state = a.state := by
      simp only [a1, apply_ite ActorInfo.state, ite_self]
    have hother : ∀ k, k ≠ x → (notePid st x pid).actors.get k = st.actors.get k := by
      intro k hk
      unfold notePid
      split
      · rfl
      · exact Table.get_modify_of_ne hk
    have hself : (notePid st x pid).actors.get x = some a1 := by
      unfold notePid
      split
      · next hpid => simp only [hx, a1, if_pos hpid]
      · next hpid => simp only [Table.get_modify_self, hx, Option.map_some, a1, if_neg hpid]
    obtain ⟨actors, hnote⟩ := notePid_frame st x pid
    rw [hnote] at hother hself
    simp only at hother hself
    unfold Mentat.spawnResult
    simp only [hnote]
    split
    · let f (a : ActorInfo) : ActorInfo := if a.state = .spawning then { a with state := .running } else a
      let st1 : State := { st with actors := actors.modify x f }
      have hget : st1.actors.get x = some (f a1) := by rw [Table.get_modify_self, hself, Option.map_some]
      have hrunning : Reports st (st1.emitPatch "actor_running" ((actorPatch st1 x).toList ++ []) "") := by
        refine noteActor (fun k hk => (Table.get_modify_of_ne hk).trans (hother k hk)) ?_
          fun p hp => absurd hp List.not_mem_nil
        rw [hx, hget, Option.map_some, Option.map_some, ← hgroup]
        simp only [f, apply_ite ActorInfo.group, ite_self]
      rw [actorPatch, hget]
      rw [actorPatch, hget] at hrunning
      exact hrunning
    · next hok =>
      by_cases hdead : a.state.isDead = true
      · -- The event would be that of the death, which has been.
        have hsame : a1 = a := by
          simp only [hok, hx, hdead, Bool.false_or, Option.all_some, Bool.not_true, Bool.or_eq_true,
            beq_iff_eq] at h
          rcases h with hpid | hpid
          · exact if_pos hpid
          · simp only [a1, ← hpid, ite_self]
        have hrows : ∀ k, actors.get k = st.actors.get k := by
          intro k
          by_cases hk : k = x
          · rw [hk, hself, hx, hsame]
          · exact hother k hk
        have hpids : Reports st { st with actors := actors } := by
          refine silent _ rfl (funext fun s => ?_) (State.lists_congr (fun _ => rfl) fun k =>
            congrArg _ (hrows k))
          cases s with
          | actor g k => simp only [State.slot, hrows k]
          | _ => rfl
        exact hpids.trans (markActorDead x _)
      · unfold Mentat.markActorDead
        simp only [hself, hstate, hdead, Bool.false_eq_true, if_false]
        refine (noteActor (fun k hk => (Table.get_modify_of_ne hk).trans (hother k hk)) ?_
          fun p hp => ⟨_, Option.mem_toList.mp hp⟩).trans (fanOutDeath x _)
        rw [Table.get_modify_self, hself, hx, Option.map_some, Option.map_some, Option.map_some, ← hgroup]
        unfold ActorInfo.die
        split <;> rfl

theorem serviceNote (id : AgentId) (service note : String) :
    Reports st (serviceNote st id service note) := by
  let st1 : State := { st with agents := st.agents.modify id fun a =>
    { a with services := a.services.modify service fun s => { s with note } } }
  have hlists : st1.lists = st.lists := by
    refine State.lists_congr (fun k => ?_) fun _ => rfl
    rw [Table.get_modify]
    split
    · rw [Option.map_map]
      exact Option.map_congr fun _ _ => rfl
    · rfl
  unfold Mentat.serviceNote
  simp only
  split
  · exact noteAgents st1 rfl (fun p hp => ⟨id, Option.mem_toList.mp hp⟩) rfl hlists
  · exact silent st1 rfl rfl hlists

theorem agentFrame (id : AgentId) {msg : FromAgent} (h : frameReported st msg = true) :
    Reports st (agentFrame cfg ops env st id msg) := by
  cases msg with
  | spawnResult x ok error pid => exact spawnResult error h
  | result ref ok error payload => exact silent _ rfl rfl rfl
  | exit x exitCode signal => exact markActorDead x _
  | serviceNote service note => exact serviceNote id service note

theorem agentEof (id : AgentId) (w : FrameWriter) : Reports st (agentEof cfg env st id w) := by
  let st1 : State := { st with agents := st.agents.modify id (·.lose env.now) }
  have hlists : st1.lists = st.lists := by
    refine State.lists_congr (fun k => ?_) fun _ => rfl
    rw [Table.get_modify]
    split
    · rw [Option.map_map]
      exact Option.map_congr fun _ _ => rfl
    · rfl
  unfold Mentat.agentEof
  split
  · exact noteAgents st1 rfl (fun p hp => ⟨id, Option.mem_toList.mp hp⟩) rfl hlists
  · exact .refl st

/-! ## The sweeper -/

theorem emitAgent (kind why : String) (id : AgentId) : Reports st (emitAgent st kind id why) := by
  unfold Mentat.emitAgent
  split
  · next p hp => exact noteAgents st rfl (fun q hq => ⟨id, List.mem_singleton.mp hq ▸ hp⟩) rfl rfl
  · exact .refl st

theorem timeOutPg (id : PgId) : Reports st (timeOutPg env st id) := by
  unfold Mentat.timeOutPg
  split
  · exact .refl st
  · simp only
    refine notePgAlone fun _ => ?_
    rfl

theorem timeOutPgs : Reports st (timeOutPgs cfg env st) := by
  have hwarn : Reports st { st with refs := st.refs.map fun _ r => r.warn cfg env.now } :=
    silent _ rfl rfl rfl
  exact List.foldlRecOn _ _ hwarn fun _ hs id _ => hs.trans (timeOutPg id)

theorem degradeLate : Reports st (degradeLate cfg env st) := by
  have hwindow : Reports st { st with agents := st.agents.map fun _ a => a.window cfg env.now } := by
    refine silent _ rfl rfl (State.lists_congr (fun k => ?_) fun _ => rfl)
    rw [Table.get_map, Option.map_map]
    exact Option.map_congr fun a _ => (window_later cfg env.now a).group
  exact List.foldlRecOn _ _ hwindow fun _ hs id _ => hs.trans (emitAgent _ _ id)

theorem sweepAgents : Reports st (sweepAgents cfg ops env st) := by
  unfold Mentat.sweepAgents
  exact List.foldlRecOn _ _ degradeLate fun _ hs id _ =>
    (hs.trans (emitAgent _ _ id)).trans (buryAll _ _)

/-- A row of the group that a filter loses. -/
theorem filter_lost {α : Type} {o : Option α} {gone : α → Bool} {group : α → String} {g : String}
    {row : α → Doc Row} (h : (((o.filter fun a => !gone a).filter (group · == g)).map row) ≠
      (o.filter (group · == g)).map row) : ∃ a, o = some a ∧ gone a = true ∧ group a = g := by
  cases o with
  | none => exact absurd rfl h
  | some a =>
    refine ⟨a, rfl, ?_, ?_⟩
    · by_contra hgone
      exact h (by rw [Option.filter_some_pos (by simpa using hgone)])
    · by_contra hg
      refine h ?_
      rw [Option.filter_some_neg (a := a) (p := (group · == g)) (by simpa using hg)]
      cases hgone : gone a <;> simp [hgone, hg]

/-- What the sweep of the history removes: the rows that go, and then each group that they leave. -/
theorem sweepHistory_rows (cfg : Cfg) (env : Env) (st : State) :
    Mentat.sweepHistory cfg env st = st ∨
    ∃ (rows : List Patch) (emptied : List String) (why : String), Mentat.sweepHistory cfg env st =
        (Publishes.sweptState cfg env st).emitPatch "history_swept"
          (rows ++ emptied.map fun g => .remove ["groups", g]) why ∧
      (∀ p ∈ rows, (∃ id a, st.agents.get id = some a ∧ p = .remove (agentPath a.group id)) ∨
        ∃ s, (st.slot s).isSome = true ∧ (Publishes.sweptState cfg env st).slot s = none ∧
          p = .remove s.path) ∧
      (∀ s, (Publishes.sweptState cfg env st).slot s ≠ st.slot s → .remove s.path ∈ rows) ∧
      ∀ g, g ∈ emptied ↔ st.lists g = true ∧ (Publishes.sweptState cfg env st).lists g = false := by
  have hactor : ∀ g k, (Publishes.sweptState cfg env st).slot (.actor g k) =
      (((st.actors.get k).filter fun a => !goneActor cfg env.now st a).filter (·.group == g)).map
        fun a => .row (.actor (actorRow a)) := by
    intro g k
    simp only [State.slot, Publishes.sweptState, Table.get_filter]
  have hpg : ∀ g k, (Publishes.sweptState cfg env st).slot (.pg g k) =
      (((st.pgs.get k).filter fun p => !gonePg cfg env.now st p).filter (·.group == g)).map
        fun p => .row (.pg (pgRow p)) := by
    intro g k
    simp only [State.slot, Publishes.sweptState, Table.get_filter]
  unfold Mentat.sweepHistory
  simp only
  split
  · exact .inl rfl
  · refine .inr ⟨_, _, _, rfl, fun p hp => ?_, fun s hs => ?_, fun g => ?_⟩
    · simp only [List.mem_append, List.mem_filterMap, Option.map_eq_some_iff] at hp
      rcases hp with (⟨id, hid, a, ha, rfl⟩ | ⟨id, hid, pg, hpg', rfl⟩) | ⟨id, -, a, ha, rfl⟩
      · obtain ⟨a', ha', hgone⟩ := Env.mem_select.mp hid
        cases ha.symm.trans ha'
        refine .inr ⟨.actor a.group id, ?_, ?_, rfl⟩
        · simp [State.slot, ha]
        · simp [hactor, ha, hgone]
      · obtain ⟨a', ha', hgone⟩ := Env.mem_select.mp hid
        cases hpg'.symm.trans ha'
        refine .inr ⟨.pg pg.group id, ?_, ?_, rfl⟩
        · simp [State.slot, hpg']
        · simp [hpg, hpg', hgone]
      · exact .inl ⟨id, a, ha, rfl⟩
    · cases s with
      | actor g k =>
        rw [hactor, State.slot] at hs
        obtain ⟨a, ha, hgone, rfl⟩ := filter_lost hs
        refine List.mem_append_left _ (List.mem_append_left _ (List.mem_filterMap.mpr ⟨k, ?_, ?_⟩))
        · exact Env.mem_select.mpr ⟨a, ha, hgone⟩
        · rw [ha]
          rfl
      | pg g k =>
        rw [hpg, State.slot] at hs
        obtain ⟨p, hp, hgone, rfl⟩ := filter_lost hs
        refine List.mem_append_left _ (List.mem_append_right _ (List.mem_filterMap.mpr ⟨k, ?_, ?_⟩))
        · exact Env.mem_select.mpr ⟨p, hp, hgone⟩
        · rw [hp]
          rfl
      | _ => exact absurd rfl hs
    · have hlists : (Publishes.sweptState cfg env st).lists g =
          ((st.agents.filter fun id a => !goneAgent cfg env.now st id a).values.any (·.group == g) ||
            (st.actors.filter fun _ a => !goneActor cfg env.now st a).values.any (·.group == g)) := rfl
      rw [mem_sortDedup, List.mem_filter, hlists]
      simp only [Bool.and_eq_true, Bool.not_eq_true', Bool.or_eq_false_iff]
      refine and_congr_left fun hno => ?_
      rw [List.mem_append, List.mem_filterMap, List.mem_filterMap, State.lists_iff, or_comm]
      refine or_congr ⟨?_, ?_⟩ ⟨?_, ?_⟩
      · rintro ⟨id, -, h⟩
        obtain ⟨a, ha, rfl⟩ := Option.map_eq_some_iff.mp h
        exact ⟨id, a, ha, rfl⟩
      · rintro ⟨id, a, ha, rfl⟩
        refine ⟨id, Env.mem_select.mpr ⟨a, ha, ?_⟩, by rw [ha]; rfl⟩
        by_contra hgone
        refine absurd hno.1 (ne_of_eq_of_ne (List.any_eq_true.mpr ⟨a, ?_, beq_self_eq_true _⟩) (by simp))
        refine Table.mem_values.mpr ⟨id, ?_⟩
        rw [Table.get_filter, ha, Option.filter_some_pos (by simpa using hgone)]
      · rintro ⟨id, -, h⟩
        obtain ⟨a, ha, rfl⟩ := Option.map_eq_some_iff.mp h
        exact ⟨id, a, ha, rfl⟩
      · rintro ⟨id, a, ha, rfl⟩
        refine ⟨id, Env.mem_select.mpr ⟨a, ha, ?_⟩, by rw [ha]; rfl⟩
        by_contra hgone
        refine absurd hno.2 (ne_of_eq_of_ne (List.any_eq_true.mpr ⟨a, ?_, beq_self_eq_true _⟩) (by simp))
        refine Table.mem_values.mpr ⟨id, ?_⟩
        rw [Table.get_filter, ha, Option.filter_some_pos (by simpa using hgone)]

open Classical in
theorem foldl_removes {ps : List Patch} (h : ∀ p ∈ ps, p.value = none) (s : Slot) (v : Option (Doc Row)) :
    ps.foldl (Patch.onSlot s) v = if ∃ p ∈ ps, p.path <+: s.path then none else v := by
  induction ps generalizing v with
  | nil => simp
  | cons p ps ih =>
    rw [List.foldl_cons, ih fun q hq => h q (List.mem_cons_of_mem p hq)]
    simp only [List.exists_mem_cons_iff, Patch.onSlot, h p List.mem_cons_self]
    by_cases hp : p.path <+: s.path <;> simp [hp]

/-- A removed row counts for a group that was there, and the groups removed last are gone. -/
theorem foldl_emptied {rows : List Patch} {g : String} {b : Bool}
    (hrows : ∀ p ∈ rows, ¬ p.path <+: ["groups", g] ∧ (["groups", g] <+: p.path → b = true))
    (emptied : List String) :
    (rows ++ emptied.map fun g => (Patch.remove ["groups", g])).foldl (Patch.onGroup g) b =
      (!decide (g ∈ emptied) && b) := by
  have hkept : rows.foldl (Patch.onGroup g) b = b := by
    refine List.foldlRecOn rows (Patch.onGroup g) (motive := fun c => c = b) rfl fun c hc p hp => ?_
    unfold Patch.onGroup
    rw [if_neg (hrows p hp).1]
    split
    · next hpre => exact ((hrows p hp).2 hpre).symm
    · exact hc
  rw [List.foldl_append, hkept]
  clear hrows hkept
  induction emptied generalizing b with
  | nil => simp
  | cons g' emptied ih =>
    rw [List.map_cons, List.foldl_cons, ih]
    by_cases hg : g' = g
    · subst hg
      simp [Patch.onGroup, Patch.path]
    · have hne : ¬ ["groups", g'] <+: ["groups", g] := by simp [List.cons_prefix_cons, hg]
      have hne' : ¬ ["groups", g] <+: ["groups", g'] := by simp [List.cons_prefix_cons, Ne.symm hg]
      simp [Patch.onGroup, Patch.path, hg, Ne.symm hg, List.cons_prefix_cons]

/-- A group is emptied with all its rows, unless it has a claim or a placement group that stays. -/
theorem sweepHistory (h : (Publishes.sweptState cfg env st).Rooted) :
    Reports st (sweepHistory cfg env st) := by
  rcases sweepHistory_rows cfg env st with he | ⟨rows, emptied, why, he, hrows, hlost, hemptied⟩
  · rw [he]
    exact .refl st
  rw [he]
  have hvalue : ∀ p ∈ rows ++ emptied.map fun g => (Patch.remove ["groups", g] : Patch), p.value = none := by
    intro p hp
    rcases List.mem_append.mp hp with hp | hp
    · rcases hrows p hp with ⟨id, a, -, rfl⟩ | ⟨s, -, -, rfl⟩ <;> rfl
    · obtain ⟨g, -, rfl⟩ := List.mem_map.mp hp
      rfl
  refine emit _ rfl (fun _ => h) fun hr => ⟨fun p hp => ?_, fun s => ?_, fun g => ?_⟩
  · rcases List.mem_append.mp hp with hp | hp
    · rcases hrows p hp with ⟨id, a, -, rfl⟩ | ⟨s, -, -, rfl⟩
      · exact inPlace_table (by simp)
      · exact s.inPlace none
    · obtain ⟨g, -, rfl⟩ := List.mem_map.mp hp
      exact inPlace_group
  · rw [foldl_removes hvalue]
    split
    · next hex =>
      obtain ⟨p, hp, hpre⟩ := hex
      rcases List.mem_append.mp hp with hp | hp
      · rcases hrows p hp with ⟨id, a, -, rfl⟩ | ⟨s', -, hs', rfl⟩
        · exact absurd hpre (Slot.agentPath_not_prefix a.group id s)
        · rw [← Slot.path_prefix.mp hpre, hs']
      · obtain ⟨g, hg, rfl⟩ := List.mem_map.mp hp
        have hno := ((hemptied g).mp hg).2
        cases hrow : (Publishes.sweptState cfg env st).slot s with
        | none => rfl
        | some d =>
          rw [h s g (Slot.group_prefix.mp hpre) (by rw [hrow]; rfl)] at hno
          cases hno
    · next hno =>
      by_contra hne
      exact hno ⟨_, List.mem_append_left _ (hlost s fun he => hne he.symm), List.prefix_rfl⟩
  · rw [foldl_emptied fun p hp => ⟨fun hpre => ?_, fun hpre => ?_⟩]
    · show _ = (Publishes.sweptState cfg env st).lists g
      rw [Bool.eq_iff_iff]
      simp only [Bool.and_eq_true, Bool.not_eq_true', decide_eq_false_iff_not, hemptied, not_and,
        Bool.not_eq_false]
      refine ⟨fun ⟨hkept, hl⟩ => hkept hl, fun hkept => ⟨fun _ => hkept, ?_⟩⟩
      rw [State.lists_iff] at hkept ⊢
      simp only [Publishes.sweptState, Table.get_filter, Option.filter_eq_some_iff] at hkept
      rcases hkept with ⟨id, a, ⟨ha, -⟩, hg⟩ | ⟨id, a, ⟨ha, -⟩, hg⟩
      · exact .inl ⟨id, a, ha, hg⟩
      · exact .inr ⟨id, a, ha, hg⟩
    · rcases hrows p hp with ⟨id, a, -, rfl⟩ | ⟨s, -, -, rfl⟩
      · simp [Patch.path, agentPath, List.cons_prefix_cons] at hpre
      · exact s.not_prefix_group g hpre
    · rcases hrows p hp with ⟨id, a, ha, rfl⟩ | ⟨s, hs, -, rfl⟩
      · have hg : g = a.group := by simpa [Patch.path, agentPath, List.cons_prefix_cons] using hpre
        exact State.lists_iff.mpr (.inl ⟨id, a, ha, hg.symm⟩)
      · exact hr s g (Slot.group_prefix.mp hpre) hs

end Reports

/-- The history sweep leaves the group an agent or an actor. -/
def keepsGroup (cfg : Cfg) (now : Nat) (st : State) (g : String) : Bool :=
  st.agents.rows.any (fun r => r.2.group == g && !goneAgent cfg now st r.1 r.2) ||
    st.actors.values.any fun a => a.group == g && !goneActor cfg now st a

/-- A group that a tick empties has no claim, and no placement group but those that go with it. -/
def sweptClean (cfg : Cfg) (now : Nat) (st : State) : Bool :=
  st.claims.keys.all (fun key => keepsGroup cfg now st key.1) &&
    st.pgs.values.all fun p => gonePg cfg now st p || keepsGroup cfg now st p.group

section Tick

variable {cfg : Cfg} {ops : ClaimOps} {env : Env} {st st' : State} {now : Nat}

/-- The rows of placement groups up to the history sweep: one that is removed stays as it is. -/
def Lasts (t t' : Table PgId PgInfo) : Prop :=
  ∀ k p', t'.get k = some p' → ∃ p, t.get k = some p ∧ p'.group = p.group ∧ p'.owner = p.owner ∧
    (p.state = .removed → p'.state = .removed ∧ p'.removedMs = p.removedMs)

/-- The rows of actors up to the history sweep: one may have died just now. -/
def Lives (now : Nat) (t t' : Table ActorId ActorInfo) : Prop :=
  ∀ k a, t.get k = some a → ∃ a', t'.get k = some a' ∧ a'.group = a.group ∧ a'.agent = a.agent ∧
    a'.owner = a.owner ∧ (a'.state = a.state ∨ ∃ r, a'.state = .dead r now)

namespace Lasts

variable {t t' t'' : Table PgId PgInfo}

theorem refl (t : Table PgId PgInfo) : Lasts t t := fun _ p hp => ⟨p, hp, rfl, rfl, fun hr => ⟨hr, rfl⟩⟩

theorem trans (h : Lasts t t') (h' : Lasts t' t'') : Lasts t t'' := by
  intro k p'' hp
  obtain ⟨p', hp', hg', ho', hr'⟩ := h' k p'' hp
  obtain ⟨p, hp, hg, ho, hr⟩ := h k p' hp'
  refine ⟨p, hp, hg'.trans hg, ho'.trans ho, fun hrem => ?_⟩
  obtain ⟨hst, hms⟩ := hr hrem
  obtain ⟨hst', hms'⟩ := hr' hst
  exact ⟨hst', hms'.trans hms⟩

/-- A row that was not removed may change. -/
theorem modify {k : PgId} {f : PgInfo → PgInfo} (h : Lasts t t')
    (hk : ∀ p, t.get k = some p → p.state ≠ .removed)
    (hf : ∀ p, (f p).group = p.group ∧ (f p).owner = p.owner) : Lasts t (t'.modify k f) := by
  intro j p' hp
  rw [Table.get_modify] at hp
  split at hp
  · next hj =>
    subst hj
    obtain ⟨q, hq, rfl⟩ := Option.map_eq_some_iff.mp hp
    obtain ⟨p, hp, hg, ho, -⟩ := h j q hq
    exact ⟨p, hp, (hf q).1.trans hg, (hf q).2.trans ho, fun hr => absurd hr (hk p hp)⟩
  · exact h j p' hp

theorem tryPlace (env : Env) (st : State) : Lasts st.pgs (tryPlace cfg ops env st).pgs := by
  refine List.foldlRecOn _ _ (motive := fun s : State => Lasts st.pgs s.pgs) (refl _) fun s hs id hid => ?_
  obtain ⟨q, hq, hpending⟩ := Env.mem_select.mp hid
  have hstate : ∀ p, st.pgs.get id = some p → p.state ≠ .removed := by
    intro p hp hr
    cases hq.symm.trans hp
    rw [hr] at hpending
    cases hpending
  rcases placeGroup_cases cfg ops s id with he | ⟨why, he⟩ | ⟨pg, island, asg, -, -, he⟩
  · rw [he]
    exact hs
  · rw [he]
    exact hs.modify hstate fun _ => ⟨rfl, rfl⟩
  · rw [he]
    exact hs.modify hstate fun _ => ⟨rfl, rfl⟩

theorem markActorDead (x : ActorId) (reason : String) :
    Lasts st.pgs (markActorDead cfg ops env st x reason).pgs := by
  unfold Mentat.markActorDead
  split
  · exact tryPlace env _
  · split
    · exact refl _
    · exact tryPlace env _

theorem timeOutPgs : Lasts st.pgs (timeOutPgs cfg env st).pgs := by
  refine List.foldlRecOn _ _ (motive := fun s : State => Lasts st.pgs s.pgs) (refl _) fun s hs id hid => ?_
  obtain ⟨q, hq, hlate⟩ := Env.mem_select.mp hid
  unfold timeOutPg
  split
  · exact hs
  · refine hs.modify (fun p hp hr => ?_) fun _ => ⟨rfl, rfl⟩
    cases hq.symm.trans hp
    rw [pgTimedOut, hr] at hlate
    cases hlate

end Lasts

namespace Lives

theorem markActorDead {t : Table ActorId ActorInfo} (h : Lives env.now t st.actors) (x : ActorId)
    (reason : String) : Lives env.now t (markActorDead cfg ops env st x reason).actors := by
  unfold Mentat.markActorDead
  split
  · rw [fanOutDeath_actors]
    exact h
  · split
    · exact h
    · rw [fanOutDeath_actors]
      intro k a ha
      obtain ⟨a', ha', hg, hag, ho, hst⟩ := h k a ha
      by_cases hk : k = x
      · subst hk
        refine ⟨a'.die reason env.now, (Table.get_modify_self _ _ _).trans (by rw [ha', Option.map_some]), ?_⟩
        unfold ActorInfo.die
        split
        · exact ⟨hg, hag, ho, hst⟩
        · exact ⟨hg, hag, ho, .inr ⟨reason, rfl⟩⟩
      · exact ⟨a', (Table.get_modify_of_ne hk).trans ha', hg, hag, ho, hst⟩

end Lives

/-- What the history sweep of a tick finds. -/
theorem tick_rows (cfg : Cfg) (ops : ClaimOps) (env : Env) (st : State) :
    Lasts st.pgs (sweepAgents cfg ops env (timeOutPgs cfg env st)).pgs ∧
      Lives env.now st.actors (sweepAgents cfg ops env (timeOutPgs cfg env st)).actors := by
  obtain ⟨pgs, events, htimed⟩ := timeOutPgs_frame cfg env st
  obtain ⟨events', hlate⟩ := degradeLate_frame cfg env (timeOutPgs cfg env st)
  refine sweepAgents_keeps cfg ops env _
    (I := fun s => Lasts st.pgs s.pgs ∧ Lives env.now st.actors s.actors) (fun s e hs => hs)
    (fun s x why hs => ⟨hs.1.trans (.markActorDead x why), hs.2.markActorDead x why⟩) ?_
  rw [hlate]
  refine ⟨Lasts.timeOutPgs, fun k a ha => ⟨a, ?_, rfl, rfl, rfl, .inl rfl⟩⟩
  rw [htimed]
  exact ha

/-- The agents, clients and claims that the history sweep of a tick finds. -/
theorem tick_frame (cfg : Cfg) (ops : ClaimOps) (env : Env) (st : State) :
    (sweepAgents cfg ops env (timeOutPgs cfg env st)).agents =
        st.agents.map (fun _ a => a.window cfg env.now) ∧
      (sweepAgents cfg ops env (timeOutPgs cfg env st)).clients = st.clients ∧
      (sweepAgents cfg ops env (timeOutPgs cfg env st)).claims = st.claims := by
  have hq := sweepAgents_quiet cfg ops env (timeOutPgs cfg env st)
  have hclients : (sweepAgents cfg ops env (timeOutPgs cfg env st)).clients =
      (degradeLate cfg env (timeOutPgs cfg env st)).clients := (congrArg State.clients hq :)
  obtain ⟨pgs, events, htimed⟩ := timeOutPgs_frame cfg env st
  obtain ⟨events', hlate⟩ := degradeLate_frame cfg env (timeOutPgs cfg env st)
  rw [hq.agents, hq.claims, hclients, hlate, htimed]
  exact ⟨rfl, rfl, rfl⟩

/-- An actor that goes was to go before the tick. -/
theorem goneActor_of_lives {s : State} {a a' : ActorInfo} (hclients : s.clients = st.clients)
    (howner : a'.owner = a.owner) (hstate : a'.state = a.state ∨ ∃ r, a'.state = .dead r now)
    (h : goneActor cfg now s a' = true) : goneActor cfg now st a = true := by
  simp only [goneActor, hclients, howner] at h ⊢
  rcases hstate with hstate | ⟨r, hstate⟩
  · rw [hstate] at h
    exact h
  · -- It has died just now.
    simp [hstate, aged] at h

theorem gonePg_of_lasts {s : State} {p p' : PgInfo} (hclients : s.clients = st.clients)
    (howner : p'.owner = p.owner) (hst : p.state = .removed → p'.state = .removed ∧ p'.removedMs = p.removedMs)
    (h : gonePg cfg now st p = true) : gonePg cfg now s p' = true := by
  simp only [gonePg, Bool.and_eq_true, beq_iff_eq] at h ⊢
  obtain ⟨hstate, hms⟩ := hst h.1.1
  rw [hclients, howner, hms]
  exact ⟨⟨hstate, h.1.2⟩, h.2⟩

/-- The sweep leaves no row in a group that it empties. -/
theorem sweptClean_rooted (h : sweptClean cfg env.now st = true) :
    (Publishes.sweptState cfg env (sweepAgents cfg ops env (timeOutPgs cfg env st))).Rooted := by
  obtain ⟨hlasts, hlives⟩ := tick_rows cfg ops env st
  obtain ⟨hagents, hclients, hclaims⟩ := tick_frame cfg ops env st
  generalize sweepAgents cfg ops env (timeOutPgs cfg env st) = s at hlasts hlives hagents hclients hclaims
  simp only [sweptClean, Bool.and_eq_true, List.all_eq_true, Table.mem_keys, Table.mem_values,
    Bool.or_eq_true] at h
  have hactor : ∀ k a, st.actors.get k = some a → goneActor cfg env.now st a = false →
      ∃ a', s.actors.get k = some a' ∧ a'.group = a.group ∧ a'.agent = a.agent ∧
        goneActor cfg env.now s a' = false := by
    intro k a ha hgone
    obtain ⟨a', ha', hg, hag, ho, hst⟩ := hlives k a ha
    refine ⟨a', ha', hg, hag, ?_⟩
    by_contra hgone'
    rw [goneActor_of_lives hclients ho hst (by simpa using hgone')] at hgone
    cases hgone
  have hkeeps : ∀ g, keepsGroup cfg env.now st g = true → (Publishes.sweptState cfg env s).lists g = true := by
    intro g hg
    rw [State.lists_iff]
    simp only [Publishes.sweptState, Table.get_filter, Option.filter_eq_some_iff, Bool.not_eq_true']
    simp only [keepsGroup, Bool.or_eq_true, List.any_eq_true, Bool.and_eq_true, beq_iff_eq,
      Bool.not_eq_true', Table.mem_values] at hg
    rcases hg with ⟨⟨id, a⟩, hrow, hg, hgone⟩ | ⟨a, ⟨k, ha⟩, hg, hgone⟩
    · have ha := Table.mem_rows.mp hrow
      refine .inl ⟨id, a.window cfg env.now, ⟨by rw [hagents, Table.get_map, ha, Option.map_some], ?_⟩,
        (window_later cfg env.now a).group.trans hg⟩
      have hwindow : (a.window cfg env.now).alive = a.alive ∧
          (a.window cfg env.now).goneSinceMs = a.goneSinceMs := by
        unfold AgentInfo.window
        split
        · exact ⟨rfl, rfl⟩
        · split <;> exact ⟨rfl, rfl⟩
      by_contra hgone'
      refine absurd hgone (Bool.not_eq_false _ ▸ ?_)
      simp only [goneAgent, hwindow, Bool.not_eq_false, Bool.and_eq_true, List.all_eq_true,
        Table.mem_values, Bool.or_eq_true, bne_iff_ne] at hgone' ⊢
      refine ⟨hgone'.1, fun x hx => ?_⟩
      obtain ⟨k, hk⟩ := hx
      obtain ⟨x', hx', -, hag, ho, hst⟩ := hlives k x hk
      rw [← hag]
      exact (hgone'.2 x' ⟨k, hx'⟩).imp_right (goneActor_of_lives hclients ho hst)
    · obtain ⟨a', ha', hg', -, hgone'⟩ := hactor k a ha hgone
      exact .inr ⟨k, a', ⟨ha', hgone'⟩, hg'.trans hg⟩
  intro slot g hg hrow
  cases slot with
  | client id => cases hg
  | actor g' k =>
    cases hg
    obtain ⟨d, hd⟩ := Option.isSome_iff_exists.mp hrow
    obtain ⟨a, ha, -⟩ := Option.map_eq_some_iff.mp hd
    obtain ⟨ha, he⟩ := Option.filter_eq_some_iff.mp ha
    exact State.lists_iff.mpr (.inr ⟨k, a, ha, beq_iff_eq.mp he⟩)
  | pg g' k =>
    cases hg
    obtain ⟨d, hd⟩ := Option.isSome_iff_exists.mp hrow
    obtain ⟨p', hp', -⟩ := Option.map_eq_some_iff.mp hd
    obtain ⟨hp', he⟩ := Option.filter_eq_some_iff.mp hp'
    simp only [Publishes.sweptState, Table.get_filter, Option.filter_eq_some_iff, Bool.not_eq_true'] at hp'
    obtain ⟨p, hp, hg, ho, hst⟩ := hlasts k p' hp'.1
    rcases h.2 p ⟨k, hp⟩ with hgone | hkept
    · have hgone' := gonePg_of_lasts hclients ho hst hgone
      rw [hgone'] at hp'
      cases hp'.2
    · rw [← hg, beq_iff_eq.mp he] at hkept
      exact hkeeps g hkept
  | claim g' name =>
    cases hg
    obtain ⟨d, hd⟩ := Option.isSome_iff_exists.mp hrow
    obtain ⟨c, hc, -⟩ := Option.map_eq_some_iff.mp hd
    have hc : s.claims.get (g, name) = some c := hc
    rw [hclaims] at hc
    exact hkeeps g (h.1 (g, name) ⟨c, hc⟩)

end Tick

namespace Reports

variable {st : State} {cfg : Cfg} {ops : ClaimOps} {env : Env}

/-! ## The head -/

/-- Every client and claim goes, and every row that was live or placed is told. -/
theorem headMoved : Reports st (headMoved env st) := by
  have hactor : ∀ (k : ActorId) (a : ActorInfo),
      (a.move (movedReason st.headNodeId) env.now).group = a.group := by
    intro k a
    unfold ActorInfo.move
    split <;> rfl
  have hpg : ∀ (k : PgId) (p : PgInfo), (p.move env.now).group = p.group := by
    intro k p
    unfold PgInfo.move
    split <;> rfl
  have hlists : (Publishes.movedState env st).lists = st.lists :=
    lists_actors_map rfl rfl hactor
  unfold Mentat.headMoved
  split
  · exact .refl st
  simp only
  refine note (Publishes.movedState env st) rfl (fun hr p hp => ?_) (fun s hno => ?_)
    fun g _ => by rw [hlists]
  · simp only [List.mem_append, List.mem_map, List.mem_filterMap] at hp
    rcases hp with (((⟨id, -, rfl⟩ | ⟨key, hkey, rfl⟩) | ⟨id, -, hp⟩) | ⟨id, -, hp⟩) | ⟨id, -, hp⟩
    · exact .of_slot (s := .client id) rfl rfl fun g hg => by cases hg
    · refine .of_slot (s := .claim key.1 key.2) rfl rfl fun g hg => ?_
      cases hg
      obtain ⟨c, hc⟩ := Table.mem_keys.mp hkey
      rw [hlists]
      exact hr.claim hc
    · exact .of_agentPatch hp
    · exact .of_actorPatch hp
    · refine .of_pgPatch (fun pg hpg' => ?_) hp
      simp only [Publishes.movedState, Table.get_map, Option.map_eq_some_iff] at hpg'
      obtain ⟨p, hp, rfl⟩ := hpg'
      rw [hlists, hpg id]
      exact hr.pg hp
  · -- A row that is not told of was not there, or had ended before.
    simp only [List.mem_append, List.mem_map, List.mem_filterMap] at hno
    cases s with
    | client id =>
      have hgone : st.clients.get id = none := by
        by_contra hrow
        obtain ⟨c, hc⟩ := Option.ne_none_iff_exists'.mp hrow
        refine hno _ (.inl (.inl (.inl (.inl ⟨id, ?_, rfl⟩)))) List.prefix_rfl
        exact (HashOrder.mem_order _).mpr (Table.mem_keys.mpr ⟨c, hc⟩)
      simp only [State.slot, hgone]
      rfl
    | claim g name =>
      have hgone : st.claims.get (g, name) = none := by
        by_contra hrow
        obtain ⟨c, hc⟩ := Option.ne_none_iff_exists'.mp hrow
        exact hno _ (.inl (.inl (.inl (.inr ⟨(g, name), Table.mem_keys.mpr ⟨c, hc⟩, rfl⟩)))) List.prefix_rfl
      simp only [State.slot, hgone]
      rfl
    | actor g k =>
      refine actor_slot_map rfl hactor fun a ha hg => ?_
      by_cases hdead : a.state.isDead = true
      · rw [ActorInfo.move, if_pos hdead]
      · subst hg
        have hpatch : actorPatch (Publishes.movedState env st) k = some (.set (actorPath
            (a.move (movedReason st.headNodeId) env.now).group k)
            (.actor (actorRow (a.move (movedReason st.headNodeId) env.now)))) := by
          simp only [actorPatch, Publishes.movedState, Table.get_map, ha, Option.map_some]
        refine absurd ?_ (hno _ (.inl (.inr ⟨k, Env.mem_select.mpr ⟨a, ha, ?_⟩, hpatch⟩)))
        · rw [hactor k]
          exact List.prefix_rfl
        · simpa using hdead
    | pg g k =>
      refine pg_slot_map rfl hpg fun p hp hg => ?_
      by_cases hdone : p.state = .removed
      · rw [PgInfo.move, if_pos hdone]
      · subst hg
        have hpatch : pgPatch (Publishes.movedState env st) k = some (.set (pgPath
            (p.move env.now).group k) (.pg (pgRow (p.move env.now)))) := by
          simp only [pgPatch, Publishes.movedState, Table.get_map, hp, Option.map_some]
        refine absurd ?_ (hno _ (.inr ⟨k, Env.mem_select.mpr ⟨p, hp, bne_iff_ne.mpr hdone⟩, hpatch⟩))
        rw [hpg k]
        exact List.prefix_rfl

theorem elect (candidate : NodeId) : Reports st (elect env st candidate) := by
  refine Reports.trans (note { st with
    headNodeId := candidate
    headGeneration := st.headGeneration + 1
    headSinceMs := if candidate = st.nodeId then some env.now else none } rfl
    (fun _ p hp => ?_) (fun _ _ => rfl) fun _ _ => rfl) headMoved
  simp only [List.mem_cons, List.not_mem_nil, or_false] at hp
  rcases hp with rfl | rfl
  · exact .of_aside (inPlace_field (by simp)) rfl (by simp) (by simp)
  · exact .of_aside (inPlace_field (by simp)) rfl (by simp) (by simp)

theorem commitIslands (fresh : Fabrics) : Reports st (commitIslands cfg ops env st fresh) := by
  have hnote : Reports st (State.emitPatch { st with fabrics := fresh } "islands_changed"
      [.set ["islands"] (.islands fresh.islands)] (toString fresh.tagged.card ++ " tagged nodes")) := by
    refine note _ rfl (fun _ p hp => ?_) (fun _ _ => rfl) fun _ _ => rfl
    rw [List.mem_singleton.mp hp]
    exact .of_aside (inPlace_field (by simp)) rfl (by simp) (by simp)
  exact hnote.trans (tryPlace env)

theorem sweepLifecycle (h : sweptClean cfg env.now st = true) :
    Reports st (sweepLifecycle cfg ops env st) :=
  (timeOutPgs.trans sweepAgents).trans (sweepHistory (sweptClean_rooted h))

end Reports

/-! ## Runs -/

/-- The section tells of every change that it makes of the tables. -/
def Section.reported (cfg : Cfg) (ops : ClaimOps) (env : Env) (st : State) : Section → Bool
  | .hello _ h => h.session || decide (st.clients.get h.clientId = some (helloRow st h))
  | .claim client name shape => claimReported ops st client name shape
  | .pgCreate r => st.lists (clientGroup st r.client)
  | .dropRow client moved => !(st.clients.get client).any fun c => !c.hasSession || moved
  | .register _ r =>
    (st.agents.get r.agentId).all fun a => a.group == r.group || st.listsBeside r.agentId a.group
  | .agentFrame _ msg => frameReported st msg
  | .sweepLifecycle => sweptClean cfg env.now st
  | _ => true

def Doing.reported (cfg : Cfg) (ops : ClaimOps) (st : State) : Doing → Bool
  | .run env sec => sec.reported cfg ops env st
  | .mesh _ _ _ => true

section Runs

variable {cfg : Cfg} {ops : ClaimOps} {env : Env} {st st' : State}

theorem Reports.exec {sec : Section} (hfresh : sec.fresh st = true)
    (h : sec.reported cfg ops env st = true) : Reports st (exec cfg ops env st sec) := by
  cases sec with
  | hello w h' => exact hello w (by simpa [Section.reported] using h)
  | claim client name shape => exact claim h
  | pgCreate r => exact pgCreate (by simpa [Section.fresh] using hfresh) h
  | pgRemove id => exact pgRemove id
  | actorCreate r => exact createActor (by simpa [Section.fresh] using hfresh)
  | actorCall r => exact actorCall r
  | killActor x => exact killActor x
  | closeLink w => exact silent _ rfl rfl rfl
  | dropRow client moved =>
    have hkept : Mentat.dropRow st client moved = st := if_neg (by simpa [Section.reported] using h)
    simp only [Mentat.exec, hkept]
    exact .refl st
  | reapRow client => exact reapRow client
  | reapArm client => exact silent _ rfl rfl rfl
  | reapCheck client group token => exact reapCheck client group token
  | reapFinish client =>
    have hrefs : Reports st { st with refs := st.refs.filter fun _ r => r.owner != client } :=
      silent _ rfl rfl rfl
    exact hrefs.trans (tryPlace env)
  | register w r => exact register h
  | agentFrame id msg => exact agentFrame id h
  | agentEof id w => exact agentEof id w
  | sweepLifecycle => exact sweepLifecycle h
  | elect candidate => exact elect candidate
  | commitIslands fresh => exact commitIslands fresh
  | peers t => exact silent _ rfl rfl rfl

theorem reports_step {d : Doing} (hd : d.reported cfg ops st = true)
    (hs : (publishing cfg ops).next st d = some st') : Reports st st' := by
  cases d with
  | run env sec =>
    obtain ⟨hfresh, rfl⟩ := daemon_next cfg ops hs
    exact .exec hfresh hd
  | mesh kind why rows =>
    cases hs
    refine .note st rfl (fun _ p hp => ?_) (fun _ _ => rfl) fun _ _ => rfl
    obtain ⟨⟨id, r⟩, -, rfl⟩ := List.mem_map.mp hp
    cases r with
    | none => exact .of_aside (inPlace_row (by simp)) rfl (by simp) (by simp)
    | some r => exact .of_aside (inPlace_row (by simp)) rfl (by simp) (by simp)

theorem reach_rooted (h : (publishing cfg ops).Reach (Doing.reported cfg ops) st) : st.Rooted := by
  refine h.invariant ?_ fun s d s' hr hd hs => (reports_step hd hs).rooted hr
  rintro s ⟨_, _, _, rfl⟩ slot g hg hrow
  cases slot <;> cases hrow

/-- Starting from any snapshot, the events emitted after it apply and give the clients of a fresh
snapshot, the groups it lists, and in each the claims, actors and placement groups, row for row. -/
theorem events_reproduce_tables {trace : List Doing}
    (hreach : (publishing cfg ops).Reach (Doing.reported cfg ops) st)
    (hrun : (publishing cfg ops).run (Doing.reported cfg ops) st trace = some st') :
    ∃ new view, st'.events = st.events ++ new ∧ applyEvents (snapshot st none) new = some view ∧
      (∀ s : Slot, view.at_ s.path = (snapshot st' none).at_ s.path) ∧
      ∀ g, (view.at_ ["groups", g]).isSome = ((snapshot st' none).at_ ["groups", g]).isSome := by
  have hrooted := reach_rooted hreach
  have hreport : Reports st st' :=
    System.run_keeps (I := Reports st) hrun (.refl st) fun _ _ _ h hd hs => h.trans (reports_step hd hs)
  obtain ⟨new, he, htells⟩ := hreport.events hrooted
  have hin : ∀ p ∈ new.flatMap (·.patch), p.InPlace := htells.inPlace
  obtain ⟨view, hview, hslots, hgroups⟩ := applyEvents_slots (snapshot_shaped st none) hin
  refine ⟨new, view, he, hview, fun s => ?_, fun g => ?_⟩
  · rw [hslots, snapshot_slot hrooted, htells.rows, snapshot_slot (hreport.rooted hrooted)]
  · rw [hgroups, snapshot_lists, htells.groups, snapshot_lists]

end Runs

namespace Sample

/-- The state that a document shows the placement group in. -/
def pgStateIn (d : Doc Row) : Option String :=
  match d.at_ (pgPath "g" "p:1") with
  | some (.row (.pg row)) => some row.state
  | _ => none

end Sample

/-- A consumer that read the snapshot before the driver left shows its group removed and its row gone. -/
theorem events_reproduce_tables_left : ∃ st new view,
    Sample.pgStateIn (snapshot st none) = some "CREATED" ∧
    ((snapshot st none).at_ ["clients", "c"]).isSome = true ∧
    applyEvents (snapshot st none) new = some view ∧ Sample.pgStateIn view = some "REMOVED" ∧
    view.at_ ["clients", "c"] = none := by
  have hrun : ((publishing Sample.cfg Sample.ops).run (Doing.reported Sample.cfg Sample.ops)
      Sample.boot Sample.groupUp).any (fun st =>
        decide (Sample.pgStateIn (snapshot st none) = some "CREATED") &&
        ((snapshot st none).at_ ["clients", "c"]).isSome &&
        ((publishing Sample.cfg Sample.ops).run (Doing.reported Sample.cfg Sample.ops) st
          [.run (Sample.at_ 5) (.pgRemove "p:1"), .run (Sample.at_ 6) (.reapRow "c")]).any fun st' =>
          decide (Sample.pgStateIn (snapshot st' none) = some "REMOVED") &&
          ((snapshot st' none).at_ ["clients", "c"]).isNone) = true := by
    decide +kernel
  obtain ⟨st, hreach, hp⟩ := System.Reach.of_run hrun ⟨_, _, _, rfl⟩
  simp only [Bool.and_eq_true, decide_eq_true_eq, Option.any_eq_true, Option.isNone_iff_eq_none] at hp
  obtain ⟨⟨hcreated, hclient⟩, st', hst', hremoved, hgone⟩ := hp
  obtain ⟨new, view, -, hview, hslots, -⟩ := events_reproduce_tables hreach hst'
  refine ⟨st, new, view, hcreated, hclient, hview, ?_, (hslots (.client "c")).trans hgone⟩
  have hpg : view.at_ (pgPath "g" "p:1") = (snapshot st' none).at_ (pgPath "g" "p:1") := hslots (.pg "g" "p:1")
  rw [Sample.pgStateIn, hpg]
  exact hremoved

/-- A connection without a session is a row of the snapshot, and no event tells of it. -/
theorem hello_unreported : ∃ st st' view,
    (publishing Sample.cfg Sample.ops).Reach System.Free st ∧
    (publishing Sample.cfg Sample.ops).next st (.run (Sample.at_ 1) (.hello 2 (Sample.driver "d" false))) =
      some st' ∧
    applyEvents (snapshot st none) (st'.events.drop st.events.length) = some view ∧
    view.at_ ["clients", "d"] ≠ (snapshot st' none).at_ ["clients", "d"] := by
  refine ⟨Sample.boot, _, snapshot Sample.boot none, .init ⟨_, _, _, rfl⟩, rfl, rfl, fun h => ?_⟩
  exact absurd (congrArg Option.isSome h) (by decide +kernel)

end Mentat
