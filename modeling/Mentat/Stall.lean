import Mentat.Claims
import Mentat.Ground

/-!
# No group waits that could be placed

A section that frees a device, or changes anything else a placement looks at, should try the
pending groups again before it lets go of the mutex. Then no group is pending between sections that
a try would place (`NoStall`).

* `tryPlace_tried`: a try leaves no such group, whatever the state. For this no two groups may
  wait together unless the bundles of each are of one size: first fit is not monotone, and a group
  that failed may fit once another one, tried after it, has been placed.
* `Calm`: a change that makes no pending group placeable. The sections that do not try are calm as
  long as `Section.tries` holds: solving a claim, a driver's node becoming known or unknown, the end
  of an agent's link, and the first half of a reap may all make a group placeable, and none of them
  tries.
-/

namespace Mentat

/-- The group waits to be placed. -/
def Pending (st : State) (id : PgId) (pg : PgInfo) : Prop :=
  st.pgs.get id = some pg ∧ pg.state = .pending

/-- No pending group would be placed if it were tried now. -/
def NoStall (cfg : Cfg) (ops : ClaimOps) (st : State) : Prop :=
  ∀ id pg, Pending st id pg → ∀ x, placementOf cfg ops st pg ≠ .ok x

/-- What a request asked for: the group, its owner, the bundles and the claim. -/
def PgInfo.asked (pg : PgInfo) : String × ClientId × List Nat × String :=
  (pg.group, pg.owner, pg.bundles, pg.claim)

/-- Every pending group of `st'` was pending in `st`. -/
def Fewer (st st' : State) : Prop :=
  ∀ id pg', Pending st' id pg' → ∃ pg, Pending st id pg ∧ pg'.asked = pg.asked ∧
    pg'.placed = pg.placed

/-- A pending group has no bundle yet, and unless it is the only one its bundles are of one size. -/
structure Queue (st : State) : Prop where
  unplaced {id : PgId} {pg : PgInfo} : Pending st id pg → pg.placed = []
  alike : (∀ id pg, Pending st id pg → evenBundles pg.bundles = true) ∨
    ∀ id id' pg pg', Pending st id pg → Pending st id' pg' → id = id'

namespace Fewer

variable {st st' st'' : State}

theorem refl (st : State) : Fewer st st := fun _ pg h => ⟨pg, h, rfl, rfl⟩

theorem of_eq (h : st'.pgs = st.pgs) : Fewer st st' := fun _ pg hp => ⟨pg, by rwa [Pending, ← h], rfl, rfl⟩

theorem trans (h : Fewer st st') (h' : Fewer st' st'') : Fewer st st'' := by
  intro id pg'' hp
  obtain ⟨pg', hp', ha', hb'⟩ := h' id pg'' hp
  obtain ⟨pg, hp, ha, hb⟩ := h id pg' hp'
  exact ⟨pg, hp, ha'.trans ha, hb'.trans hb⟩

theorem queue (h : Fewer st st') (hw : Queue st) : Queue st' where
  unplaced hp := by
    obtain ⟨pg, hp, -, hb⟩ := h _ _ hp
    rw [hb, hw.unplaced hp]
  alike := by
    refine hw.alike.imp (fun heven id pg' hp => ?_) fun hone id id' pg pg' hp hp' => ?_
    · obtain ⟨pg, hp, ha, -⟩ := h id pg' hp
      have hb : pg'.bundles = pg.bundles := congrArg (·.2.2.1) ha
      rw [hb]
      exact heven id pg hp
    · obtain ⟨q, hq, -⟩ := h id pg hp
      obtain ⟨q', hq', -⟩ := h id' pg' hp'
      exact hone id id' q q' hq hq'

/-- Rows changed in place: what is still pending has kept what was asked and what it has. -/
theorem of_map {f : PgId → PgInfo → PgInfo} (h : st'.pgs = st.pgs.map f)
    (hf : ∀ id pg, (f id pg).state = .pending → pg.state = .pending ∧ (f id pg).asked = pg.asked ∧
      (f id pg).placed = pg.placed) : Fewer st st' := by
  rintro id pg' ⟨hget, hst⟩
  rw [h, Table.get_map, Option.map_eq_some_iff] at hget
  obtain ⟨pg, hget, rfl⟩ := hget
  obtain ⟨hp, ha, hb⟩ := hf id pg hst
  exact ⟨pg, ⟨hget, hp⟩, ha, hb⟩

theorem of_modify {k : PgId} {f : PgInfo → PgInfo} (h : st'.pgs = st.pgs.modify k f)
    (hf : ∀ pg : PgInfo, (f pg).state = .pending → pg.state = .pending ∧ (f pg).asked = pg.asked ∧
      (f pg).placed = pg.placed) : Fewer st st' := by
  refine of_map h fun id pg hp => ?_
  split at hp
  · next hk =>
    rw [if_pos hk]
    exact hf pg hp
  · next hk =>
    rw [if_neg hk]
    exact ⟨hp, rfl, rfl⟩

end Fewer

/-! ## Calm changes -/

/-- A try would place the group. -/
def canPlace (cfg : Cfg) (ops : ClaimOps) (st : State) (pg : PgInfo) : Bool :=
  (st.ground ops pg).places cfg pg.claim pg.bundles

section Calm

variable {cfg : Cfg} {ops : ClaimOps} {st st' st'' : State}

theorem canPlace_asked {pg pg' : PgInfo} (h : pg'.asked = pg.asked) :
    canPlace cfg ops st pg' = canPlace cfg ops st pg := by
  simp only [PgInfo.asked, Prod.mk.injEq] at h
  obtain ⟨hg, ho, hb, hc⟩ := h
  simp only [canPlace, State.ground, driverNodeOf, hg, ho, hb, hc]

theorem noStall_iff : NoStall cfg ops st ↔ ∀ id pg, Pending st id pg → canPlace cfg ops st pg = false := by
  refine forall_congr' fun id => forall_congr' fun pg => imp_congr_right fun _ => ?_
  rw [← not_exists, placementOf_isOk, canPlace, Bool.not_eq_true]

/-- The change makes no pending group placeable, and adds none. -/
structure Calm (cfg : Cfg) (ops : ClaimOps) (st st' : State) : Prop where
  fewer : Fewer st st'
  places {id : PgId} {pg : PgInfo} : Pending st' id pg → canPlace cfg ops st' pg = true →
    canPlace cfg ops st pg = true

/-- No pending group is placeable, and none will be for another's being placed. -/
structure Tried (cfg : Cfg) (ops : ClaimOps) (st : State) : Prop where
  queue : Queue st
  noStall : NoStall cfg ops st

theorem Tried.calm (hs : Tried cfg ops st) (h : Calm cfg ops st st') : Tried cfg ops st' where
  queue := h.fewer.queue hs.queue
  noStall := by
    refine noStall_iff.mpr fun id pg' hp => Bool.eq_false_iff.mpr fun hc => ?_
    obtain ⟨pg, hpend, ha, -⟩ := h.fewer id pg' hp
    have hbefore := h.places hp hc
    rw [canPlace_asked ha, noStall_iff.mp hs.noStall id pg hpend] at hbefore
    cases hbefore

theorem Tried.of_none (h : ∀ id pg, ¬ Pending st id pg) : Tried cfg ops st :=
  ⟨⟨fun hp => absurd hp (h _ _), .inl fun id pg hp => absurd hp (h id pg)⟩,
    fun id pg hp => absurd hp (h id pg)⟩

/-- A change that leaves the ground of every group that is still pending. -/
theorem Calm.of_ground (hf : Fewer st st')
    (hg : ∀ id pg, Pending st' id pg → st'.ground ops pg = st.ground ops pg) : Calm cfg ops st st' :=
  ⟨hf, fun {id pg} hp hc => by rwa [canPlace, hg id pg hp] at hc⟩

end Calm

/-- A section that changes actors, refs and groups alone, and makes no device free, leaves every
ground as it is or poorer. -/
theorem Quiet.ground_le {ops : ClaimOps} {st st' : State} (h : Quiet st st')
    (hheld : ∀ a g, st.Held a g → st'.Held a g) (pg : PgInfo) :
    (st'.ground ops pg).Le (st.ground ops pg) := by
  have hclients : st'.clients = st.clients := (congrArg State.clients h :)
  exact Mentat.ground_le (by rw [groupAgents, h.agents]; exact List.Subset.refl _)
    (liveFree_le_of_agents h.agents hheld _) (by rw [driverNodeOf, hclients, driverNodeOf]) h.claims
    (congrArg State.fabrics h :)

theorem Quiet.ground_eq {ops : ClaimOps} {st st' : State} (h : Quiet st st')
    (hheld : ∀ a g, st'.Held a g ↔ st.Held a g) (pg : PgInfo) :
    st'.ground ops pg = st.ground ops pg := by
  have hclients : st'.clients = st.clients := (congrArg State.clients h :)
  exact ground_of_held h.agents hheld (by rw [driverNodeOf, hclients, driverNodeOf])
    (fun _ => by rw [claimFacts, h.claims, claimFacts]) (congrArg State.fabrics h :)

/-! ## A try leaves nothing to place -/

section Try

variable {cfg : Cfg} {ops : ClaimOps} {st : State}

theorem placeGroup_quiet (id : PgId) : Quiet st (placeGroup cfg ops st id) :=
  (congrArg State.registry (placeGroup_sansPgs cfg ops st id) :)

theorem placeGroup_fewer (id : PgId) : Fewer st (placeGroup cfg ops st id) := by
  rcases placeGroup_cases cfg ops st id with he | ⟨why, he⟩ | ⟨pg, island, asg, -, -, he⟩
  · exact .of_eq he
  · exact .of_modify he fun pg hp => ⟨hp, rfl, rfl⟩
  · exact .of_modify he fun pg hp => by cases hp

theorem tryPlace_fewer (env : Env) : Fewer st (tryPlace cfg ops env st) := by
  unfold tryPlace
  generalize env.select st.pgs (fun _ p => p.state == .pending) = ids
  induction ids generalizing st with
  | nil => exact .refl st
  | cons id ids ih => exact (placeGroup_fewer id).trans ih

/-- A group's turn touches no other group. -/
theorem placeGroup_get_ne {id k : PgId} (hne : k ≠ id) :
    (placeGroup cfg ops st id).pgs.get k = st.pgs.get k := by
  rcases placeGroup_cases cfg ops st id with he | ⟨why, he⟩ | ⟨pg, island, asg, -, -, he⟩
  · rw [he]
  · rw [he, Table.get_modify_of_ne hne]
  · rw [he, Table.get_modify_of_ne hne]

/-- A pending group's turn gives up no device. -/
theorem placeGroup_held {id : PgId} {pg : PgInfo} (hw : Queue st) (hp : Pending st id pg)
    {a : AgentId} {g : Nat} (h : st.Held a g) : (placeGroup cfg ops st id).Held a g := by
  rcases h with ⟨k, p, hk, hh⟩ | ⟨k, x, hk, hh⟩
  · refine .inl ⟨k, p, ?_, hh⟩
    rw [placeGroup_get_ne ?_, hk]
    rintro rfl
    obtain ⟨-, b, hb, -⟩ := hh
    cases hp.1.symm.trans hk
    rw [hw.unplaced hp] at hb
    cases hb
  · have hactors : (placeGroup cfg ops st id).actors = st.actors :=
      (congrArg State.actors (placeGroup_sansPgs cfg ops st id) :)
    exact .inr ⟨k, x, by rw [hactors, hk], hh⟩

/-- A pending group's turn leaves every ground as it is, or poorer. -/
theorem placeGroup_ground_le {id : PgId} {pg : PgInfo} (hw : Queue st) (hp : Pending st id pg)
    (q : PgInfo) : ((placeGroup cfg ops st id).ground ops q).Le (st.ground ops q) :=
  (placeGroup_quiet id).ground_le (fun _ _ hh => placeGroup_held hw hp hh) q

theorem setPendingReason_held (id : PgId) (why : String) (a : AgentId) (g : Nat) :
    (setPendingReason st id why).Held a g ↔ st.Held a g := by
  unfold setPendingReason
  split
  · rfl
  · split
    · rfl
    · refine State.held_of_map (f := fun k p => if k = id then { p with pendingReason := some why }
        else p) (by rfl) (by rfl) (fun k p _ a g => ?_) a g
      split <;> rfl

theorem placeGroup_optedIn (id : PgId) (q : PgInfo) :
    ((placeGroup cfg ops st id).ground ops q).optedIn cfg = (st.ground ops q).optedIn cfg := by
  have hs : Quiet st (placeGroup cfg ops st id) := placeGroup_quiet id
  refine Ground.optedIn_congr ?_ (congrArg State.fabrics hs :)
  simp only [State.ground, groupAgents, hs.agents]

/-- A group that is still pending after its turn cannot be placed. -/
theorem placeGroup_failed {id : PgId} {pg pg' : PgInfo} (hp : Pending st id pg)
    (hp' : Pending (placeGroup cfg ops st id) id pg') :
    canPlace cfg ops (placeGroup cfg ops st id) pg' = false := by
  obtain ⟨q, hq, hasked, -⟩ := placeGroup_fewer id id pg' hp'
  cases hp.1.symm.trans hq.1
  cases hpl : placementOf cfg ops st pg with
  | ok x =>
    -- It was placed, so it is not pending.
    obtain ⟨hget, hst⟩ := hp'
    simp only [placeGroup, hp.1, hpl, State.emitPatch, Table.get_modify_self, Option.map_some,
      Option.some.injEq] at hget
    rw [← hget] at hst
    cases hst
  | error why =>
    have hno : canPlace cfg ops st pg = false := by
      rw [canPlace, ← Bool.not_eq_true, ← placementOf_isOk]
      rintro ⟨x, hx⟩
      cases hpl.symm.trans hx
    have hheld : ∀ a g, (placeGroup cfg ops st id).Held a g ↔ st.Held a g := by
      intro a g
      simp only [placeGroup, hp.1, hpl, setPendingReason_held]
    rw [canPlace_asked hasked, canPlace, (placeGroup_quiet id).ground_eq hheld]
    exact hno

/-- Once every pending group that could be placed has had its turn, none is left. -/
theorem foldl_placeGroup_tried {ids : List PgId} (hw : Queue st) (hnd : ids.Nodup)
    (hids : ∀ id ∈ ids, ∃ pg, Pending st id pg)
    (hrest : ∀ id pg, Pending st id pg → id ∈ ids ∨ canPlace cfg ops st pg = false) :
    Tried cfg ops (ids.foldl (placeGroup cfg ops) st) := by
  induction ids generalizing st with
  | nil => exact ⟨hw, noStall_iff.mpr fun id pg hp => (hrest id pg hp).resolve_left (by simp)⟩
  | cons id ids ih =>
    obtain ⟨hid, hnd⟩ := List.nodup_cons.mp hnd
    obtain ⟨pg, hp⟩ := hids id List.mem_cons_self
    refine ih ((placeGroup_fewer id).queue hw) hnd (fun k hk => ?_) fun k q hq => ?_
    · obtain ⟨q, hq⟩ := hids k (List.mem_cons_of_mem id hk)
      have hne : k ≠ id := fun he => hid (he ▸ hk)
      exact ⟨q, by rw [placeGroup_get_ne hne, hq.1], hq.2⟩
    · by_cases hk : k = id
      · subst hk
        exact .inr (placeGroup_failed hp hq)
      · have hbefore : Pending st k q := ⟨by rw [← placeGroup_get_ne hk, hq.1], hq.2⟩
        rcases hrest k q hbefore with hmem | hno
        · exact .inl ((List.mem_cons.mp hmem).resolve_left hk)
        · refine .inr (Bool.eq_false_iff.mpr fun hc => ?_)
          rcases hw.alike with heven | hone
          · have hle : ((placeGroup cfg ops st id).ground ops q).Le (st.ground ops q) :=
              placeGroup_ground_le hw hp q
            rw [canPlace, Ground.places_mono hle (heven k q hbefore) (fun _ _ ho => ?_) hc] at hno
            · cases hno
            · exact (placeGroup_optedIn id q).trans ho
          · exact hk (hone k id q pg hbefore hp)

theorem tryPlace_tried (env : Env) (hw : Queue st) : Tried cfg ops (tryPlace cfg ops env st) := by
  refine foldl_placeGroup_tried hw (env.select_nodup _ _) (fun id hid => ?_) fun id pg hp => .inl ?_
  · obtain ⟨pg, hget, hst⟩ := Env.mem_select.mp hid
    exact ⟨pg, hget, by simpa using hst⟩
  · exact Env.mem_select.mpr ⟨pg, hp.1, by simp [hp.2]⟩

end Try

theorem not_holds_of_removed {p : PgInfo} {a : AgentId} {g : Nat} (h : p.state = .removed) :
    ¬ p.Holds a g := fun hh => hh.1 h

theorem not_holds_of_unplaced {p : PgInfo} {a : AgentId} {g : Nat} (h : p.placed = []) :
    ¬ p.Holds a g := by
  rintro ⟨-, b, hb, -⟩
  rw [h] at hb
  cases hb

/-! ## The sections that try -/

variable {cfg : Cfg} {ops : ClaimOps} {env : Env} {st st' : State}

theorem Calm.of_held (hq : Quiet st st') (hf : Fewer st st')
    (hheld : ∀ a g, st'.Held a g ↔ st.Held a g) : Calm cfg ops st st' :=
  .of_ground hf fun _ pg _ => hq.ground_eq hheld pg

theorem markActorDead_fewer (x : ActorId) (reason : String) :
    Fewer st (markActorDead cfg ops env st x reason) := by
  unfold markActorDead
  split
  · exact Fewer.trans (.of_eq rfl) (tryPlace_fewer env)
  · split
    · exact .refl st
    · exact Fewer.trans (.of_eq rfl) (tryPlace_fewer env)

/-! ## What is held, in a few sections -/

/-- A new actor has the devices of its bundle, which were held already. -/
theorem putSpawning_held {r : ActorCreate} {bundle : BundleAssignment} {agent : AgentInfo}
    {ip : Option String} (hc : createTarget st r = .ok (bundle, agent, ip))
    (hf : st.actors.has r.actorId = false) (a : AgentId) (g : Nat) :
    (putSpawning st r bundle).Held a g ↔ st.Held a g := by
  obtain ⟨pg, hpg, hb, hst⟩ := createTarget_bundle hc
  constructor
  · rintro (hheld | ⟨k, x, hk, hh⟩)
    · exact .inl hheld
    · rcases Table.get_set_some hk with ⟨-, rfl⟩ | ⟨-, hk⟩
      · obtain ⟨-, rfl, hg⟩ := hh
        exact .inl ⟨r.pgId, pg, hpg, hst, bundle, hb, rfl, hg⟩
      · exact .inr ⟨k, x, hk, hh⟩
  · rintro (hheld | ⟨k, x, hk, hh⟩)
    · exact .inl hheld
    · refine .inr ⟨k, x, (Table.get_set_of_ne ?_).trans hk, hh⟩
      rintro rfl
      rw [Table.has_eq_false, hk] at hf
      cases hf

/-- A call changes what is held for an actor, not what the actor holds. -/
theorem actorCall_held (env : Env) (st : State) (r : ActorCall) (a : AgentId) (g : Nat) :
    (actorCall env st r).1.Held a g ↔ st.Held a g := by
  have hhold : ∀ (s : State) (rid : RefId), (holdCall s r rid).Held a g ↔ s.Held a g := by
    intro s rid
    refine State.held_of_actors_map (f := fun k x => if k = r.actorId then { x with
      queuedCalls := x.queuedCalls ++ [(rid, r.method, r.payload)] } else x) (by rfl) (by rfl)
      (fun k x a g => ?_) a g
    split <;> rfl
  unfold actorCall
  simp only
  split
  · rfl
  · simp only
    split
    · rfl
    · split
      · split
        · rfl
        · exact hhold _ _
      · split
        · exact hhold _ _
        · rfl

/-- It changes no group, and publishes nothing. -/
theorem actorCall_pgs (env : Env) (st : State) (r : ActorCall) :
    (actorCall env st r).1.pgs = st.pgs := by
  unfold actorCall
  simp only
  split
  · rfl
  · split
    · rfl
    · split <;> split <;> rfl

theorem notePid_held (st : State) (x : ActorId) (pid : Nat) (a : AgentId) (g : Nat) :
    (notePid st x pid).Held a g ↔ st.Held a g := by
  unfold notePid
  split
  · rfl
  · refine State.held_of_actors_map
      (f := fun k a => if k = x then { a with pid := some pid } else a) (by rfl) (by rfl)
      (fun k a b g => ?_) a g
    split <;> rfl

/-- An actor that starts to run holds what it held. -/
theorem start_held (st : State) (x : ActorId) (events : List Event) (a : AgentId) (g : Nat) :
    State.Held { st with
      actors := st.actors.modify x fun a =>
        if a.state = .spawning then { a with state := .running } else a
      events := events } a g ↔ st.Held a g := by
  refine State.held_of_actors_map (f := fun k a => if k = x then
    (if a.state = .spawning then { a with state := .running } else a) else a) (by rfl) (by rfl)
    (fun k a b g => ?_) a g
  split
  · split
    · next hs => simp [ActorInfo.Holds, hs, ActorState.isDead]
    · rfl
  · rfl

/-- What the history sweep drops was not in use. -/
theorem sweepHistory_held (cfg : Cfg) (env : Env) (st : State) (a : AgentId) (g : Nat) :
    (sweepHistory cfg env st).Held a g ↔ st.Held a g := by
  rcases sweepHistory_frame cfg env st with he | ⟨e, he⟩
  · rw [he]
  · rw [he]
    refine or_congr (exists_congr fun k => exists_congr fun p => ?_)
      (exists_congr fun k => exists_congr fun x => ?_)
    · simp only [Table.get_filter, Option.filter_eq_some_iff, Bool.not_eq_true']
      refine ⟨fun hp => ⟨hp.1.1, hp.2⟩, fun hp => ⟨⟨hp.1, Bool.eq_false_iff.mpr fun hgone => ?_⟩, hp.2⟩⟩
      simp only [gonePg, Bool.and_eq_true, beq_iff_eq] at hgone
      exact not_holds_of_removed hgone.1.1 hp.2
    · simp only [Table.get_filter, Option.filter_eq_some_iff, Bool.not_eq_true']
      refine ⟨fun hx => ⟨hx.1.1, hx.2⟩, fun hx => ⟨⟨hx.1, Bool.eq_false_iff.mpr fun hgone => ?_⟩, hx.2⟩⟩
      have hlive := hx.2.1
      rw [(goneActor_dead cfg st hgone).1] at hlive
      cases hlive

namespace Tried

theorem tryPlace_of_fewer (h : Tried cfg ops st) (hf : Fewer st st') :
    Tried cfg ops (tryPlace cfg ops env st') :=
  tryPlace_tried env (hf.queue h.queue)

theorem markActorDead (h : Tried cfg ops st) (x : ActorId) (reason : String) :
    Tried cfg ops (markActorDead cfg ops env st x reason) := by
  unfold Mentat.markActorDead
  split
  · exact h.tryPlace_of_fewer (.of_eq rfl)
  · split
    · exact h
    · exact h.tryPlace_of_fewer (.of_eq rfl)

theorem killActor (h : Tried cfg ops st) (x : ActorId) :
    Tried cfg ops (killActor cfg ops env st x) := by
  rcases killActor_cases cfg ops env st x with he | ⟨_, _, _, _, _, he⟩ | ⟨_, _, _, _, he⟩
  · rw [he]
    exact h
  · rw [he]
    exact h.calm (.of_ground (.of_eq rfl) fun _ _ _ => rfl)
  · rw [he]
    exact h.markActorDead x _

theorem pgRemove (h : Tried cfg ops st) (id : PgId) :
    Tried cfg ops (pgRemove cfg ops env st id) := by
  have hf : ∀ events, Fewer st { st with pgs := st.pgs.modify id (·.remove env.now), events := events } :=
    fun _ => .of_modify rfl fun _ hp => by cases hp
  unfold Mentat.pgRemove
  simp only
  split
  · exact h.tryPlace_of_fewer (hf _)
  · exact h.tryPlace_of_fewer (hf _)

theorem register (h : Tried cfg ops st) (w : FrameWriter) (r : AgentRegister) :
    Tried cfg ops (register cfg ops env st w r) := by
  rw [register_eq]
  refine h.tryPlace_of_fewer ?_
  have hadopt : Fewer st (adoptRefs env (adoptActors (insertAgent st w r) r) r) := by
    obtain ⟨refs, n, he⟩ := adoptRefs_frame env (adoptActors (insertAgent st w r) r) r
    refine .of_eq ?_
    rw [he]
    unfold adoptActors
    simp only
    split <;> rfl
  have hbury : Fewer st (buryMissing cfg ops env
      (adoptRefs env (adoptActors (insertAgent st w r) r) r) r) :=
    buryAll_keeps cfg ops env _ (I := Fewer st)
      (fun s x reason hs => hs.trans (markActorDead_fewer x reason)) hadopt _ _
  exact hbury.trans (.of_eq rfl)

/-- The new group is the only one that waits, or all of them are even. -/
theorem pgCreate (h : Tried cfg ops st) {r : PgCreate}
    (hr : (∀ id pg, ¬ Pending st id pg) ∨ (evenBundles r.bundles = true ∧
      ∀ id pg, Pending st id pg → evenBundles pg.bundles = true)) :
    Tried cfg ops (pgCreate cfg ops env st r) := by
  refine tryPlace_tried env ?_
  have hnew : ∀ {id : PgId} {pg : PgInfo}, (st.pgs.set r.pgId (newPg env st r)).get id = some pg →
      pg.state = .pending → (id = r.pgId ∧ pg = newPg env st r) ∨ Pending st id pg := by
    intro id pg hget hst
    rcases Table.get_set_some hget with hid | ⟨-, hget⟩
    · exact .inl hid
    · exact .inr ⟨hget, hst⟩
  constructor
  · rintro id pg ⟨hget, hst⟩
    rcases hnew hget hst with ⟨-, rfl⟩ | hp
    · simp [PgInfo.placed, newPg]
    · exact h.queue.unplaced hp
  · rcases hr with hnone | ⟨heven, hall⟩
    · refine .inr ?_
      rintro id id' pg pg' ⟨hget, hst⟩ ⟨hget', hst'⟩
      rcases hnew hget hst with ⟨rfl, -⟩ | hp
      · rcases hnew hget' hst' with ⟨rfl, -⟩ | hp'
        · rfl
        · exact absurd hp' (hnone _ _)
      · exact absurd hp (hnone _ _)
    · refine .inl ?_
      rintro id pg ⟨hget, hst⟩
      rcases hnew hget hst with ⟨-, rfl⟩ | hp
      · exact heven
      · exact hall id pg hp

theorem createActor (h : Tried cfg ops st) {r : ActorCreate} (hf : st.actors.has r.actorId = false) :
    Tried cfg ops (createActor cfg ops env st r).1 := by
  unfold Mentat.createActor
  split
  · exact h
  · next bundle agent ip hc =>
    have hput : Tried cfg ops (putSpawning st r bundle) :=
      h.calm (.of_held (Eq.refl st.registry) (.of_eq rfl) (putSpawning_held hc hf))
    simp only
    split
    · exact hput.calm (.of_ground (.of_eq rfl) fun _ _ _ => rfl)
    · exact hput.markActorDead _ _

theorem actorCall (h : Tried cfg ops st) (r : ActorCall) :
    Tried cfg ops (actorCall env st r).1 :=
  h.calm (.of_held (actorCall_quiet env st r) (.of_eq (actorCall_pgs env st r))
    (actorCall_held env st r))

theorem spawnResult (h : Tried cfg ops st) (x : ActorId) (ok : Bool) (error : String) (pid : Nat) :
    Tried cfg ops (spawnResult cfg ops env st x ok error pid) := by
  have hnote : Tried cfg ops (notePid st x pid) := by
    refine h.calm (.of_held ?_ (.of_eq ?_) (notePid_held st x pid))
    all_goals
      unfold notePid
      split <;> rfl
  unfold Mentat.spawnResult
  simp only
  generalize notePid st x pid = st at hnote
  split
  · have hstart : ∀ events, Tried cfg ops { st with
        actors := st.actors.modify x fun a =>
          if a.state = .spawning then { a with state := .running } else a
        events := events } := fun events =>
      hnote.calm (.of_held (Eq.refl st.registry) (.of_eq rfl) (start_held st x events))
    split
    · exact hstart _
    · exact hstart _
  · exact hnote.markActorDead x _

theorem serviceNote (h : Tried cfg ops st) (id : AgentId) (service note : String) :
    Tried cfg ops (serviceNote st id service note) := by
  have hcalm : ∀ events, Calm cfg ops st { st with
      agents := st.agents.modify id fun a =>
        { a with services := a.services.modify service fun s => { s with note } }
      events := events } := by
    refine fun events => .of_ground (.of_eq rfl) fun _ pg _ =>
      ground_of_agents_map events (fun k a _ => ?_) fun k a _ _ _ => ?_
    · split <;> rfl
    · split <;> exact ⟨rfl, rfl, rfl⟩
  unfold Mentat.serviceNote
  simp only
  split
  · exact h.calm (hcalm _)
  · exact h.calm (hcalm _)

theorem agentFrame (h : Tried cfg ops st) (id : AgentId) (msg : FromAgent) :
    Tried cfg ops (agentFrame cfg ops env st id msg) := by
  cases msg with
  | spawnResult x ok error pid => exact h.spawnResult x ok error pid
  | result ref ok error payload => exact h.calm (.of_ground (.of_eq rfl) fun _ _ _ => rfl)
  | exit x exitCode signal => exact h.markActorDead x _
  | serviceNote service note => exact h.serviceNote id service note

/-- A group that has waited too long held nothing. -/
theorem timeOutPg (h : Tried cfg ops st) {id : PgId} {pg : PgInfo} (hp : Pending st id pg) :
    Tried cfg ops (timeOutPg env st id) := by
  unfold Mentat.timeOutPg
  rw [hp.1]
  refine h.calm (.of_held (Eq.refl st.registry) (.of_modify rfl fun _ hr => by cases hr)
    (State.held_of_map rfl rfl fun k p hk a g => ?_))
  split
  · next he =>
    subst he
    cases hp.1.symm.trans hk
    exact iff_of_false (not_holds_of_removed rfl) (not_holds_of_unplaced (h.queue.unplaced hp))
  · rfl

theorem timeOutPgs (h : Tried cfg ops st) : Tried cfg ops (timeOutPgs cfg env st) := by
  have hfold : ∀ (ids : List PgId) (s : State), Tried cfg ops s → ids.Nodup →
      (∀ id ∈ ids, ∃ pg, Pending s id pg) → Tried cfg ops (ids.foldl (Mentat.timeOutPg env) s) := by
    intro ids
    induction ids with
    | nil => exact fun s hs _ _ => hs
    | cons id ids ih =>
      intro s hs hnd hids
      obtain ⟨hid, hnd⟩ := List.nodup_cons.mp hnd
      obtain ⟨pg, hp⟩ := hids id List.mem_cons_self
      refine ih _ (hs.timeOutPg hp) hnd fun k hk => ?_
      obtain ⟨q, hq⟩ := hids k (List.mem_cons_of_mem id hk)
      refine ⟨q, ?_, hq.2⟩
      have hne : k ≠ id := fun he => hid (he ▸ hk)
      unfold Mentat.timeOutPg
      rw [hp.1]
      exact (Table.get_modify_of_ne hne).trans hq.1
  unfold Mentat.timeOutPgs
  refine hfold _ _ (h.calm (.of_ground (.of_eq rfl) fun _ _ _ => rfl)) (env.select_nodup _ _) ?_
  intro id hid
  obtain ⟨pg, hget, hst⟩ := Env.mem_select.mp hid
  simp only [pgTimedOut, Bool.and_eq_true, beq_iff_eq] at hst
  exact ⟨pg, hget, hst.1⟩

theorem sweepAgents (h : Tried cfg ops st) : Tried cfg ops (sweepAgents cfg ops env st) := by
  obtain ⟨e, hd⟩ := degradeLate_frame cfg env st
  refine sweepAgents_keeps cfg ops env st
    (fun s e hs => hs.calm (.of_ground (.of_eq rfl) fun _ _ _ => rfl))
    (fun s x why hs => hs.markActorDead x why) ?_
  rw [hd]
  refine h.calm (.of_ground (.of_eq rfl) fun _ pg _ =>
    ground_of_agents_map e (fun k a _ => ?_) fun k a _ _ _ => ?_)
  · unfold AgentInfo.window
    split
    · rfl
    · split <;> rfl
  · unfold AgentInfo.window
    split
    · exact ⟨rfl, rfl, rfl⟩
    · split <;> exact ⟨rfl, rfl, rfl⟩

theorem sweepHistory (h : Tried cfg ops st) : Tried cfg ops (sweepHistory cfg env st) := by
  rcases sweepHistory_frame cfg env st with he | ⟨e, he⟩
  · rw [he]
    exact h
  have hheld := sweepHistory_held cfg env st
  have hagent : ∀ {id : AgentId} {a : AgentInfo}, a.alive = true →
      goneAgent cfg env.now st id a = false := by
    intro id a hl
    simp [goneAgent, hl]
  refine h.calm (.of_ground (fun id pg hp => ?_) fun _ pg _ => ground_congr ?_ (funext fun id => ?_)
    ?_ (fun _ => ?_) ?_)
  · obtain ⟨hget, hst⟩ := hp
    rw [he] at hget
    simp only [Table.get_filter, Option.filter_eq_some_iff] at hget
    exact ⟨pg, ⟨hget.1, hst⟩, rfl, rfl⟩
  · rw [he, groupAgents, Table.rows_filter, List.filter_filter, groupAgents]
    congr 1
    refine List.filter_congr fun r _ => ?_
    cases hl : r.2.alive with
    | false => simp [hl]
    | true => simp [hagent hl]
  · refine le_antisymm (liveFree_le (fun k a ha hl hg => ?_) (fun a g => (hheld a g).mpr) id)
      (liveFree_le (fun k a ha hl hg => ?_) (fun a g => (hheld a g).mp) id)
    · rw [he] at ha
      simp only [Table.get_filter, Option.filter_eq_some_iff] at ha
      exact ⟨a, ha.1, hl, hg, rfl⟩
    · refine ⟨a, ?_, hl, hg, rfl⟩
      rw [he]
      simp only [Table.get_filter, Option.filter_eq_some_iff]
      exact ⟨ha, by simp [hagent hl]⟩
  · rw [he]
    rfl
  · rw [he]
    rfl
  · rw [he]

theorem sweepLifecycle (h : Tried cfg ops st) : Tried cfg ops (sweepLifecycle cfg ops env st) :=
  (timeOutPgs h).sweepAgents.sweepHistory

/-- A daemon that another replaces has no group pending. -/
theorem elect (h : Tried cfg ops st) (candidate : NodeId) :
    Tried cfg ops (elect env st candidate) := by
  rcases elect_frame env st candidate with ⟨_, _, _, -, he⟩ | ⟨_, _, _, -, he⟩
  · rw [he]
    exact h.calm (.of_ground (.of_eq rfl) fun _ _ _ => rfl)
  · refine .of_none ?_
    rintro id pg ⟨hget, hst⟩
    rw [he] at hget
    simp only [Table.get_map, Option.map_eq_some_iff] at hget
    obtain ⟨p, -, rfl⟩ := hget
    unfold PgInfo.move at hst
    split at hst
    · next hr =>
      rw [hr] at hst
      cases hst
    · cases hst

end Tried

/-! ## The sections that do not try -/

/-- Where the driver is may decide whether the group is placed. -/
def driverBound (ops : ClaimOps) (st : State) (pg : PgInfo) : Bool :=
  !evenBundles pg.bundles ||
    (pg.claim != "" && (claimOrder ops st pg.group pg.claim "").isSome)

/-- A claim orders its nodes whoever asks. -/
theorem claimOrder_isSome (ops : ClaimOps) (st : State) (group claim : String) (n n' : NodeId) :
    (claimOrder ops st group claim n).isSome = (claimOrder ops st group claim n').isSome := by
  unfold claimOrder
  cases st.claims.get (group, claim) with
  | none => rfl
  | some c =>
    simp only [Option.bind_eq_bind, Option.bind_some]
    cases (ops.parse c.shape).toOption with
    | none => rfl
    | some req =>
      simp only [Option.bind_some]
      split
      · split
        · rfl
        · next set _ _ =>
          cases ((c.view.idx "sets").idx set.name).asArray <;> rfl
      · rfl

/-- A driver's row changes: nothing does that placement reads but where the driver is. -/
theorem Calm.of_driver {clients : Table ClientId ClientInfo} {links : List (ClientId × FrameWriter)}
    {events : List Event}
    (hst : st' = { st with clients := clients, clientLinks := links, events := events })
    (h : ∀ id pg, Pending st id pg →
      driverNodeOf st' pg = driverNodeOf st pg ∨ driverBound ops st pg = false) :
    Calm cfg ops st st' where
  fewer := .of_eq (by rw [hst])
  places {id pg} hp hc := by
    have hpend : Pending st id pg := by rwa [Pending, hst] at hp
    rcases h id pg hpend with hsame | hfree
    · have hg : st'.ground ops pg = st.ground ops pg := by
        subst hst
        exact ground_congr rfl rfl hsame (fun _ => rfl) rfl
      rwa [canPlace, hg] at hc
    · simp only [driverBound, Bool.or_eq_false_iff, Bool.not_eq_false', Bool.and_eq_false_iff,
        bne_eq_false_iff_eq] at hfree
      obtain ⟨heven, hranks⟩ := hfree
      have hnone : ∀ n, (if pg.claim = "" then none
          else claimOrder ops st pg.group pg.claim n) = none := by
        intro n
        split
        · rfl
        · next hne =>
          rw [← Option.isNone_iff_eq_none, ← Option.isSome_eq_false_iff,
            claimOrder_isSome ops st pg.group pg.claim n ""]
          exact hranks.resolve_left hne
      have hle : (st'.ground ops pg).Le (st.ground ops pg) := by
        subst hst
        refine ⟨List.Subset.refl _, fun _ => le_rfl, ?_, rfl, rfl⟩
        exact (hnone _).trans (hnone _).symm
      refine Ground.places_mono hle heven (fun _ _ ho => ?_) hc
      subst hst
      exact ho

/-- Some pending group passes the test. -/
def pendingIn (st : State) (p : PgInfo → Bool) : Bool :=
  st.pgs.values.any fun pg => pg.state == .pending && p pg

theorem pendingIn_eq_false {p : PgInfo → Bool} (h : pendingIn st p = false) {id : PgId} {pg : PgInfo}
    (hp : Pending st id pg) : p pg = false := by
  have := List.any_eq_false.mp h pg (Table.mem_values.mpr ⟨id, hp.1⟩)
  simpa [hp.2] using this

/-- Losing the agent leaves the islands the group may use: it is not bound to one, or another live
agent of the group keeps it bound. -/
def keepsIslands (cfg : Cfg) (st : State) (id : AgentId) (a : AgentInfo) (pg : PgInfo) : Bool :=
  pg.claim != "" || pg.bundles.length < 2 || !cfg.islandPlacement ||
    decide (a.nodeId ∉ st.fabrics.tagged) || (st.agents.erase id).values.any fun b =>
      b.alive && b.group == a.group && decide (b.nodeId ∈ st.fabrics.tagged)

/-- The request may solve a claim: this daemon is head, nobody holds the name, and the nodes it asks
for are there. -/
def mayGrant (ops : ClaimOps) (st : State) (client : ClientId) (name : String) (shape : Value) : Bool :=
  st.headNodeId == st.nodeId && !st.claims.has (clientGroup st client, name) &&
    (ops.parse shape).toOption.any fun req => (ops.solve st req).toOption.isSome

/-- The section cannot make a pending group placeable without trying it:

* it solves no claim that a pending group names,
* it changes the row of no driver whose pending group depends on where the driver is,
* it reaps no driver that has groups in place while another driver's group is pending,
* with an agent's link it takes no node that made the islands matter, and the pending groups of that
  agent's group have bundles of one size,
* it adds a group while others are pending only if all of them have bundles of one size. -/
def Section.tries (cfg : Cfg) (ops : ClaimOps) (st : State) : Section → Bool
  | .claim client name shape => !mayGrant ops st client name shape ||
      !pendingIn st fun p => p.group == clientGroup st client && p.claim == name
  | .hello _ h => st.clients.has h.clientId || (h.session && duplicateSession st h.group h.clientId) ||
      !pendingIn st fun p => p.owner == h.clientId && driverBound ops st p
  | .dropRow client moved => !((st.clients.get client).any fun c => !c.hasSession || moved) ||
      !pendingIn st fun p => p.owner == client && driverBound ops st p
  | .reapRow client => !pendingIn st fun p => p.owner == client && driverBound ops st p
  | .reapCheck client _ token => (token.isSome && st.reapPending.get client != token) ||
      (st.clients.get client).any (·.hasSession) ||
      !(st.pgs.values.any fun p => p.owner == client && p.state == .created) ||
      !pendingIn st fun p => p.owner != client
  | .agentEof id w => (st.agents.get id).all fun a => a.writer != w || !a.alive ||
      !pendingIn st fun p => p.group == a.group &&
        !(evenBundles p.bundles && keepsIslands cfg st id a p)
  | .pgCreate r => !pendingIn st (fun _ => true) ||
      (evenBundles r.bundles && !pendingIn st fun p => !evenBundles p.bundles)
  | _ => true

/-- A claim that nobody holds places nothing. -/
theorem canPlace_unheld {pg : PgInfo} (hne : pg.claim ≠ "")
    (h : st.claims.get (pg.group, pg.claim) = none) : canPlace cfg ops st pg = false := by
  simp [canPlace, Ground.places, Ground.inScope, State.ground, claimOrder, h, hne]

/-- A reap takes the driver's groups, and the claims it was the last to hold. If it had groups in
place, nobody else was waiting. -/
theorem Calm.of_reap {client : ClientId} {now : Nat} (hw : Queue st)
    (hpgs : st'.pgs = st.pgs.map fun _ p => p.reap client now) (hactors : st'.actors = st.actors)
    (hagents : st'.agents = st.agents) (hclients : st'.clients = st.clients)
    (hfabrics : st'.fabrics = st.fabrics)
    (hclaims : ∀ k, st'.claims.get k = none ∨
      ∃ c, st'.claims.get k = some c ∧ some (c.shape, c.view) = claimFacts st k)
    (hnone : (st.pgs.values.any fun p => p.owner == client && p.state == .created) = false ∨
      (pendingIn st fun p => p.owner != client) = false) : Calm cfg ops st st' := by
  have hfewer : Fewer st st' := by
    refine .of_map hpgs fun id pg hp => ?_
    unfold PgInfo.reap at hp ⊢
    split at hp
    · cases hp
    · next hkeep =>
      rw [if_neg hkeep]
      exact ⟨hp, rfl, rfl⟩
  refine ⟨hfewer, fun {id pg} hp hc => ?_⟩
  obtain ⟨q, hq, hasked, -⟩ := hfewer id pg hp
  have howner : q.owner ≠ client := by
    intro ho
    obtain ⟨hget, hst⟩ := hp
    rw [hpgs, Table.get_map, hq.1, Option.map_some, Option.some.injEq] at hget
    rw [← hget, PgInfo.reap, if_pos ⟨ho, by rw [hq.2]; simp⟩] at hst
    cases hst
  have hplaced := hnone.resolve_right fun hno => by
    have := pendingIn_eq_false hno hq
    simp [howner] at this
  have hheld : ∀ a g, st'.Held a g ↔ st.Held a g := by
    refine State.held_of_map hpgs hactors fun k p hk a g => ?_
    unfold PgInfo.reap
    split
    · next hgo =>
      -- The driver's group was pending, so it held nothing.
      have hnot := List.any_eq_false.mp hplaced p (Table.mem_values.mpr ⟨k, hk⟩)
      refine iff_of_false (not_holds_of_removed rfl) (not_holds_of_unplaced (hw.unplaced ⟨hk, ?_⟩))
      cases hs : p.state with
      | pending => rfl
      | created => simp [hgo.1, hs] at hnot
      | removed => exact absurd hs hgo.2
    · rfl
  rcases hclaims (pg.group, pg.claim) with hgone | ⟨c, hget, hfacts⟩
  · by_cases hclaim : pg.claim = ""
    · rwa [canPlace, ground_of_held hagents hheld (by rw [driverNodeOf, hclients, driverNodeOf])
        (fun hne => absurd hclaim hne) hfabrics] at hc
    · rw [canPlace_unheld hclaim hgone] at hc
      cases hc
  · rwa [canPlace, ground_of_held hagents hheld (by rw [driverNodeOf, hclients, driverNodeOf])
      (fun _ => by rw [claimFacts, hget, Option.map_some, hfacts]) hfabrics] at hc

namespace Tried

theorem hello (h : Tried cfg ops st) {w : FrameWriter} {hi : Hello}
    (ht : (Section.hello w hi).tries cfg ops st = true) :
    Tried cfg ops (exec cfg ops env st (.hello w hi)) := by
  cases hh : Mentat.hello env st w hi with
  | none => rwa [exec_hello_none _ _ _ hh]
  | some p =>
    obtain ⟨st', orphans⟩ := p
    rw [exec_hello_some _ _ _ hh]
    obtain ⟨hd, -, e, hst⟩ := hello_eq_some hh
    refine h.calm (.of_driver hst fun id pg hp => ?_)
    simp only [Section.tries, hd, Bool.or_false, Bool.or_eq_true, Bool.not_eq_true'] at ht
    by_cases howner : pg.owner = hi.clientId
    · rcases ht with hrow | hno
      · obtain ⟨row, hrow⟩ := Table.has_iff.mp hrow
        refine .inl ?_
        simp [hst, driverNodeOf, howner, helloRow, hrow]
      · exact .inr (by simpa [howner] using pendingIn_eq_false hno hp)
    · refine .inl ?_
      rw [hst, driverNodeOf, driverNodeOf, Table.get_set_of_ne howner]

/-- The row of a driver goes that no pending group depends on. -/
theorem eraseRow (h : Tried cfg ops st) {client : ClientId} (events : List Event)
    (hno : (pendingIn st fun p => p.owner == client && driverBound ops st p) = false) :
    Tried cfg ops { st with clients := st.clients.erase client, events := events } := by
  refine h.calm (.of_driver rfl fun id pg hp => ?_)
  by_cases howner : pg.owner = client
  · exact .inr (by simpa [howner] using pendingIn_eq_false hno hp)
  · refine .inl ?_
    simp only [driverNodeOf, Table.get_erase, if_neg howner]

theorem dropRow (h : Tried cfg ops st) {client : ClientId} {moved : Bool}
    (ht : (Section.dropRow client moved).tries cfg ops st = true) :
    Tried cfg ops (dropRow st client moved) := by
  unfold Mentat.dropRow
  split
  · next hgo =>
    simp only [Section.tries, hgo, Bool.not_true, Bool.false_or, Bool.not_eq_true'] at ht
    exact h.eraseRow st.events ht
  · exact h

theorem claim (h : Tried cfg ops st) {client : ClientId} {name : String} {shape : Value}
    (ht : (Section.claim client name shape).tries cfg ops st = true) :
    Tried cfg ops (claim ops st client name shape).1 := by
  rcases claim_cases ops st client name shape with ⟨he, -⟩ | ⟨c, hc, -, he, -⟩ |
    ⟨hnone, hhead, req, view, e, hreq, hview, he, -⟩
  · rw [he]
    exact h
  · rw [he]
    refine h.calm (.of_ground (.of_eq rfl) fun _ pg _ => ground_congr rfl rfl rfl (fun _ => ?_) rfl)
    simp only [claimFacts, Table.get_modify]
    split
    · rw [Option.map_map]
      rfl
    · rfl
  · rw [he]
    refine h.calm (.of_ground (.of_eq rfl) fun id pg hp => ground_congr rfl rfl rfl (fun _ => ?_) rfl)
    have hgrant : mayGrant ops st client name shape = true := by
      simp [mayGrant, hhead, Table.has_eq_false.mpr hnone, hreq, hview, Except.toOption]
    simp only [Section.tries, hgrant, Bool.not_true, Bool.false_or, Bool.not_eq_true'] at ht
    have hne : (pg.group, pg.claim) ≠ (clientGroup st client, name) := by
      intro hkey
      obtain ⟨hg, hn⟩ := Prod.mk.inj hkey
      have := pendingIn_eq_false ht hp
      simp [hg, hn] at this
    rw [claimFacts, Table.get_set_of_ne hne, claimFacts]

theorem reapCheck (h : Tried cfg ops st) {client : ClientId} {group : String} {token : Option Nat}
    (ht : (Section.reapCheck client group token).tries cfg ops st = true) :
    Tried cfg ops (reapCheck env st client group token).1 := by
  rcases reapCheck_cases env st client group token with ⟨-, he⟩ | ⟨-, -, he⟩ | ⟨htok, hno, he⟩
  · rw [he]
    exact h
  · rw [he]
    exact h.calm (.of_ground (.of_eq rfl) fun _ _ _ => rfl)
  obtain ⟨-, e, htake⟩ := reapTake_spec env st client group
  rw [he, htake]
  have hstop : (token.isSome && st.reapPending.get client != token) = false := by
    refine Bool.eq_false_iff.mpr fun hc => ?_
    obtain ⟨t, hsome, hne⟩ := (reapCheck_timers st client token).mp hc
    exact hne (htok t hsome)
  simp only [Section.tries, hstop, hno, Bool.false_or, Bool.or_eq_true, Bool.not_eq_true'] at ht
  refine h.calm (.of_reap h.queue rfl rfl rfl rfl rfl (fun k => ?_) ht)
  rw [releaseAll_get]
  cases hk : st.claims.get k with
  | none => exact .inl rfl
  | some c =>
    simp only [Option.bind_some, ClaimInfo.without]
    split
    · exact .inl rfl
    · exact .inr ⟨_, rfl, by rw [claimFacts, hk]; rfl⟩

/-- A group that is placed without an agent could be placed with it. -/
theorem loseAgent_places {id : AgentId} {a : AgentInfo} {now : Nat} {events : List Event}
    {pg : PgInfo} (ha : st.agents.get id = some a)
    (hst : st' = { st with agents := st.agents.modify id (·.lose now), events := events })
    (hok : a.alive = true → a.group = pg.group →
      evenBundles pg.bundles = true ∧ keepsIslands cfg st id a pg = true)
    (hc : canPlace cfg ops st' pg = true) : canPlace cfg ops st pg = true := by
  by_cases huses : a.alive = true ∧ a.group = pg.group
  · have hlive : ∀ k b, st'.agents.get k = some b → b.alive = true → st.agents.get k = some b := by
      intro k b hk hl
      rw [hst, Table.get_modify] at hk
      split at hk
      · obtain ⟨c, -, rfl⟩ := Option.map_eq_some_iff.mp hk
        cases hl
      · exact hk
    have hstays : ∀ k b, k ≠ id → st.agents.get k = some b → st'.agents.get k = some b := by
      intro k b hne hk
      rw [hst, Table.get_modify_of_ne hne, hk]
    have hle : (st'.ground ops pg).Le (st.ground ops pg) := by
      refine ground_le ?_ (liveFree_le (fun k b hk hl hg => ⟨b, hlive k b hk hl, hl, hg, rfl⟩) ?_)
        (by rw [hst]; rfl) (by rw [hst]) (by rw [hst])
      · rintro ⟨k, n, seq⟩ hmem
        obtain ⟨b, hb, hl, hrest⟩ := mem_groupAgents.mp hmem
        exact mem_groupAgents.mpr ⟨b, hlive k b hb hl, hl, hrest⟩
      · rw [hst]
        exact fun _ _ hh => hh
    have hfabrics : st'.fabrics = st.fabrics := by rw [hst]
    obtain ⟨heven, hislands⟩ := hok huses.1 huses.2
    refine Ground.places_mono hle heven (fun hclaim hlen ho => ?_) hc
    simp only [Ground.optedIn, Bool.and_eq_true, List.any_eq_true, decide_eq_true_eq] at ho ⊢
    obtain ⟨hcfg, ⟨k, n, seq⟩, hmem, htag⟩ := ho
    refine ⟨hcfg, ?_⟩
    obtain ⟨b, hb, hl, hg, rfl, rfl⟩ := mem_groupAgents.mp hmem
    simp only [keepsIslands, hclaim, hcfg, bne_self_eq_false, Bool.not_true, Bool.or_false,
      Bool.false_or, Bool.or_eq_true, decide_eq_true_eq, Nat.not_lt.mpr hlen, false_or,
      List.any_eq_true, Table.mem_values, Bool.and_eq_true, beq_iff_eq] at hislands
    rcases hislands with huntagged | ⟨c, ⟨k', hk'⟩, ⟨hcl, hcg⟩, hctag⟩
    · -- The tagged agent is another one, and stays.
      have hne : k ≠ id := by
        rintro rfl
        cases ha.symm.trans hb
        exact huntagged htag
      exact ⟨(k, b.nodeId, b.seq), mem_groupAgents.mpr ⟨b, hstays k b hne hb, hl, hg, rfl, rfl⟩,
        by rw [State.ground, hfabrics]; exact htag⟩
    · obtain ⟨hne, hget⟩ := Table.get_erase_some hk'
      exact ⟨(k', c.nodeId, c.seq),
        mem_groupAgents.mpr ⟨c, hstays k' c hne hget, hcl, hcg.trans huses.2, rfl, rfl⟩,
        by rw [State.ground, hfabrics]; exact hctag⟩
  · have hsame : st'.ground ops pg = st.ground ops pg := by
      rw [hst]
      refine ground_of_agents_map events (fun k b hb => ?_) fun k b hb hl hg => ?_
      · split
        · next hk =>
          subst hk
          cases ha.symm.trans hb
          have hno : (a.alive && a.group == pg.group) = false := by
            rw [Bool.eq_false_iff, ne_eq, Bool.and_eq_true, beq_iff_eq]
            exact huses
          rw [hno]
          rfl
        · rfl
      · split
        · next hk =>
          subst hk
          cases ha.symm.trans hb
          exact absurd ⟨hl, hg⟩ huses
        · exact ⟨rfl, rfl, rfl⟩
    rwa [canPlace, hsame] at hc

/-- The end of an agent's link takes its GPUs from the groups that could use them. -/
theorem agentEof (h : Tried cfg ops st) {id : AgentId} {w : FrameWriter}
    (ht : (Section.agentEof id w).tries cfg ops st = true) :
    Tried cfg ops (agentEof cfg env st id w) := by
  unfold Mentat.agentEof
  split
  · next hw =>
    obtain ⟨a, ha, hwriter⟩ := (Option.any_eq_true _ _).mp hw
    simp only [Section.tries, ha, Option.all_some, bne, hwriter, Bool.not_true, Bool.false_or] at ht
    refine h.calm ⟨.of_eq rfl, fun {k pg} hp hc => loseAgent_places ha rfl (fun hl hg => ?_) hc⟩
    have hpend : Pending st k pg := hp
    simp only [hl, Bool.not_true, Bool.false_or, Bool.not_eq_true'] at ht
    simpa [hg] using pendingIn_eq_false ht hpend
  · exact h

end Tried

theorem exec_tried {sec : Section} (h : Tried cfg ops st) (hf : sec.fresh st = true)
    (ht : sec.tries cfg ops st = true) : Tried cfg ops (exec cfg ops env st sec) := by
  cases sec with
  | hello w hi => exact h.hello ht
  | claim client name shape => exact h.claim ht
  | pgCreate r =>
    refine h.pgCreate ?_
    simp only [Section.tries, Bool.or_eq_true, Bool.and_eq_true, Bool.not_eq_true'] at ht
    refine ht.imp (fun hnone id pg hp => ?_) (And.imp_right fun hall id pg hp => ?_)
    · cases pendingIn_eq_false hnone hp
    · simpa using pendingIn_eq_false hall hp
  | pgRemove id => exact h.pgRemove id
  | actorCreate r => exact h.createActor (by simpa [Section.fresh] using hf)
  | actorCall r => exact h.actorCall r
  | killActor x => exact h.killActor x
  | dropRow client moved => exact h.dropRow ht
  | reapRow client => exact h.eraseRow _ (by simpa [Section.tries] using ht)
  | reapCheck client group token => exact h.reapCheck ht
  | reapFinish client => exact h.tryPlace_of_fewer (.of_eq rfl)
  | register w r => exact h.register w r
  | agentFrame id msg => exact h.agentFrame id msg
  | agentEof id w => exact h.agentEof ht
  | sweepLifecycle => exact h.sweepLifecycle
  | elect candidate => exact h.elect candidate
  | commitIslands fresh => exact h.tryPlace_of_fewer (.of_eq rfl)
  | _ => exact h.calm (.of_ground (.of_eq rfl) fun _ _ _ => rfl)

/-- In every run whose sections try what they may have made placeable, no group is pending that
would be placed. -/
theorem no_stall (h : (daemon cfg ops).Reach (fun st l => l.2.tries cfg ops st) st) {id : PgId}
    {pg : PgInfo} (hp : st.pgs.get id = some pg) (hs : pg.state = .pending) :
    ∀ x, placementOf cfg ops st pg ≠ .ok x := by
  have htried : Tried cfg ops st := by
    refine h.invariant ?_ ?_
    · rintro s ⟨_, _, _, rfl⟩
      refine .of_none ?_
      rintro id pg ⟨hget, -⟩
      cases hget
    · intro s l s' hset hok hn
      obtain ⟨hf, rfl⟩ := daemon_next cfg ops hn
      exact exec_tried hset hf hok
  exact htried.noStall id pg ⟨hp, hs⟩

/-- A group of three GPUs waits on a cluster of two. -/
def tooLarge : List (Env × Section) :=
  driverUp ++ [(Sample.at_ 3, .pgCreate ⟨"c", "p:1", [3], "PACK", ""⟩)]

theorem no_stall_tooLarge :
    ∃ st pg, (daemon Sample.cfg Sample.claims).Reach
        (fun st l => l.2.tries Sample.cfg Sample.claims st) st ∧
      st.pgs.get "p:1" = some pg ∧ pg.state = .pending ∧
      ∀ x, placementOf Sample.cfg Sample.claims st pg ≠ .ok x := by
  have hrun : ((daemon Sample.cfg Sample.claims).run
      (fun st l => l.2.tries Sample.cfg Sample.claims st) Sample.boot tooLarge).any (fun st =>
        (st.pgs.get "p:1").any fun pg => pg.state == .pending) = true := by decide +kernel
  obtain ⟨st, hreach, hp⟩ := System.Reach.of_run hrun ⟨_, _, _, rfl⟩
  simp only [Option.any_eq_true, beq_iff_eq] at hp
  obtain ⟨pg, hpg, hs⟩ := hp
  exact ⟨st, pg, hreach, hpg, hs, no_stall hreach hpg hs⟩

/-- The driver creates a group inside a claim, and then claims. -/
def claimsLate : List (Env × Section) :=
  driverUp ++ [
    (Sample.at_ 3, .pgCreate ⟨"c", "p:1", [1], "PACK", "job"⟩),
    (Sample.at_ 4, Sample.claim "c" "job")]

/-- The claim is there, and a try would place the group. Nothing tries. -/
theorem claimsLate_stalls :
    ∃ st pg x, (daemon Sample.cfg Sample.claims).Reach System.Free st ∧
      st.pgs.get "p:1" = some pg ∧ pg.state = .pending ∧
      placementOf Sample.cfg Sample.claims st pg = .ok x := by
  have hrun : ((daemon Sample.cfg Sample.claims).run System.Free Sample.boot claimsLate).any (fun st =>
      (st.pgs.get "p:1").any fun pg => pg.state == .pending &&
        (placementOf Sample.cfg Sample.claims st pg).isOk) = true := by decide +kernel
  obtain ⟨st, hreach, hp⟩ := System.Reach.of_run hrun ⟨_, _, _, rfl⟩
  simp only [Option.any_eq_true, Bool.and_eq_true, beq_iff_eq] at hp
  obtain ⟨pg, hpg, hs, hok⟩ := hp
  cases hx : placementOf Sample.cfg Sample.claims st pg with
  | error why =>
    rw [hx] at hok
    cases hok
  | ok x => exact ⟨st, pg, x, hreach, hpg, hs, hx⟩

end Mentat
