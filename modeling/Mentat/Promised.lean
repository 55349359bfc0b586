import Mentat.Capacity
import Mentat.Fence

/-!
# What a solved claim promises

The solver gives bundle `i` to member `i`. A placement inside the claim goes about it anew: a mesh
is filled first fit from the driver's node, a ring is turned and a line reversed to begin there. So a
group that asks for just the bundles of its claim may not fit in it.

* `atTurn`: the state in which a try comes to a group, with the groups before it placed.
* `hasRoom`: what the placement needs there.
* `claim_promised_iff`: a group created inside a claim that has just been solved is placed at once
  exactly when there is room.
-/

namespace Mentat

/-! ## A group's turn -/

section Turn

variable {cfg : Cfg} {ops : ClaimOps} {env : Env} {st : State}

/-- The state in which a try comes to the group. -/
def atTurn (cfg : Cfg) (ops : ClaimOps) (env : Env) (st : State) (id : PgId) : State :=
  ((env.select st.pgs fun _ p => p.state == .pending).takeWhile (· != id)).foldl
    (placeGroup cfg ops) st

theorem foldl_placeGroup_get {ids : List PgId} {id : PgId} (h : id ∉ ids) :
    (ids.foldl (placeGroup cfg ops) st).pgs.get id = st.pgs.get id := by
  induction ids generalizing st with
  | nil => rfl
  | cons k ids ih =>
    obtain ⟨hne, hids⟩ := List.ne_and_not_mem_of_not_mem_cons h
    rw [List.foldl_cons, ih hids, placeGroup_get_ne hne]

theorem atTurn_get (cfg : Cfg) (ops : ClaimOps) (env : Env) (st : State) (id : PgId) :
    (atTurn cfg ops env st id).pgs.get id = st.pgs.get id :=
  foldl_placeGroup_get fun hmem => by simpa using List.mem_takeWhile_imp hmem

theorem atTurn_rules (id : PgId) : (atTurn cfg ops env st id).rules = st.rules :=
  (congrArg State.rules (foldl_placeGroup_sansPgs cfg ops st _) :)

/-- A try places a pending group exactly when it can be placed in its turn. -/
theorem tryPlace_created_iff (cfg : Cfg) (ops : ClaimOps) (env : Env) {id : PgId} {pg : PgInfo}
    (hp : Pending st id pg) :
    (∃ pg', (tryPlace cfg ops env st).pgs.get id = some pg' ∧ pg'.state = .created) ↔
      ∃ x, placementOf cfg ops (atTurn cfg ops env st id) pg = .ok x := by
  have hmem : id ∈ env.select st.pgs fun _ p => p.state == .pending :=
    Env.mem_select.mpr ⟨pg, hp.1, by simp [hp.2]⟩
  have hnd := env.select_nodup st.pgs fun _ p => p.state == .pending
  obtain ⟨before, after, hids⟩ := List.append_of_mem hmem
  rw [hids] at hnd
  have hbefore : id ∉ before := fun hin =>
    (List.nodup_append.mp hnd).2.2 id hin id List.mem_cons_self rfl
  have hafter : id ∉ after := (List.nodup_cons.mp (List.nodup_append.mp hnd).2.1).1
  have hturn : atTurn cfg ops env st id = before.foldl (placeGroup cfg ops) st := by
    have hpass : ∀ k ∈ before, (k != id) = true := by
      intro k hk
      rw [bne_iff_ne]
      rintro rfl
      exact hbefore hk
    rw [atTurn, hids, List.takeWhile_append_of_pos hpass, List.takeWhile_cons_of_neg (by simp),
      List.append_nil]
  have hrow := (atTurn_get cfg ops env st id).trans hp.1
  have htry : (tryPlace cfg ops env st).pgs.get id =
      (placeGroup cfg ops (atTurn cfg ops env st id) id).pgs.get id := by
    rw [tryPlace, hids, List.foldl_append, List.foldl_cons, foldl_placeGroup_get hafter, hturn]
  rw [htry]
  generalize atTurn cfg ops env st id = s at hrow
  cases hpl : placementOf cfg ops s pg with
  | error why =>
    refine iff_of_false ?_ (by simp)
    rintro ⟨pg', hget, hcr⟩
    simp only [placeGroup, hrow, hpl, setPendingReason] at hget
    split at hget
    · rw [hrow] at hget
      cases hget
      rw [hp.2] at hcr
      cases hcr
    · simp only [State.emitPatch, Table.get_modify_self, hrow, Option.map_some,
        Option.some.injEq] at hget
      rw [← hget] at hcr
      exact absurd (hp.2.symm.trans hcr) (by simp)
  | ok x =>
    refine iff_of_true ?_ ⟨x, rfl⟩
    simp only [placeGroup, hrow, hpl, State.emitPatch, Table.get_modify_self, Option.map_some]
    exact ⟨_, rfl, rfl⟩

end Turn

/-! ## Room for the bundles -/

/-- The nodes of a set in the order the ranks take them: a ring from the driver's node on, and a line
from its last node when the driver is there. -/
def turnTo (layout : Layout) (nodes : List NodeId) (driver : NodeId) : List NodeId :=
  match layout with
  | .ring => nodes.rotate (nodes.idxOf driver)
  | .line => if nodes.getLast? = some driver then nodes.reverse else nodes
  | .mesh => nodes

/-- In a ring or a line, every node has an agent of the group with the GPUs of the bundle whose turn
it is. In a mesh every node has an agent of the group, and the bundles are packed first fit on those
agents, the driver's node first and then by registration. A bundle is at least one GPU. -/
def hasRoom (s : State) (group : String) (set : SetReq) (nodes : List NodeId) (driver : NodeId) :
    Prop :=
  if set.layout.ordered then
    List.Forall₂ (fun b n => Serves s group n (max b 1)) set.bundles (turnTo set.layout nodes driver)
  else (∀ n ∈ nodes, Serves s group n 0) ∧
    firstFit ((agentOrder s group (fun a => nodes.contains a.nodeId) (fun a => a.nodeId != driver)).map
      fun id => (s.freeGpusOf id).length) (set.bundles.map (max · 1)) = true

theorem rankedMembers_turnTo {layout : Layout} {members l : List Member} {driver : NodeId}
    (hnd : (members.map (·.node)).Nodup) (h : rankedMembers layout members driver = some l) :
    l.map (·.node) = turnTo layout (members.map (·.node)) driver := by
  cases hf : members.findIdx? (fun m => m.node == driver) with
  | none =>
    have hno : driver ∉ members.map (·.node) := by
      rw [List.mem_map]
      rintro ⟨m, hm, hmd⟩
      simpa [hmd] using List.findIdx?_eq_none_iff.mp hf m hm
    have hl : l = members := by
      unfold rankedMembers at h
      rw [hf] at h
      cases layout <;> exact (Option.some.inj h).symm
    rw [hl]
    cases layout with
    | mesh => rfl
    | ring => rw [turnTo, List.idxOf_eq_length hno, List.rotate_length]
    | line => rw [turnTo, if_neg fun hlast => hno (List.mem_of_getLast? hlast)]
  | some i =>
    obtain ⟨hi, hnode, -⟩ := List.findIdx?_eq_some_iff_getElem.mp hf
    rw [beq_iff_eq] at hnode
    have hat : (members.map (·.node))[i]? = some driver := by
      rw [List.getElem?_map, List.getElem?_eq_getElem hi, Option.map_some, hnode]
    have hlast : (members.map (·.node)).getLast? = some driver ↔ i = members.length - 1 := by
      rw [List.getLast?_eq_getElem?, List.length_map, ← hat]
      refine ⟨fun he => ?_, fun he => by rw [he]⟩
      exact ((List.getElem?_inj (by simp; omega) hnd).mp he).symm
    unfold rankedMembers at h
    rw [hf] at h
    cases layout with
    | mesh =>
      cases h
      rfl
    | ring =>
      cases h
      have hidx : (members.map (·.node)).idxOf driver = i := by
        obtain ⟨hi', he⟩ := List.getElem?_eq_some_iff.mp hat
        rw [← he, hnd.idxOf_getElem]
      rw [turnTo, hidx, List.map_rotate]
    | line =>
      simp only at h
      split at h
      · next hend =>
        cases h
        rw [turnTo, if_pos (hlast.mpr hend.1), List.map_map, ← List.map_reverse]
        rfl
      · next hend =>
        split at h
        · cases h
        · cases h
          rw [turnTo]
          split
          · next he =>
            -- The only node is both the first and the last.
            have hone : members.length = 1 := by
              have := hlast.mp he
              omega
            obtain ⟨m, rfl⟩ := List.length_eq_one_iff.mp hone
            rfl
          · rfl

/-! ## The placement of a group in a solved claim -/

section Room

variable {cfg : Cfg} {ops : ClaimOps} {s : State} {pg : PgInfo} {t : Topology} {c : ClaimInfo}
  {req : Request} {sol : Solution} {set : SetReq} {members : List Member}

theorem serves_ground {n : NodeId} {gpus : Nat} :
    (∃ id ∈ (s.ground ops pg).order (· == n) (fun _ => false), gpus ≤ (s.ground ops pg).free id) ↔
      Serves s pg.group n gpus := by
  constructor
  · rintro ⟨id, hid, hle⟩
    obtain ⟨n', seq, hmem, hn⟩ := Ground.mem_order.mp hid
    obtain ⟨a, ha, hl, hg, rfl, -⟩ := mem_groupAgents.mp hmem
    refine ⟨id, a, ha, hl, hg, by simpa using hn, ?_⟩
    rwa [← liveFree_of_alive ha hl hg]
  · rintro ⟨id, a, ha, hl, hg, rfl, hle⟩
    refine ⟨id, Ground.mem_order.mpr ⟨a.nodeId, a.seq, ?_, beq_self_eq_true _⟩, ?_⟩
    · exact mem_groupAgents.mpr ⟨a, ha, hl, hg, rfl, rfl⟩
    · rw [← liveFree_of_alive ha hl hg] at hle
      exact hle

theorem served_serves {n : NodeId} :
    (s.ground ops pg).served n = true ↔ Serves s pg.group n 0 := by
  rw [Ground.served, List.contains_iff_mem, List.mem_map]
  constructor
  · rintro ⟨⟨id, n, seq⟩, hmem, rfl⟩
    obtain ⟨a, ha, hl, hg, hn, -⟩ := mem_groupAgents.mp hmem
    exact ⟨id, a, ha, hl, hg, hn, Nat.zero_le _⟩
  · rintro ⟨id, a, ha, hl, hg, rfl, -⟩
    exact ⟨(id, a.nodeId, a.seq), mem_groupAgents.mpr ⟨a, ha, hl, hg, rfl, rfl⟩, rfl⟩

/-- Ranks on distinct nodes do not compete. -/
theorem fitsRanks_iff {layout : Layout} {l : List Member} (hnd : (l.map (·.node)).Nodup)
    (bundles : List Nat) :
    (s.ground ops pg).fitsRanks bundles (l.map (rankOf t layout)) = true ↔
      List.Forall₂ (fun b n => Serves s pg.group n (max b 1)) bundles (l.map (·.node)) := by
  rw [Ground.fitsRanks, Bool.and_eq_true, decide_eq_true_eq, List.length_map,
    List.forall₂_map_right_iff, List.forall₂_iff_zip]
  refine and_congr_right fun hlen => ?_
  have hnodes : (bundles.zip (l.map (rankOf t layout))).map (fun r => r.2.1) = l.map (·.node) := by
    calc (bundles.zip (l.map (rankOf t layout))).map (fun r => r.2.1)
      _ = ((bundles.zip (l.map (rankOf t layout))).map Prod.snd).map Prod.fst := by
        rw [List.map_map]
        rfl
      _ = (l.map (rankOf t layout)).map Prod.fst := by
        rw [List.map_snd_zip (by rw [List.length_map]; exact hlen.ge)]
      _ = l.map (·.node) := by
        rw [List.map_map]
        rfl
  have hapart : (bundles.zip (l.map (rankOf t layout))).Pairwise fun r r' =>
      ((s.ground ops pg).order (· == r.2.1) fun _ => false).Disjoint
        ((s.ground ops pg).order (· == r'.2.1) fun _ => false) := by
    rw [← hnodes, List.Nodup, List.pairwise_map] at hnd
    refine hnd.imp fun {r r'} hne id hid hid' => ?_
    obtain ⟨n, seq, hmem, hn⟩ := Ground.mem_order.mp hid
    obtain ⟨n', seq', hmem', hn'⟩ := Ground.mem_order.mp hid'
    rw [beq_iff_eq] at hn hn'
    exact hne (by rw [← hn, ← hn', Ground.node_unique hmem hmem'])
  rw [packs_apart hapart, List.zip_map_right]
  simp only [serves_ground, List.mem_map, forall_exists_index, and_imp]
  constructor
  · intro h b m hbm
    exact h _ (b, m) hbm rfl
  · rintro h _ ⟨b, m⟩ hbm rfl
    exact h hbm

theorem inScope_iff {nodes : List NodeId} (hclaim : pg.claim ≠ "")
    (hget : s.claims.get (pg.group, pg.claim) = some c) (hne : nodes ≠ [])
    (hnodes : ∀ n, n ∈ claimedNodes c.view ↔ n ∈ nodes) :
    (s.ground ops pg).inScope cfg pg.claim pg.bundles = true ↔
      (∀ n ∈ nodes, Serves s pg.group n 0) ∧
        firstFit ((agentOrder s pg.group (fun a => nodes.contains a.nodeId)
          (fun a => a.nodeId != driverNodeOf s pg)).map fun id => (s.freeGpusOf id).length)
          (pg.bundles.map (max · 1)) = true := by
  have hclaimed : (s.ground ops pg).claimed = some (claimedNodes c.view) :=
    (if_neg hclaim).trans (by rw [hget, Option.map_some])
  have hcontains : ∀ n, (claimedNodes c.view).contains n = nodes.contains n := by
    intro n
    rw [Bool.eq_iff_iff, List.contains_iff_mem, List.contains_iff_mem, hnodes]
  have hempty : (claimedNodes c.view).isEmpty = false := by
    obtain ⟨n, hn⟩ := List.exists_mem_of_ne_nil nodes hne
    exact List.isEmpty_eq_false_iff_exists_mem.mpr ⟨n, (hnodes n).mpr hn⟩
  have hfits : (s.ground ops pg).fits pg.bundles (some (claimedNodes c.view)) =
      firstFit ((agentOrder s pg.group (fun a => nodes.contains a.nodeId)
        (fun a => a.nodeId != driverNodeOf s pg)).map fun id => (s.freeGpusOf id).length)
        (pg.bundles.map (max · 1)) := by
    rw [Ground.fits, packs_firstFit (Ground.order_nodup _ _ _),
      agentOrder_ground ops nodes.contains (· != driverNodeOf s pg)]
    simp only [Option.all_some, hcontains]
    congr 1
    refine List.map_congr_left fun id hid => ?_
    obtain ⟨n, seq, hmem, -⟩ := Ground.mem_order.mp hid
    obtain ⟨a, ha, hl, hg, -⟩ := mem_groupAgents.mp hmem
    exact liveFree_of_alive ha hl hg
  rw [Ground.inScope, if_pos hclaim, hclaimed, Option.any_some, hempty, hfits]
  simp only [Bool.not_false, Bool.true_and, Bool.and_eq_true, List.all_eq_true, served_serves, hnodes]

/-- A group that asks for the bundles of its claim's one set is placed exactly when there is room. -/
theorem placementOf_room (hparse : ops.parse = parse) (hclaim : pg.claim ≠ "")
    (hget : s.claims.get (pg.group, pg.claim) = some c) (hs : SolvedOn t c req sol)
    (hset : req.sets = [set]) (hm : sol.sets.get set.name = some members)
    (hb : pg.bundles = set.bundles)
    (hend : set.layout = .line → ∀ i, (members.map (·.node))[i]? = some (driverNodeOf s pg) →
      i = 0 ∨ i + 1 = members.length) :
    (∃ x, placementOf cfg ops s pg = .ok x) ↔
      hasRoom s pg.group set (members.map (·.node)) (driverNodeOf s pg) := by
  rw [placementOf_isOk, Ground.places, hasRoom]
  have hranks : (s.ground ops pg).ranks =
      claimOrder ops s pg.group pg.claim (driverNodeOf s pg) := if_neg hclaim
  cases ho : set.layout.ordered with
  | true =>
    obtain ⟨hnd, -⟩ := solved_nodup hs hset ho hm
    obtain ⟨hsome, -⟩ := claimOrder_solved (driverNodeOf s pg) hparse hget hs hset ho hm
    cases hr : rankedMembers set.layout members (driverNodeOf s pg) with
    | none =>
      obtain ⟨hline, i, hpos, hlt, hi⟩ := rankedMembers_none hr
      rcases hend hline i hi with hzero | hlast
      · omega
      · omega
    | some l =>
      have hnd' : (l.map (·.node)).Nodup := (rankedMembers_perm hr).nodup_iff.mpr hnd
      rw [hranks, hsome l hr]
      simp only [if_true]
      rw [fitsRanks_iff hnd', hb, rankedMembers_turnTo hnd hr]
  | false =>
    have hun := claimOrder_unordered (driverNodeOf s pg) hparse hget hs fun set' hset' => by
      cases hset.symm.trans hset'
      exact ho
    obtain ⟨hmal, hsets, hnames⟩ := solve_sound hs.solved
    obtain ⟨taken, nodes, members', hc, hmem, hm'⟩ := hsets set (by simp [hset])
    cases hm.symm.trans hm'
    have hne : members.map (·.node) ≠ [] := by
      rw [membersOf_nodes hmem]
      rintro rfl
      refine (malformed_eq_none hmal).1 set (by simp [hset]) ?_
      exact List.length_eq_zero_iff.mp (candidates_sound hc).1.symm
    have hnodes : ∀ n, n ∈ claimedNodes c.view ↔ n ∈ members.map (·.node) := by
      intro n
      rw [hs.view, mem_claimedNodes, List.mem_map]
      constructor
      · rintro ⟨k, members', m, hk, hin, hn⟩
        obtain ⟨set', hset', rfl⟩ := hnames k members' hk
        rw [hset, List.mem_singleton] at hset'
        subst hset'
        cases hm.symm.trans hk
        exact ⟨m, hin, hn⟩
      · rintro ⟨m, hin, hn⟩
        exact ⟨set.name, members, m, hm, hin, hn⟩
    rw [hranks, hun]
    simp only [Bool.false_eq_true, if_false]
    rw [inScope_iff hclaim hget hne hnodes, hb]

end Room

/-! ## A group created inside a new claim -/

/-- The state in which `pg_create` tries the groups. -/
def queued (env : Env) (st : State) (r : PgCreate) : State :=
  let st := { st with pgs := st.pgs.set r.pgId (newPg env st r) }
  st.emitPatch "pg_created" (pgPatch st r.pgId).toList ""

namespace Sample

/-- One mesh set with a GPU on one node and two on another. -/
def oneAndTwo : Value :=
  .obj [("sets", .arr [.obj [("bundles", .arr [.num (.uint 1), .num (.uint 2)]),
    ("name", .str "s")]])]

def oneAndTwoSet : SetReq := ⟨"s", [1, 2], .any, .mesh, ""⟩

theorem parse_oneAndTwo : parse oneAndTwo = .ok ⟨[oneAndTwoSet], []⟩ := by rfl

def insideJob : PgCreate := ⟨"c", "p:1", [1, 2], "PACK", "job"⟩

/-- Every live agent is of the group, and no two are on one node. -/
def oneAgentPerNode (st : State) : Bool :=
  st.agents.values.all (fun a => a.alive && a.group == "g") &&
    decide (st.agents.values.map (·.nodeId)).Nodup

end Sample

/-- A node with one GPU and a node with two, and a driver on one of them. -/
def unevenNodes (driver : NodeId) : List (Env × Section) := [
  (Sample.at_ 0, .elect "n:1"),
  (Sample.at_ 1, .register 1 { Sample.registrationOn "a" "n:1" "10.0.0.1" with
    machine := Sample.machine 1 }),
  (Sample.at_ 2, .register 2 (Sample.registrationOn "b" "n:2" "10.0.0.2")),
  (Sample.at_ 3, .hello 3 ⟨"c", "g", true, "driver", driver⟩)]

end Mentat
