import Mentat.Placement

/-!
# What a placement looks at

Whether a group can be placed depends on little: the group's live agents and how many GPUs each
has free, the driver's node, the claim it names, and the fabrics. `Ground` is that much of a
state, and `Ground.places` decides from it (`placementOf_isOk`).

First fit is not monotone. A group may fail where a poorer ground would take it, since a small
bundle put elsewhere can leave the room a large one needs. For bundles of one size a richer ground
is always as good (`Ground.places_mono`).
-/

namespace Mentat

/-- All bundles need the same number of GPUs. -/
def evenBundles (l : List Nat) : Bool := l.all fun x => max x 1 == max (l.headD 1) 1

structure Ground where
  /-- The group's live agents: id, node and registration number. -/
  agents : List (AgentId × NodeId × Nat)
  nodup : (agents.map (·.1)).Nodup
  free : AgentId → Nat
  driverNode : NodeId
  /-- The rank order of a claim of one ring or line. -/
  ranks : Option (Except String RankOrder)
  /-- The nodes of the claim. -/
  claimed : Option (List NodeId)
  fabrics : Fabrics

def driverNodeOf (st : State) (pg : PgInfo) : NodeId := ((st.clients.get pg.owner).map (·.nodeId)).getD ""

/-- The agents a group may be placed on. -/
def groupAgents (st : State) (group : String) : List (AgentId × NodeId × Nat) :=
  (st.agents.rows.filter fun (_, a) => a.alive && a.group == group).map
    fun (id, a) => (id, a.nodeId, a.seq)

theorem groupAgents_nodup (st : State) (group : String) :
    ((groupAgents st group).map (·.1)).Nodup := by
  have hrows : (st.agents.rows.map (·.1)).Nodup := by
    have : st.agents.rows.map (·.1) = st.agents.keys := by simp [Table.rows, Table.keys, AList.keys]; rfl
    rw [this]
    exact st.agents.alist.keys_nodup
  refine hrows.sublist ?_
  simp only [groupAgents, List.map_map]
  exact List.filter_sublist.map _

/-- The GPUs free on an agent of the group whose link is up. -/
def liveFree (st : State) (group : String) (id : AgentId) : Nat :=
  if (st.agents.get id).any fun a => a.alive && a.group == group then (st.freeGpusOf id).length else 0

def State.ground (ops : ClaimOps) (st : State) (pg : PgInfo) : Ground where
  agents := groupAgents st pg.group
  nodup := groupAgents_nodup st pg.group
  free := liveFree st pg.group
  driverNode := driverNodeOf st pg
  ranks := if pg.claim = "" then none else claimOrder ops st pg.group pg.claim (driverNodeOf st pg)
  claimed := if pg.claim = "" then none
    else (st.claims.get (pg.group, pg.claim)).map fun c => claimedNodes c.view
  fabrics := st.fabrics

namespace Ground

variable (G : Ground)

/-- The agents whose node passes `p`, those with `later` false first, then by registration. -/
def order (p later : NodeId → Bool) : List AgentId :=
  (((G.agents.filter fun a => p a.2.1).map fun a => (later a.2.1, a.2.2, a.1)).insertionSort
    (candidateLe · ·)).map (·.2.2)

/-- First fit over the agents on the nodes of a scope. -/
def fits (bundles : List Nat) (nodes : Option (List NodeId)) : Bool :=
  packs (fun _ => G.order (fun n => nodes.all (·.contains n)) (· != G.driverNode)) (max · 1) G.free
    bundles

def freeIn (p : NodeId → Bool) : Nat := ((G.agents.filter fun a => p a.2.1).map fun a => G.free a.1).sum

def served (n : NodeId) : Bool := (G.agents.map (·.2.1)).contains n

def optedIn (cfg : Cfg) : Bool :=
  cfg.islandPlacement && G.agents.any fun a => decide (a.2.1 ∈ G.fabrics.tagged)

/-- A scope has the GPUs, and first fit puts the bundles on them. -/
def takes (bundles : List Nat) (nodes : List NodeId) : Bool :=
  needOf bundles ≤ G.freeIn nodes.contains && G.fits bundles (some nodes)

/-- Ranks in order, each on its node. -/
def fitsRanks (bundles : List Nat) (order : RankOrder) : Bool :=
  decide (bundles.length = order.length) &&
    packs (fun r : Nat × NodeId × Table String String => G.order (· == r.2.1) fun _ => false)
      (fun r => max r.1 1) G.free (bundles.zip order)

/-- One of the islands takes the bundles, or a node on none. -/
def inIsland (bundles : List Nat) : Bool :=
  (G.fabrics.islands.any fun i => G.takes bundles i.nodes) ||
    G.agents.any fun a =>
      !(G.fabrics.islands.flatMap (·.nodes)).contains a.2.1 && G.takes bundles [a.2.1]

/-- A group whose ranks are in no order is placed: on the claim's nodes, anywhere, or inside one
island. -/
def inScope (cfg : Cfg) (claim : String) (bundles : List Nat) : Bool :=
  if claim ≠ "" then
    G.claimed.any fun nodes => !nodes.isEmpty && nodes.all G.served && G.fits bundles (some nodes)
  else if bundles.length < 2 ∨ G.optedIn cfg = false then G.fits bundles none
  else G.inIsland bundles

/-- A group with these bundles, inside this claim or none, is placed. -/
def places (cfg : Cfg) (claim : String) (bundles : List Nat) : Bool :=
  match G.ranks with
  | some (.error _) => false
  | some (.ok order) => G.fitsRanks bundles order
  | none => G.inScope cfg claim bundles

end Ground

/-! ## The ground decides -/

section Decides

variable {cfg : Cfg} {ops : ClaimOps} {st : State} {pg : PgInfo}

theorem mem_groupAgents {group : String} {id : AgentId} {n : NodeId} {seq : Nat} :
    (id, n, seq) ∈ groupAgents st group ↔ ∃ a, st.agents.get id = some a ∧ a.alive = true ∧
      a.group = group ∧ a.nodeId = n ∧ a.seq = seq := by
  simp only [groupAgents, List.mem_map, List.mem_filter, Bool.and_eq_true, beq_iff_eq,
    Prod.mk.injEq]
  constructor
  · rintro ⟨⟨k, a⟩, ⟨hrow, hl, hg⟩, rfl, rfl, rfl⟩
    exact ⟨a, Table.mem_rows.mp hrow, hl, hg, rfl, rfl⟩
  · rintro ⟨a, ha, hl, hg, rfl, rfl⟩
    exact ⟨(id, a), ⟨Table.mem_rows.mpr ha, hl, hg⟩, rfl, rfl, rfl⟩

theorem agentOrder_ground (ops : ClaimOps) (p later : NodeId → Bool) :
    agentOrder st pg.group (fun a => p a.nodeId) (fun a => later a.nodeId) =
      (st.ground ops pg).order p later := by
  simp only [agentOrder, Ground.order, State.ground, groupAgents, List.filter_map, List.map_map,
    List.filter_filter, Function.comp_def]
  congr 4
  funext a
  rw [Bool.and_comm]

theorem Ground.mem_order {G : Ground} {p later : NodeId → Bool} {id : AgentId} :
    id ∈ G.order p later ↔ ∃ n seq, (id, n, seq) ∈ G.agents ∧ p n = true := by
  simp only [order, List.mem_map, List.mem_insertionSort, List.mem_filter]
  constructor
  · rintro ⟨_, ⟨⟨k, n, seq⟩, ⟨hmem, hp⟩, rfl⟩, rfl⟩
    exact ⟨n, seq, hmem, hp⟩
  · rintro ⟨n, seq, hmem, hp⟩
    exact ⟨_, ⟨(id, n, seq), ⟨hmem, hp⟩, rfl⟩, rfl⟩

theorem liveFree_of_alive {group : String} {id : AgentId} {a : AgentInfo}
    (h : st.agents.get id = some a) (hl : a.alive = true) (hg : a.group = group) :
    liveFree st group id = (st.freeGpusOf id).length := by
  simp [liveFree, h, hl, hg]

/-- What first fit reads of the state's pools is what the ground says. -/
theorem packs_ground {ρ : Type} {p later : ρ → NodeId → Bool} {need : ρ → Nat} {rs : List ρ} :
    packs (fun r => (st.ground ops pg).order (p r) (later r)) need
        (fun id => (st.freeGpusOf id).length) rs =
      packs (fun r => (st.ground ops pg).order (p r) (later r)) need (st.ground ops pg).free rs := by
  refine packs_congr fun r _ id hid => ?_
  obtain ⟨n, seq, hmem, -⟩ := Ground.mem_order.mp hid
  obtain ⟨a, ha, hl, hg, -⟩ := mem_groupAgents.mp hmem
  exact (liveFree_of_alive ha hl hg).symm

theorem freeOver_ground (ops : ClaimOps) (p : NodeId → Bool) :
    freeOver st pg.group (fun a => p a.nodeId) = (st.ground ops pg).freeIn p := by
  simp only [freeOver, Ground.freeIn, State.ground, groupAgents, List.filter_map, List.map_map,
    List.filter_filter, Function.comp_def]
  have hp : (fun r : AgentId × AgentInfo => p r.2.nodeId && (r.2.alive && r.2.group == pg.group)) =
      fun r => r.2.alive && r.2.group == pg.group && p r.2.nodeId := by
    funext r
    rw [Bool.and_comm]
  rw [hp]
  congr 1
  refine List.map_congr_left fun r hr => ?_
  simp only [List.mem_filter, Bool.and_eq_true, beq_iff_eq] at hr
  exact (liveFree_of_alive (Table.mem_rows.mp hr.1) hr.2.1.1 hr.2.1.2).symm

theorem fit_isSome {nodes : Option (List NodeId)} :
    (fit st pg.group pg.bundles (driverNodeOf st pg) nodes).isSome =
      (st.ground ops pg).fits pg.bundles nodes := by
  rw [Bool.eq_iff_iff, Ground.fits, ← packs_ground, ← drain_isOk]
  unfold fit
  rw [agentOrder_ground ops (fun n => nodes.all (·.contains n)) (· != driverNodeOf st pg)]
  simp only
  split
  · next e he =>
    refine iff_of_false (by simp) ?_
    rintro ⟨got, h⟩
    cases he.symm.trans h
  · next got hgot => exact iff_of_true rfl ⟨got, hgot⟩

theorem fitOrdered_isOk {order : RankOrder} :
    (∃ a, fitOrdered ops st pg.group pg.bundles order = .ok a) ↔
      (st.ground ops pg).fitsRanks pg.bundles order = true := by
  rw [Ground.fitsRanks, Bool.and_eq_true, decide_eq_true_eq, ← packs_ground, ← drain_isOk]
  unfold fitOrdered
  split
  · next h => simp [h]
  · next h =>
    simp only [not_not.mp h, true_and]
    have horder : ∀ r : Nat × NodeId × Table String String,
        agentOrder st pg.group (fun a => a.nodeId == r.2.1) (fun _ => false) =
          (st.ground ops pg).order (· == r.2.1) fun _ => false := fun r =>
      agentOrder_ground ops (· == r.2.1) fun _ => false
    simp only [horder]
    split
    · next e he => simp [he]
    · next got hgot => simp [hgot]

theorem served_ground (ops : ClaimOps) {n : NodeId} :
    ((st.agents.values.filter fun a => a.alive && a.group == pg.group).map (·.nodeId)).contains n =
      (st.ground ops pg).served n := by
  rw [Bool.eq_iff_iff, Ground.served, List.contains_iff_mem, List.contains_iff_mem]
  simp only [List.mem_map, List.mem_filter, Table.mem_values, Bool.and_eq_true, beq_iff_eq]
  constructor
  · rintro ⟨a, ⟨⟨id, ha⟩, hl, hg⟩, rfl⟩
    exact ⟨(id, a.nodeId, a.seq), mem_groupAgents.mpr ⟨a, ha, hl, hg, rfl, rfl⟩, rfl⟩
  · rintro ⟨⟨id, n, seq⟩, hmem, rfl⟩
    obtain ⟨a, ha, hl, hg, rfl, -⟩ := mem_groupAgents.mp hmem
    exact ⟨a, ⟨⟨id, ha⟩, hl, hg⟩, rfl⟩

theorem optedIn_ground (ops : ClaimOps) :
    (cfg.islandPlacement && st.agents.values.any fun a =>
      a.alive && a.group == pg.group && decide (a.nodeId ∈ st.fabrics.tagged)) =
      (st.ground ops pg).optedIn cfg := by
  rw [Ground.optedIn]
  congr 1
  rw [Bool.eq_iff_iff, List.any_eq_true, List.any_eq_true]
  simp only [Table.mem_values, Bool.and_eq_true, beq_iff_eq, decide_eq_true_eq]
  constructor
  · rintro ⟨a, ⟨id, ha⟩, ⟨hl, hg⟩, ht⟩
    exact ⟨(id, a.nodeId, a.seq), mem_groupAgents.mpr ⟨a, ha, hl, hg, rfl, rfl⟩, ht⟩
  · rintro ⟨⟨id, n, seq⟩, hmem, ht⟩
    obtain ⟨a, ha, hl, hg, rfl, -⟩ := mem_groupAgents.mp hmem
    exact ⟨a, ⟨id, ha⟩, ⟨hl, hg⟩, ht⟩

/-- One of the scopes takes the group. -/
theorem scopes_isOk {scopes : List Scope} :
    (∃ x, (match scopes.findSome? fun (island, nodes) =>
          (fit st pg.group pg.bundles (driverNodeOf st pg) nodes).map fun a => (island, a) with
        | some placed => (Except.ok placed : Except String _)
        | none => .error (noFitReason st pg.group pg.bundles)) = .ok x) ↔
      ∃ s ∈ scopes, (st.ground ops pg).fits pg.bundles s.2 = true := by
  constructor
  · rintro ⟨x, h⟩
    split at h
    · next placed hp =>
      obtain ⟨s, hs, hfit⟩ := List.exists_of_findSome?_eq_some hp
      refine ⟨s, hs, ?_⟩
      rw [← fit_isSome]
      obtain ⟨a, ha, -⟩ := Option.map_eq_some_iff.mp hfit
      rw [ha]
      rfl
    · cases h
  · rintro ⟨s, hs, hfit⟩
    rw [← fit_isSome] at hfit
    obtain ⟨a, ha⟩ := Option.isSome_iff_exists.mp hfit
    have hsome : (scopes.findSome? fun (island, nodes) =>
        (fit st pg.group pg.bundles (driverNodeOf st pg) nodes).map fun a => (island, a)).isSome := by
      rw [List.findSome?_isSome_iff]
      exact ⟨s, hs, by simp [ha]⟩
    obtain ⟨placed, hp⟩ := Option.isSome_iff_exists.mp hsome
    rw [hp]
    exact ⟨placed, rfl⟩

theorem claimScope_isOk (hclaim : pg.claim ≠ "") :
    (∃ scopes, claimScope st pg.group pg.claim = .ok scopes ∧
        ∃ s ∈ scopes, (st.ground ops pg).fits pg.bundles s.2 = true) ↔
      ((st.ground ops pg).claimed.any fun nodes => !nodes.isEmpty &&
        nodes.all (st.ground ops pg).served &&
        (st.ground ops pg).fits pg.bundles (some nodes)) = true := by
  have hclaimed : (st.ground ops pg).claimed =
      (st.claims.get (pg.group, pg.claim)).map fun c => claimedNodes c.view := if_neg hclaim
  rw [hclaimed]
  unfold claimScope
  cases st.claims.get (pg.group, pg.claim) with
  | none => simp
  | some c =>
    simp only [Option.map_some, Option.any_some, Bool.and_eq_true, Bool.not_eq_true']
    cases hne : (claimedNodes c.view).isEmpty with
    | true => simp
    | false =>
      simp only [Bool.false_eq_true, if_false, true_and, served_ground ops]
      cases hf : (claimedNodes c.view).find? fun n => !(st.ground ops pg).served n with
      | some n =>
        have hn : (st.ground ops pg).served n = false := by simpa using List.find?_some hf
        have hall : (claimedNodes c.view).all (st.ground ops pg).served = false := by
          rw [List.all_eq_false]
          exact ⟨n, List.mem_of_find?_eq_some hf, by simp [hn]⟩
        simp [hall]
      | none =>
        have hall : (claimedNodes c.view).all (st.ground ops pg).served = true := by
          rw [List.all_eq_true]
          intro n hn
          simpa using List.find?_eq_none.mp hf n hn
        simp [hall]

/-- A list of ranked scopes, refused when it is empty. -/
theorem rankedScopes_isOk (scopes : List RankedScope) (why : String)
    (ok : Option (List NodeId) → Bool) :
    (∃ out, (if scopes.isEmpty then .error why
          else .ok ((scopes.insertionSort (RankedScope.le · ·)).map fun s =>
            ((if 1 < s.island.nodes.length then some s.island else none, some s.nodes) : Scope)) :
          Except String (List Scope)) = .ok out ∧
        ∃ s ∈ out, ok s.2 = true) ↔
      ∃ s ∈ scopes, ok (some s.nodes) = true := by
  cases scopes with
  | nil => simp
  | cons r rs =>
    simp only [List.isEmpty_cons, Bool.false_eq_true, if_false, Except.ok.injEq, exists_eq_left',
      List.mem_map, List.mem_insertionSort, exists_exists_and_eq_and]

/-- Some scope takes the group. -/
theorem placementScopes_isOk :
    (∃ scopes, placementScopes cfg st pg.group pg.bundles (driverNodeOf st pg) pg.claim =
          .ok scopes ∧ ∃ s ∈ scopes, (st.ground ops pg).fits pg.bundles s.2 = true) ↔
      (st.ground ops pg).inScope cfg pg.claim pg.bundles = true := by
  unfold placementScopes Ground.inScope
  by_cases hclaim : pg.claim ≠ ""
  · rw [if_pos hclaim, if_pos hclaim]
    exact claimScope_isOk hclaim
  rw [if_neg hclaim, if_neg hclaim]
  simp only [optedIn_ground ops]
  split
  · simp
  · rw [Ground.inIsland, Bool.or_eq_true, List.any_eq_true, List.any_eq_true]
    refine (rankedScopes_isOk _ _ ((st.ground ops pg).fits pg.bundles)).trans ?_
    simp only [List.mem_append, or_and_right, exists_or, List.mem_map, exists_exists_and_eq_and,
      List.mem_filter, decide_eq_true_eq, mem_sortDedup, Ground.takes, Bool.and_eq_true]
    refine or_congr ?_ ?_
    · refine exists_congr fun i => ?_
      rw [freeOver_ground ops i.nodes.contains, and_assoc]
      rfl
    · constructor
      · rintro ⟨n, ⟨⟨⟨a, ha, rfl⟩, hno⟩, hneed⟩, hfit⟩
        obtain ⟨id, hget⟩ := Table.mem_values.mp ha.1
        rw [freeOver_ground ops ([a.nodeId] : List NodeId).contains] at hneed
        refine ⟨(id, a.nodeId, a.seq), ?_, hno, hneed, hfit⟩
        exact mem_groupAgents.mpr ⟨a, hget, ha.2.1, by simpa using ha.2.2, rfl, rfl⟩
      · rintro ⟨⟨id, n, seq⟩, hmem, hno, hneed, hfit⟩
        obtain ⟨a, hget, hl, hg, rfl, -⟩ := mem_groupAgents.mp hmem
        rw [← freeOver_ground ops ([a.nodeId] : List NodeId).contains] at hneed
        exact ⟨a.nodeId, ⟨⟨⟨a, ⟨Table.mem_values.mpr ⟨id, hget⟩, hl, by simpa using hg⟩, rfl⟩, hno⟩,
          hneed⟩, hfit⟩

/-- Whether a group is placed depends on its ground alone. -/
theorem placementOf_isOk :
    (∃ x, placementOf cfg ops st pg = .ok x) ↔
      (st.ground ops pg).places cfg pg.claim pg.bundles = true := by
  have hordered : (if pg.claim = "" then none
      else claimOrder ops st pg.group pg.claim
        (((st.clients.get pg.owner).map (·.nodeId)).getD "")) = (st.ground ops pg).ranks := rfl
  unfold placementOf Ground.places
  simp only [hordered]
  cases (st.ground ops pg).ranks with
  | some o =>
    cases o with
    | error why => simp
    | ok order =>
      simp only
      rw [← fitOrdered_isOk]
      cases fitOrdered ops st pg.group pg.bundles order <;> simp [Except.map]
  | none =>
    refine Iff.trans ?_ placementScopes_isOk
    simp only [driverNodeOf]
    cases placementScopes cfg st pg.group pg.bundles
      (((st.clients.get pg.owner).map (·.nodeId)).getD "") pg.claim with
    | error why => simp
    | ok scopes =>
      simp only [Except.ok.injEq, exists_eq_left']
      exact scopes_isOk

end Decides

/-! ## A richer ground -/

namespace Ground

variable {G G' : Ground}

theorem order_nodup (G : Ground) (p later : NodeId → Bool) : (G.order p later).Nodup := by
  have hperm : (G.order p later).Perm ((G.agents.filter fun a => p a.2.1).map (·.1)) := by
    have := (List.perm_insertionSort (candidateLe · ·)
      ((G.agents.filter fun a => p a.2.1).map fun a => (later a.2.1, a.2.2, a.1))).map (·.2.2)
    simpa [order, Function.comp_def] using this
  exact hperm.nodup_iff.mpr (G.nodup.sublist (List.filter_sublist.map _))

/-- An agent is on one node. -/
theorem node_unique {id : AgentId} {n n' : NodeId} {seq seq' : Nat} (h : (id, n, seq) ∈ G.agents)
    (h' : (id, n', seq') ∈ G.agents) : n = n' := by
  have := List.inj_on_of_nodup_map G.nodup h h' rfl
  exact congrArg (·.2.1) this

/-- `G'` has no agent and no free GPU that `G` does not have, and is like it otherwise. Where the
driver is does not matter, but for the order of the ranks. -/
structure Le (G' G : Ground) : Prop where
  agents : G'.agents ⊆ G.agents
  free : ∀ id, G'.free id ≤ G.free id
  ranks : G'.ranks = G.ranks
  claimed : G'.claimed = G.claimed
  fabrics : G'.fabrics = G.fabrics

/-- What one bundle of an even group needs. -/
def evenNeed (bundles : List Nat) : Nat := max (bundles.headD 1) 1

theorem evenBundles_need {bundles : List Nat} (h : evenBundles bundles = true) {x : Nat}
    (hx : x ∈ bundles) : max x 1 = evenNeed bundles := by
  simpa [evenNeed] using List.all_eq_true.mp h x hx

/-- Even bundles are placed on agents that have a portion for each. -/
theorem fits_even {bundles : List Nat} (h : evenBundles bundles = true)
    (nodes : Option (List NodeId)) :
    G.fits bundles nodes = true ↔ bundles.length ≤ portions G.free (evenNeed bundles)
      (G.order (fun n => nodes.all (·.contains n)) (· != G.driverNode)) := by
  rw [fits, packs_even (fun _ => ()) (fun _ =>
    G.order (fun n => nodes.all (·.contains n)) (· != G.driverNode)) (b := evenNeed bundles)
    (by simp [evenNeed]) (fun r hr => evenBundles_need h hr) (fun _ _ => rfl)
    (fun _ => G.order_nodup _ _) (fun _ _ hne => absurd rfl hne)]
  simp

theorem portions_order_le (h : Le G' G) (b : Nat) (p later' later : NodeId → Bool) :
    portions G'.free b (G'.order p later') ≤ portions G.free b (G.order p later) := by
  refine portions_le (G'.order_nodup p later') (fun id hid => ?_) fun id _ => h.free id
  obtain ⟨n, seq, hmem, hp⟩ := mem_order.mp hid
  exact mem_order.mpr ⟨n, seq, h.agents hmem, hp⟩

theorem fits_mono (h : Le G' G) {bundles : List Nat} (he : evenBundles bundles = true)
    {nodes : Option (List NodeId)} (hf : G'.fits bundles nodes = true) :
    G.fits bundles nodes = true := by
  rw [fits_even he] at hf ⊢
  exact hf.trans (portions_order_le h _ _ _ _)

theorem fitsRanks_even {bundles : List Nat} (h : evenBundles bundles = true) (order : RankOrder) :
    G.fitsRanks bundles order = true ↔ bundles.length = order.length ∧ ∀ n,
      (bundles.zip order).countP (·.2.1 = n) ≤
        portions G.free (evenNeed bundles) (G.order (· == n) fun _ => false) := by
  rw [fitsRanks, Bool.and_eq_true, decide_eq_true_eq, packs_even
    (fun r : Nat × NodeId × Table String String => r.2.1) (fun n => G.order (· == n) fun _ => false)
    (b := evenNeed bundles) (by simp [evenNeed])
    (fun r hr => evenBundles_need h (List.of_mem_zip hr).1) (fun _ _ => rfl)
    (fun _ => G.order_nodup _ _)]
  intro n n' hne id hid hid'
  obtain ⟨m, seq, hmem, hm⟩ := mem_order.mp hid
  obtain ⟨m', seq', hmem', hm'⟩ := mem_order.mp hid'
  rw [beq_iff_eq] at hm hm'
  exact hne (by rw [← hm, ← hm', node_unique hmem hmem'])

theorem fitsRanks_mono (h : Le G' G) {bundles : List Nat} (he : evenBundles bundles = true)
    {order : RankOrder} (hf : G'.fitsRanks bundles order = true) :
    G.fitsRanks bundles order = true := by
  rw [fitsRanks_even he] at hf ⊢
  exact ⟨hf.1, fun n => (hf.2 n).trans (portions_order_le h _ _ _ _)⟩

theorem freeIn_mono (h : Le G' G) (p : NodeId → Bool) : G'.freeIn p ≤ G.freeIn p := by
  -- The free GPUs are the portions of one GPU.
  have hsum : ∀ G : Ground,
      G.freeIn p = portions G.free 1 ((G.agents.filter fun a => p a.2.1).map (·.1)) := by
    intro G
    simp [freeIn, portions, Function.comp_def]
  rw [hsum, hsum]
  refine portions_le (G'.nodup.sublist (List.filter_sublist.map _)) ?_ fun id _ => h.free id
  intro id hid
  obtain ⟨a, ha, rfl⟩ := List.mem_map.mp hid
  obtain ⟨hmem, hp⟩ := List.mem_filter.mp ha
  exact List.mem_map.mpr ⟨a, List.mem_filter.mpr ⟨h.agents hmem, hp⟩, rfl⟩

theorem takes_mono (h : Le G' G) {bundles : List Nat} (he : evenBundles bundles = true)
    {nodes : List NodeId} (ht : G'.takes bundles nodes = true) : G.takes bundles nodes = true := by
  simp only [takes, Bool.and_eq_true, decide_eq_true_eq] at ht ⊢
  exact ⟨ht.1.trans (freeIn_mono h _), fits_mono h he ht.2⟩

theorem inIsland_mono (h : Le G' G) {bundles : List Nat} (he : evenBundles bundles = true)
    (hi : G'.inIsland bundles = true) : G.inIsland bundles = true := by
  simp only [inIsland, Bool.or_eq_true, List.any_eq_true, Bool.and_eq_true] at hi ⊢
  rcases hi with ⟨i, hi, ht⟩ | ⟨a, ha, hno, ht⟩
  · exact .inl ⟨i, h.fabrics ▸ hi, takes_mono h he ht⟩
  · exact .inr ⟨a, h.agents ha, h.fabrics ▸ hno, takes_mono h he ht⟩

theorem optedIn_mono (h : Le G' G) {cfg : Cfg} (ho : G'.optedIn cfg = true) :
    G.optedIn cfg = true := by
  simp only [optedIn, Bool.and_eq_true, List.any_eq_true] at ho ⊢
  obtain ⟨hp, a, ha, ht⟩ := ho
  exact ⟨hp, a, h.agents ha, h.fabrics ▸ ht⟩

theorem optedIn_congr {cfg : Cfg} (ha : G'.agents = G.agents) (hf : G'.fabrics = G.fabrics) :
    G'.optedIn cfg = G.optedIn cfg := by
  rw [optedIn, optedIn, ha, hf]

theorem served_mono (h : Le G' G) {n : NodeId} (hs : G'.served n = true) : G.served n = true := by
  simp only [served, List.contains_iff_mem] at hs ⊢
  exact List.map_subset _ h.agents hs

/-- A group of even bundles that a poorer ground places, a richer one places, as long as the poorer
one does not leave it free of the islands. -/
theorem places_mono (h : Le G' G) {cfg : Cfg} {claim : String} {bundles : List Nat}
    (he : evenBundles bundles = true)
    (hopt : claim = "" → 2 ≤ bundles.length → G.optedIn cfg = true → G'.optedIn cfg = true)
    (hp : G'.places cfg claim bundles = true) : G.places cfg claim bundles = true := by
  unfold places at hp ⊢
  rw [h.ranks] at hp
  split at hp
  · cases hp
  · exact fitsRanks_mono h he hp
  · unfold inScope at hp ⊢
    by_cases hclaim : claim ≠ ""
    · rw [if_pos hclaim] at hp ⊢
      rw [h.claimed] at hp
      simp only [Option.any_eq_true, Bool.and_eq_true, List.all_eq_true] at hp ⊢
      obtain ⟨nodes, hn, ⟨hne, hall⟩, hf⟩ := hp
      exact ⟨nodes, hn, ⟨hne, fun n hn => served_mono h (hall n hn)⟩, fits_mono h he hf⟩
    · rw [if_neg hclaim] at hp ⊢
      have hsame : (bundles.length < 2 ∨ G'.optedIn cfg = false) ↔
          (bundles.length < 2 ∨ G.optedIn cfg = false) := by
        cases ho : G.optedIn cfg with
        | false =>
          cases ho' : G'.optedIn cfg with
          | false => rfl
          | true =>
            rw [optedIn_mono h ho'] at ho
            cases ho
        | true =>
          by_cases hlen : 2 ≤ bundles.length
          · rw [hopt (not_not.mp hclaim) hlen ho]
          · simp [Nat.lt_of_not_le hlen]
      simp only [hsame] at hp
      split
      · next hfree =>
        rw [if_pos hfree] at hp
        exact fits_mono h he hp
      · next hfree =>
        rw [if_neg hfree] at hp
        exact inIsland_mono h he hp

end Ground

/-! ## When two states have the same ground -/

/-- A group or a live actor holds the device. -/
def State.Held (st : State) (id : AgentId) (g : Nat) : Prop :=
  (∃ k p, st.pgs.get k = some p ∧ p.Holds id g) ∨ ∃ k x, st.actors.get k = some x ∧ x.Holds id g

section Same

variable {ops : ClaimOps} {st st' : State} {pg : PgInfo}

theorem freeGpusOf_iff_held {id : AgentId} {g : Nat} {a : AgentInfo}
    (ha : st.agents.get id = some a) :
    g ∈ st.freeGpusOf id ↔ g ∈ a.machine.gpus.map (·.index) ∧ ¬ st.Held id g := by
  rw [State.mem_freeGpusOf, State.Held, not_or]
  simp only [ha, Option.some.injEq, exists_eq_left', not_exists, not_and]

/-- With no device given up and no agent joined, no agent has more free GPUs. -/
theorem liveFree_le {group : String} (hagents : ∀ id a', st'.agents.get id = some a' →
      a'.alive = true → a'.group = group →
      ∃ a, st.agents.get id = some a ∧ a.alive = true ∧ a.group = group ∧ a.machine = a'.machine)
    (hheld : ∀ id g, st.Held id g → st'.Held id g) (id : AgentId) :
    liveFree st' group id ≤ liveFree st group id := by
  by_cases hl : (st'.agents.get id).any (fun a => a.alive && a.group == group) = true
  · obtain ⟨a', ha', hlg⟩ := (Option.any_eq_true _ _).mp hl
    simp only [Bool.and_eq_true, beq_iff_eq] at hlg
    obtain ⟨a, ha, halive, hgroup, hm⟩ := hagents id a' ha' hlg.1 hlg.2
    rw [liveFree_of_alive ha' hlg.1 hlg.2, liveFree_of_alive ha halive hgroup]
    obtain ⟨q, hq⟩ := State.freeGpusOf_filter ha
    obtain ⟨q', hq'⟩ := State.freeGpusOf_filter ha'
    rw [hq, hq', hm, ← List.countP_eq_length_filter, ← List.countP_eq_length_filter]
    refine List.countP_mono_left fun g hg hg' => ?_
    have hfree : g ∈ st'.freeGpusOf id := by
      rw [hq']
      exact List.mem_filter.mpr ⟨hg, hg'⟩
    have hfree' : g ∈ st.freeGpusOf id := by
      rw [freeGpusOf_iff_held ha'] at hfree
      exact (freeGpusOf_iff_held ha).mpr ⟨hm ▸ hfree.1, fun hh => hfree.2 (hheld id g hh)⟩
    rw [hq] at hfree'
    exact (List.mem_filter.mp hfree').2
  · rw [liveFree, if_neg hl]
    exact Nat.zero_le _

theorem liveFree_le_of_agents (hagents : st'.agents = st.agents)
    (hheld : ∀ id g, st.Held id g → st'.Held id g) (group : String) (id : AgentId) :
    liveFree st' group id ≤ liveFree st group id :=
  liveFree_le (fun _ a ha hl hg => ⟨a, hagents ▸ ha, hl, hg, rfl⟩) hheld id

/-- Groups changed in place, each holding what it held of the device. -/
theorem State.held_iff_of_map {f : PgId → PgInfo → PgInfo} (hp : st'.pgs = st.pgs.map f)
    (hx : st'.actors = st.actors) {a : AgentId} {g : Nat}
    (hf : ∀ k p, st.pgs.get k = some p → ((f k p).Holds a g ↔ p.Holds a g)) :
    st'.Held a g ↔ st.Held a g := by
  simp only [State.Held, hp, hx, Table.get_map, Option.map_eq_some_iff]
  refine or_congr_left (exists_congr fun k => ?_)
  constructor
  · rintro ⟨_, ⟨p, hk, rfl⟩, hh⟩
    exact ⟨p, hk, (hf k p hk).mp hh⟩
  · rintro ⟨p, hk, hh⟩
    exact ⟨_, ⟨p, hk, rfl⟩, (hf k p hk).mpr hh⟩

theorem State.held_of_map {f : PgId → PgInfo → PgInfo} (hp : st'.pgs = st.pgs.map f)
    (hx : st'.actors = st.actors)
    (hf : ∀ k p, st.pgs.get k = some p → ∀ a g, (f k p).Holds a g ↔ p.Holds a g) (a : AgentId)
    (g : Nat) : st'.Held a g ↔ st.Held a g :=
  State.held_iff_of_map hp hx fun k p hk => hf k p hk a g

/-- Actors changed in place, each holding what it held of the device. -/
theorem State.held_iff_of_actors_map {f : ActorId → ActorInfo → ActorInfo} (hp : st'.pgs = st.pgs)
    (hx : st'.actors = st.actors.map f) {a : AgentId} {g : Nat}
    (hf : ∀ k x, st.actors.get k = some x → ((f k x).Holds a g ↔ x.Holds a g)) :
    st'.Held a g ↔ st.Held a g := by
  simp only [State.Held, hp, hx, Table.get_map, Option.map_eq_some_iff]
  refine or_congr_right (exists_congr fun k => ?_)
  constructor
  · rintro ⟨_, ⟨x, hk, rfl⟩, hh⟩
    exact ⟨x, hk, (hf k x hk).mp hh⟩
  · rintro ⟨x, hk, hh⟩
    exact ⟨_, ⟨x, hk, rfl⟩, (hf k x hk).mpr hh⟩

theorem State.held_of_actors_map {f : ActorId → ActorInfo → ActorInfo} (hp : st'.pgs = st.pgs)
    (hx : st'.actors = st.actors.map f) (hf : ∀ k x a g, (f k x).Holds a g ↔ x.Holds a g)
    (a : AgentId) (g : Nat) : st'.Held a g ↔ st.Held a g :=
  State.held_iff_of_actors_map hp hx fun k x _ => hf k x a g

/-- Agents changed in place, with those of the group that are live still there. -/
theorem groupAgents_map {group : String} {f : AgentId → AgentInfo → AgentInfo}
    (h : st'.agents = st.agents.map f)
    (hlive : ∀ id a, st.agents.get id = some a →
      ((f id a).alive && (f id a).group == group) = (a.alive && a.group == group))
    (hsame : ∀ id a, st.agents.get id = some a → a.alive = true → a.group = group →
      (f id a).nodeId = a.nodeId ∧ (f id a).seq = a.seq) :
    groupAgents st' group = groupAgents st group := by
  unfold groupAgents
  rw [h, Table.rows_map, List.filter_map, List.map_map]
  have hfilter : (st.agents.rows.filter ((fun r : AgentId × AgentInfo => r.2.alive &&
      r.2.group == group) ∘ fun r => (r.1, f r.1 r.2))) =
      st.agents.rows.filter fun r => r.2.alive && r.2.group == group :=
    List.filter_congr fun r hr => hlive r.1 r.2 (Table.mem_rows.mp hr)
  rw [hfilter]
  refine List.map_congr_left fun r hr => ?_
  simp only [List.mem_filter, Bool.and_eq_true, beq_iff_eq] at hr
  obtain ⟨hn, hs⟩ := hsame r.1 r.2 (Table.mem_rows.mp hr.1) hr.2.1 hr.2.2
  simp only [Function.comp_apply, hn, hs]

/-- What placement reads of a claim. -/
def claimFacts (st : State) (key : String × String) : Option (Value × Value) :=
  (st.claims.get key).map fun c => (c.shape, c.view)

theorem claimOrder_congr {group claim : String} (h : claimFacts st' (group, claim) =
    claimFacts st (group, claim)) (driver : NodeId) :
    claimOrder ops st' group claim driver = claimOrder ops st group claim driver := by
  unfold claimFacts at h
  unfold claimOrder
  cases hc : st.claims.get (group, claim) with
  | none =>
    rw [hc, Option.map_none, Option.map_eq_none_iff] at h
    rw [h]
  | some c =>
    rw [hc, Option.map_some, Option.map_eq_some_iff] at h
    obtain ⟨c', hc', he⟩ := h
    simp only [Prod.mk.injEq] at he
    rw [hc']
    simp only [Option.bind_eq_bind, Option.bind_some, he.1, he.2]

theorem claimedNodes_congr {key : String × String} (h : claimFacts st' key = claimFacts st key) :
    (st'.claims.get key).map (fun c => claimedNodes c.view) =
      (st.claims.get key).map fun c => claimedNodes c.view := by
  have := congrArg (Option.map fun f : Value × Value => claimedNodes f.2) h
  simpa [claimFacts, Function.comp_def] using this

/-- The ground of a group in a state that differs in nothing placement reads. -/
theorem ground_congr (hagents : groupAgents st' pg.group = groupAgents st pg.group)
    (hfree : liveFree st' pg.group = liveFree st pg.group)
    (hdriver : driverNodeOf st' pg = driverNodeOf st pg)
    (hclaim : pg.claim ≠ "" →
      claimFacts st' (pg.group, pg.claim) = claimFacts st (pg.group, pg.claim))
    (hfabrics : st'.fabrics = st.fabrics) : st'.ground ops pg = st.ground ops pg := by
  unfold State.ground
  simp only [hagents, hfree, hdriver, hfabrics]
  by_cases hc : pg.claim = ""
  · simp only [hc, if_true]
  · simp only [hc, if_false, claimOrder_congr (hclaim hc), claimedNodes_congr (hclaim hc)]

/-- The same, when the agents have not changed nor what is held. -/
theorem ground_of_held (hagents : st'.agents = st.agents)
    (hheld : ∀ a g, st'.Held a g ↔ st.Held a g)
    (hdriver : driverNodeOf st' pg = driverNodeOf st pg)
    (hclaim : pg.claim ≠ "" →
      claimFacts st' (pg.group, pg.claim) = claimFacts st (pg.group, pg.claim))
    (hfabrics : st'.fabrics = st.fabrics) : st'.ground ops pg = st.ground ops pg := by
  refine ground_congr (by rw [groupAgents, hagents, groupAgents]) (funext fun id => ?_) hdriver hclaim
    hfabrics
  exact le_antisymm (liveFree_le_of_agents hagents (fun a g => (hheld a g).mpr) _ id)
    (liveFree_le_of_agents hagents.symm (fun a g => (hheld a g).mp) _ id)

/-- Agents changed in place, with those of the group that are live as they were. -/
theorem ground_of_agents_map {f : AgentId → AgentInfo → AgentInfo} (events : List Event)
    (hlive : ∀ id a, st.agents.get id = some a →
      ((f id a).alive && (f id a).group == pg.group) = (a.alive && a.group == pg.group))
    (hsame : ∀ id a, st.agents.get id = some a → a.alive = true → a.group = pg.group →
      (f id a).nodeId = a.nodeId ∧ (f id a).seq = a.seq ∧ (f id a).machine = a.machine) :
    State.ground ops { st with agents := st.agents.map f, events := events } pg =
      st.ground ops pg := by
  refine ground_congr (groupAgents_map rfl hlive fun id a ha hl hg => ?_) (funext fun id => ?_) rfl
    (fun _ => rfl) rfl
  · obtain ⟨hn, hs, -⟩ := hsame id a ha hl hg
    exact ⟨hn, hs⟩
  · refine le_antisymm (liveFree_le (fun k a' ha' hl hg => ?_) (by exact fun _ _ hh => hh) id)
      (liveFree_le (fun k a ha hl hg => ?_) (by exact fun _ _ hh => hh) id)
    · rw [Table.get_map, Option.map_eq_some_iff] at ha'
      obtain ⟨a, ha, rfl⟩ := ha'
      have hboth := hlive k a ha
      simp only [hl, hg, beq_self_eq_true, Bool.and_self] at hboth
      simp only [Bool.and_eq_true, beq_iff_eq, Bool.true_eq] at hboth
      exact ⟨a, ha, hboth.1, hboth.2, (hsame k a ha hboth.1 hboth.2).2.2.symm⟩
    · have hboth := hlive k a ha
      simp only [hl, hg, beq_self_eq_true, Bool.and_self, Bool.and_eq_true, beq_iff_eq] at hboth
      exact ⟨f k a, by rw [Table.get_map, ha, Option.map_some], hboth.1, hboth.2,
        (hsame k a ha hl hg).2.2⟩

/-- The ground of a group once agents or GPUs have gone. -/
theorem ground_le (hagents : groupAgents st' pg.group ⊆ groupAgents st pg.group)
    (hfree : ∀ id, liveFree st' pg.group id ≤ liveFree st pg.group id)
    (hdriver : driverNodeOf st' pg = driverNodeOf st pg)
    (hclaims : st'.claims = st.claims)
    (hfabrics : st'.fabrics = st.fabrics) : (st'.ground ops pg).Le (st.ground ops pg) where
  agents := hagents
  free := hfree
  ranks := by
    have hfacts : claimFacts st' (pg.group, pg.claim) = claimFacts st (pg.group, pg.claim) := by
      rw [claimFacts, hclaims, claimFacts]
    simp only [State.ground, hdriver, claimOrder_congr hfacts]
  claimed := by simp only [State.ground, hclaims]
  fabrics := hfabrics

end Same

end Mentat
