import Mentat.Claims
import Mentat.Claim.Solved

/-!
# Whose GPUs a claim counts

The solver reads how many GPUs are free on each node, summed over the agents of every group. A
placement looks at the agents of one group. So a claim may choose a node that has no agent of its
group, or not enough GPUs on one.

* `topology_free`: what the solver knows of a node is the sum over its live agents.
* `claim_serves_iff`: a group can use whatever the solver gives it exactly when, on every node with
  a live agent, one agent of the group has all the GPUs that are free there.
-/

namespace Mentat

/-! ## What the solver knows of the agents -/

/-- GPUs free on a node, over the live agents of every group. -/
def nodeFree (st : State) (n : NodeId) : Nat :=
  ((st.agents.rows.filter fun r => r.2.alive && r.2.nodeId == n).map
    fun r => (st.freeGpusOf r.1).length).sum

theorem HashOrder.walk_perm {V : Type} (ord : HashOrder) (t : Table String V) :
    (ord.walk t).Perm t.rows := by
  have hrows : t.rows = t.keys.filterMap fun k => (t.get k).map fun v => (k, v) := by
    have hget : ∀ r ∈ t.rows, (t.get r.1).map (fun v => (r.1, v)) = some r := by
      rintro ⟨k, v⟩ hr
      rw [Table.mem_rows.mp hr]
      rfl
    have hkeys : t.keys = t.rows.map (·.1) := by
      simp [Table.rows, Table.keys, AList.keys]
      rfl
    rw [hkeys, List.filterMap_map, Function.comp_def, List.filterMap_congr (g := some) hget,
      List.filterMap_some]
  rw [hrows]
  exact (ord.perm t.keys).filterMap _

section Topology

variable {st : State} {n : NodeId}

theorem addAgent_free (t : Topology) (r : AgentId × AgentInfo) :
    (t.addAgent st r.1 r.2).free n =
      t.free n + if r.2.nodeId == n then (st.freeGpusOf r.1).length else 0 := by
  simp only [Topology.free, Topology.addAgent, Table.get_set]
  by_cases h : n = r.2.nodeId
  · subst h
    simp
  · simp [h, Ne.symm h]

theorem addAgent_has (t : Topology) (r : AgentId × AgentInfo) :
    (t.addAgent st r.1 r.2).freeGpus.has n = true ↔
      n = r.2.nodeId ∨ t.freeGpus.has n = true := by
  simp only [Topology.addAgent, Table.has_set]

/-- The agents added in turn, whatever the order. -/
theorem foldl_addAgent_free (rows : List (AgentId × AgentInfo)) (t : Topology) :
    (rows.foldl (fun t r => t.addAgent st r.1 r.2) t).free n =
      t.free n + ((rows.filter fun r => r.2.nodeId == n).map
        fun r => (st.freeGpusOf r.1).length).sum := by
  induction rows generalizing t with
  | nil => simp
  | cons r rows ih =>
    rw [List.foldl_cons, ih, addAgent_free, List.filter_cons]
    split
    · rw [List.map_cons, List.sum_cons, Nat.add_assoc]
    · rfl

theorem foldl_addAgent_has (rows : List (AgentId × AgentInfo)) (t : Topology) :
    (rows.foldl (fun t r => t.addAgent st r.1 r.2) t).freeGpus.has n = true ↔
      (∃ r ∈ rows, r.2.nodeId = n) ∨ t.freeGpus.has n = true := by
  induction rows generalizing t with
  | nil => simp
  | cons r rows ih =>
    rw [List.foldl_cons, ih, addAgent_has, List.exists_mem_cons_iff, eq_comm (a := n), or_assoc]
    exact or_left_comm

/-- The addresses of a node are there or not, never an empty list. -/
def Topology.Bound (t : Topology) : Prop := ∀ n ports, t.ports.get n = some ports → ports ≠ []

theorem record_bound {t : Topology} (h : t.Bound) (node : NodeId) (host : String)
    (addrs : List String) (tags : Table String (List String)) (ifaces : Table String String) :
    (t.record node host addrs tags ifaces).Bound := by
  intro n ports hn
  simp only [Topology.record] at hn
  split at hn
  · exact h n ports hn
  · next hne =>
    rcases Table.get_set_some hn with ⟨-, rfl⟩ | ⟨-, hn⟩
    · simpa using hne
    · exact h n ports hn

theorem addAgent_bound {t : Topology} (h : t.Bound) (st : State) (r : AgentId × AgentInfo) :
    (t.addAgent st r.1 r.2).Bound ∧
      ∃ ports, (t.addAgent st r.1 r.2).ports.get r.2.nodeId = some ports := by
  simp only [Topology.Bound, Topology.addAgent, Table.orInsert]
  split
  · next hhas => exact ⟨h, Table.has_iff.mp hhas⟩
  · refine ⟨fun n ports hn => ?_, _, Table.get_set_self _ _ _⟩
    rcases Table.get_set_some hn with ⟨-, rfl⟩ | ⟨-, hn⟩
    · simp
    · exact h n ports hn

theorem addAgent_ports {t : Topology} (r : AgentId × AgentInfo) (h : ∃ ports, t.ports.get n = some ports) :
    ∃ ports, (t.addAgent st r.1 r.2).ports.get n = some ports := by
  obtain ⟨ports, hn⟩ := h
  simp only [Topology.addAgent, Table.orInsert]
  split
  · exact ⟨ports, hn⟩
  · rw [Table.get_set]
    split
    · exact ⟨_, rfl⟩
    · exact ⟨ports, hn⟩

theorem foldl_addAgent_ports (rows : List (AgentId × AgentInfo)) {t : Topology} (h : t.Bound) :
    (rows.foldl (fun t r => t.addAgent st r.1 r.2) t).Bound ∧
      ∀ n, ((∃ r ∈ rows, r.2.nodeId = n) ∨ ∃ ports, t.ports.get n = some ports) →
        ∃ ports, (rows.foldl (fun t r => t.addAgent st r.1 r.2) t).ports.get n = some ports := by
  induction rows generalizing t with
  | nil => exact ⟨h, fun n hn => hn.resolve_left (by simp)⟩
  | cons r rows ih =>
    obtain ⟨hb, hown⟩ := addAgent_bound h st r
    refine ⟨(ih hb).1, fun n hn => (ih hb).2 n ?_⟩
    rcases hn with ⟨q, hq, rfl⟩ | hn
    · rcases List.mem_cons.mp hq with rfl | hq
      · exact .inr hown
      · exact .inl ⟨q, hq, rfl⟩
    · exact .inr (addAgent_ports r hn)

/-- No GPUs yet, only what the islands and the addresses say. -/
structure Topology.Bare (t : Topology) (islands : List Island) : Prop where
  free : t.freeGpus = ∅
  bound : t.Bound
  islands : t.islands = islands

theorem probed_bare {t : Topology} {islands : List Island} (h : t.Bare islands) (near far : String)
    (ok : Bool) (rtt : Nat) (forwarded : Bool) :
    (t.probed near far ok rtt forwarded).Bare islands := by
  unfold Topology.probed
  simp only
  split <;> split <;> exact ⟨h.free, h.bound, h.islands⟩

/-- A peer adds addresses and links. -/
theorem addPeer_bare {t : Topology} {islands : List Island} (h : t.Bare islands) (node : NodeId)
    (p : PeerInfo) : (t.addPeer node p).Bare islands := by
  unfold Topology.addPeer Topology.reported
  simp only
  refine List.foldlRecOn _ _ (motive := (Topology.Bare · islands)) ?_ ?_
  · refine List.foldlRecOn _ _ (motive := (Topology.Bare · islands))
      ⟨h.free, record_bound h.bound _ _ _ _ _, h.islands⟩ ?_
    intro t ht near _
    refine List.foldlRecOn _ _ (motive := (Topology.Bare · islands)) ht ?_
    exact fun t ht far _ => probed_bare ht _ _ _ _ _
  · intro t ht q _
    split
    · exact ht
    · refine List.foldlRecOn _ _ (motive := (Topology.Bare · islands)) ht ?_
      intro t ht near _
      refine List.foldlRecOn _ _ (motive := (Topology.Bare · islands)) ht ?_
      exact fun t ht far _ => probed_bare ht _ _ _ _ _

/-- The topology is what the peers give, with the live agents added. -/
theorem topology_eq (host : LocalHost) (ord : HashOrder) (st : State) :
    ∃ t0 : Topology, t0.Bare st.fabrics.islands ∧ topology host ord st =
      ((ord.walk st.agents).filter fun r => r.2.alive).foldl
        (fun t r => t.addAgent st r.1 r.2) t0 := by
  refine ⟨_, ?_, rfl⟩
  refine List.foldlRecOn _ _ (motive := (Topology.Bare · st.fabrics.islands)) ?_ ?_
  · exact ⟨rfl, record_bound (fun n ports hn => (by cases hn)) _ _ _ _ _, rfl⟩
  · exact fun t ht r _ => addPeer_bare ht r.1 r.2

theorem topology_islands (host : LocalHost) (ord : HashOrder) (st : State) :
    (topology host ord st).islands = st.fabrics.islands := by
  obtain ⟨t0, hbare, he⟩ := topology_eq host ord st
  rw [he]
  exact List.foldlRecOn _ _ (motive := fun t : Topology => t.islands = st.fabrics.islands)
    hbare.islands fun t ht _ _ => ht

theorem topology_free (host : LocalHost) (ord : HashOrder) (st : State) (n : NodeId) :
    (topology host ord st).free n = nodeFree st n := by
  obtain ⟨t0, hbare, he⟩ := topology_eq host ord st
  have hzero : t0.free n = 0 := by
    rw [Topology.free, hbare.free]
    rfl
  rw [he, foldl_addAgent_free, hzero, Nat.zero_add, List.filter_filter, nodeFree]
  refine (((ord.walk_perm st.agents).filter _).map _).sum_eq.trans ?_
  simp only [Bool.and_comm]

theorem topology_has (host : LocalHost) (ord : HashOrder) (st : State) (n : NodeId) :
    (topology host ord st).freeGpus.has n = true ↔
      ∃ id a, st.agents.get id = some a ∧ a.alive = true ∧ a.nodeId = n := by
  obtain ⟨t0, hbare, he⟩ := topology_eq host ord st
  have hnone : ¬ t0.freeGpus.has n = true := by
    rw [hbare.free]
    exact Bool.false_ne_true
  rw [he, foldl_addAgent_has, or_iff_left hnone]
  simp only [List.mem_filter, (ord.walk_perm st.agents).mem_iff, Prod.exists, Table.mem_rows,
    and_assoc]

/-- A node with a live agent has an address. -/
theorem topology_ports {host : LocalHost} {ord : HashOrder} {st : State} {n : NodeId}
    (h : (topology host ord st).freeGpus.has n = true) :
    ∃ p ports, (topology host ord st).ports.get n = some (p :: ports) := by
  obtain ⟨id, a, ha, hl, hn⟩ := (topology_has host ord st n).mp h
  obtain ⟨t0, hbare, he⟩ := topology_eq host ord st
  rw [he]
  obtain ⟨hbound, hports⟩ :=
    foldl_addAgent_ports ((ord.walk st.agents).filter fun r => r.2.alive) hbare.bound
  obtain ⟨ports, hp⟩ := hports n (.inl ⟨(id, a), by
    simpa [(ord.walk_perm st.agents).mem_iff, Table.mem_rows] using ⟨ha, hl⟩, hn⟩)
  cases ports with
  | nil => exact absurd rfl (hbound n [] hp)
  | cons p ports => exact ⟨p, ports, hp⟩

end Topology

/-! ## What a group can use -/

/-- A live agent of the group on the node has the GPUs free. -/
def Serves (st : State) (group : String) (n : NodeId) (gpus : Nat) : Prop :=
  ∃ id a, st.agents.get id = some a ∧ a.alive = true ∧ a.group = group ∧ a.nodeId = n ∧
    gpus ≤ (st.freeGpusOf id).length

instance (st : State) (group : String) (n : NodeId) (gpus : Nat) : Decidable (Serves st group n gpus) :=
  decidable_of_iff (∃ r ∈ st.agents.rows, r.2.alive = true ∧ r.2.group = group ∧ r.2.nodeId = n ∧
    gpus ≤ (st.freeGpusOf r.1).length) (by simp only [Serves, Prod.exists, Table.mem_rows])

/-- The nodes a view lists for a set, in order. -/
def viewNodes (view : Value) (set : String) : List NodeId :=
  ((((view.idx "sets").idx set).asArray).getD []).filterMap fun m => (m.idx "node").asStr

theorem viewNodes_toJson {t : Topology} {sol : Solution} {k : String} {members : List Member}
    (h : sol.sets.get k = some members) : viewNodes (sol.toJson t) k = members.map (·.node) := by
  rw [viewNodes, toJson_set h, Value.asArray, Option.getD_some, List.filterMap_map]
  have hnode : ((fun m : Value => (m.idx "node").asStr) ∘ fun m : Member => m.toJson t.hosts) =
      fun m => some m.node := by
    funext m
    rw [Function.comp_apply, toJson_node, Value.asStr]
  rw [hnode, List.filterMap_eq_map']

/-- Every node of the view has an agent of the group, and the node of member `i` one with the GPUs
of bundle `i`. -/
structure ServedBy (st : State) (group : String) (req : Request) (view : Value) : Prop where
  hosted : ∀ n ∈ claimedNodes view, Serves st group n 0
  holds : ∀ set ∈ req.sets, ∀ i n, (viewNodes view set.name)[i]? = some n →
    Serves st group n (set.bundles.getD i 0)

/-- On every node with a live agent, one live agent of the group has all that is free there. -/
def OwnsNodes (st : State) (group : String) : Prop :=
  ∀ id a, st.agents.get id = some a → a.alive = true →
    Serves st group a.nodeId (nodeFree st a.nodeId)

/-- Every node on an island has a live agent of the group. -/
def IslandsServed (st : State) (group : String) : Prop :=
  ∀ i ∈ st.fabrics.islands, ∀ n ∈ i.nodes, Serves st group n 0

/-- The request has no bundle without a GPU among the mesh sets that need a fabric. -/
def Request.wantsGpus (req : Request) : Bool :=
  req.sets.all fun set => set.layout.ordered || set.link != .rdma || set.bundles.all (0 < ·)

theorem Serves.mono {st : State} {group : String} {n : NodeId} {gpus gpus' : Nat}
    (h : Serves st group n gpus) (hle : gpus' ≤ gpus) : Serves st group n gpus' := by
  obtain ⟨id, a, ha, hl, hg, hn, hfree⟩ := h
  exact ⟨id, a, ha, hl, hg, hn, hle.trans hfree⟩

section Solved

variable {host : LocalHost} {ord : HashOrder} {st : State} {group : String} {req : Request}
  {sol : Solution}

/-- A node the topology counts GPUs on serves the group with all of them. -/
theorem OwnsNodes.serves (h : OwnsNodes st group) {n : NodeId}
    (hn : (topology host ord st).freeGpus.has n = true) :
    Serves st group n ((topology host ord st).free n) := by
  obtain ⟨id, a, ha, hl, rfl⟩ := (topology_has host ord st n).mp hn
  rw [topology_free]
  exact h id a ha hl

/-- What the solver gives a group that owns its nodes, the group can use. -/
theorem solve_served (h : solve (topology host ord st) req = .ok sol) (howns : OwnsNodes st group)
    (hislands : req.wantsGpus = true ∨ IslandsServed st group) :
    ServedBy st group req (sol.toJson (topology host ord st)) := by
  obtain ⟨-, hsets, hnames⟩ := solve_sound h
  have hholds : ∀ set ∈ req.sets, ∀ members, sol.sets.get set.name = some members →
      ∀ i n, (members.map (·.node))[i]? = some n → Serves st group n (set.bundles.getD i 0) := by
    intro set hset members hm i n hn
    obtain ⟨taken, nodes, members', hc, hmem, hm'⟩ := hsets set hset
    cases hm.symm.trans hm'
    rw [membersOf_nodes hmem] at hn
    obtain ⟨hlen, hfits, hin⟩ := candidates_sound hc
    have hfit : set.bundles.getD i 0 ≤ (topology host ord st).free n := by
      simpa [SetReq.fits] using hfits i n hn
    by_cases hagent : (topology host ord st).freeGpus.has n = true
    · exact (howns.serves hagent).mono hfit
    · -- A node of an island with no agent, which can only have been given nothing to hold.
      obtain ⟨ho, hlink, island, hisland, hmem⟩ :=
        (hin n (List.mem_of_getElem? hn)).resolve_left hagent
      have hzero : set.bundles.getD i 0 = 0 := by
        rw [Topology.free, Table.has_eq_false.mp (Bool.eq_false_iff.mpr hagent)] at hfit
        exact Nat.le_zero.mp hfit
      rw [hzero]
      rcases hislands with hwants | hserved
      · have hall := List.all_eq_true.mp hwants set hset
        simp only [ho, hlink, bne_self_eq_false, Bool.false_or, List.all_eq_true,
          decide_eq_true_eq] at hall
        have hi : i < set.bundles.length := hlen ▸ (List.getElem?_eq_some_iff.mp hn).1
        have := hall _ (List.getElem_mem hi)
        rw [List.getD_eq_getElem?_getD, List.getElem?_eq_getElem hi, Option.getD_some] at hzero
        omega
      · rw [topology_islands] at hisland
        exact hserved island hisland n hmem
  constructor
  · intro n hn
    obtain ⟨k, members, m, hk, hm, rfl⟩ := mem_claimedNodes.mp hn
    obtain ⟨set, hset, rfl⟩ := hnames k members hk
    obtain ⟨i, hi, rfl⟩ := List.mem_iff_getElem.mp hm
    refine (hholds set hset members hk i _ ?_).mono (Nat.zero_le _)
    rw [List.getElem?_map, List.getElem?_eq_getElem hi, Option.map_some]
  · intro set hset i n hn
    obtain ⟨-, -, members, -, -, hm⟩ := hsets set hset
    rw [viewNodes_toJson hm] at hn
    exact hholds set hset members hm i n hn

end Solved

/-! ## Every node is chosen by some request -/

section Prefix

variable {t : Topology}

/-- One mesh set that asks the first nodes for all they have. -/
def prefixSet (t : Topology) (k : Nat) : SetReq :=
  ⟨"s", (t.freeGpus.sortedKeys.take k).map t.free, .any, .mesh, ""⟩

theorem chooseFirst_prefix {k : Nat} (hk : k ≤ t.freeGpus.sortedKeys.length) :
    chooseFirst t (prefixSet t k) [] t.freeGpus.sortedKeys = t.freeGpus.sortedKeys.take k := by
  have hwant : (prefixSet t k).bundles.length = k := by
    simpa [prefixSet] using hk
  -- After the first keys of the list, those of them are chosen that the set has room for.
  have hfold : ∀ (rest done : List NodeId), t.freeGpus.sortedKeys = done ++ rest →
      rest.foldl (fun chosen n =>
        if chosen.length = (prefixSet t k).bundles.length then chosen
        else if !([] : List NodeId).contains n && (prefixSet t k).fits t n chosen.length then
          chosen ++ [n]
        else chosen) (done.take k) = t.freeGpus.sortedKeys.take k := by
    intro rest
    induction rest with
    | nil =>
      intro done hkeys
      rw [hkeys, List.append_nil, List.foldl_nil]
    | cons n rest ih =>
      intro done hkeys
      rw [List.foldl_cons, ← ih (done ++ [n]) (by rw [hkeys, List.append_assoc]; rfl)]
      congr 1
      rw [hwant, List.length_take]
      rcases Nat.lt_or_ge done.length k with hlt | hge
      · have hfits : (prefixSet t k).fits t n done.length = true := by
          have hn : (t.freeGpus.sortedKeys.take k)[done.length]? = some n := by
            rw [List.getElem?_take_of_lt hlt, hkeys, List.getElem?_append_right (le_refl _),
              Nat.sub_self, List.getElem?_cons_zero]
          simp only [SetReq.fits, prefixSet, List.getD_eq_getElem?_getD, List.getElem?_map, hn,
            Option.map_some, Option.getD_some, le_refl, decide_true]
        rw [Nat.min_eq_right (Nat.le_of_lt hlt), if_neg (by omega), List.contains_nil, hfits,
          List.take_of_length_le (Nat.le_of_lt hlt), List.take_of_length_le (by simp; omega)]
        rfl
      · rw [Nat.min_eq_left hge, if_pos rfl, List.take_append_of_le_length hge]
  have hall := hfold t.freeGpus.sortedKeys [] (List.nil_append _).symm
  rwa [List.take_nil] at hall

theorem memberAt_any {nodes : List NodeId} {k i : Nat} {n : NodeId} {p : Port} {ports : List Port}
    (hp : t.ports.get n = some (p :: ports)) :
    ∃ m, memberAt t (prefixSet t k) nodes n i = .ok m := by
  simp [memberAt, neighbours, prefixSet, neighbourIdx, cableTo, bindFor, hp, bind, Except.bind,
    Option.bind]

theorem solve_prefix {k : Nat} (hpos : 0 < k) (hk : k ≤ t.freeGpus.sortedKeys.length)
    (hports : ∀ n, t.freeGpus.has n = true → ∃ p ports, t.ports.get n = some (p :: ports)) :
    ∃ sol members, solve t ⟨[prefixSet t k], []⟩ = .ok sol ∧ sol.sets.get "s" = some members ∧
      members.map (·.node) = t.freeGpus.sortedKeys.take k := by
  have hlen : (t.freeGpus.sortedKeys.take k).length = k := by
    rw [List.length_take, Nat.min_eq_left hk]
  have hcand : candidates t (prefixSet t k) [] = [t.freeGpus.sortedKeys.take k] := by
    have hwant : (prefixSet t k).bundles.length = k := by rw [prefixSet, List.length_map, hlen]
    unfold candidates
    rw [if_neg (by simp [prefixSet, Layout.ordered])]
    have hlink : (prefixSet t k).link = .any := rfl
    simp only [hlink, chooseFirst_prefix hk, hwant, hlen, if_true]
  have hmem : ∃ members, membersOf t (prefixSet t k) (t.freeGpus.sortedKeys.take k) = .ok members := by
    refine mapM_ok_of_forall fun x hx => ?_
    have hn : x.1 ∈ t.freeGpus.sortedKeys :=
      List.mem_of_mem_take (List.fst_mem_of_mem_zipIdx hx)
    rw [Table.sortedKeys, List.mem_insertionSort, Table.mem_keys] at hn
    obtain ⟨p, ports, hp⟩ := hports x.1 (Table.has_iff.mpr hn)
    exact memberAt_any hp
  obtain ⟨members, hmem⟩ := hmem
  have hmal : malformed ⟨[prefixSet t k], []⟩ = none := by
    have hne : (prefixSet t k).bundles.isEmpty = false := by
      rw [prefixSet, List.isEmpty_eq_false_iff, ← List.length_pos_iff, List.length_map, hlen]
      exact hpos
    simp [malformed, hne]
  have hsearch : search t ⟨[prefixSet t k], []⟩ [prefixSet t k] ∅ [] =
      some ((∅ : Table String (List NodeId)).set "s" (t.freeGpus.sortedKeys.take k)) := by
    simp only [search, hcand, pathsBetween, List.findSome?_cons, List.mapM_nil]
    rfl
  refine ⟨⟨(∅ : Table String (List Member)).set "s" members, []⟩, members, ?_,
    Table.get_set_self _ _ _, membersOf_nodes hmem⟩
  have hsets : solvedSets t ((∅ : Table String (List NodeId)).set "s" (t.freeGpus.sortedKeys.take k))
      [prefixSet t k] ∅ = .ok ((∅ : Table String (List Member)).set "s" members) := by
    have hget : ((∅ : Table String (List NodeId)).set "s" (t.freeGpus.sortedKeys.take k)).get
        (prefixSet t k).name = some (t.freeGpus.sortedKeys.take k) := Table.get_set_self _ _ _
    simp only [solvedSets, hget, Option.getD_some, hmem, bind, Except.bind]
    rfl
  simp only [solve, hmal, List.insertionSort_cons, List.insertionSort_nil, List.orderedInsert_nil,
    hsearch, hsets, bind, Except.bind, pathsBetween, List.mapM_nil]
  rfl

end Prefix

/-- A group can use every node that the solver may give it exactly when, on every node with a live
agent, one of its agents has all the GPUs that are free there. With that, and with an agent of the
group on every node of an island in case a bundle asks for no GPU, what a claim puts in its view the
group can use. -/
theorem claim_serves_iff (host : State → LocalHost) (ord : HashOrder)
    (nodeIpOf : NodeId → Option String) (st : State) (group : String) :
    ((∀ req view, req.wantsGpus = true → (claimOps host ord nodeIpOf).solve st req = .ok view →
      ServedBy st group req view) ↔ OwnsNodes st group) ∧
    ∀ client name shape g view req, clientGroup st client = group →
      st.claims.get (group, name) = none →
      (claim (claimOps host ord nodeIpOf) st client name shape).2 = .claimOk g view →
      parse shape = .ok req → OwnsNodes st group →
      (req.wantsGpus = true ∨ IslandsServed st group) → ServedBy st group req view := by
  have hserved : ∀ req view, (claimOps host ord nodeIpOf).solve st req = .ok view →
      OwnsNodes st group → (req.wantsGpus = true ∨ IslandsServed st group) →
      ServedBy st group req view := by
    intro req view hsolve howns hislands
    simp only [claimOps] at hsolve
    cases hsol : solve (topology (host st) ord st) req with
    | error why =>
      rw [hsol] at hsolve
      cases hsolve
    | ok sol =>
      rw [hsol] at hsolve
      cases hsolve
      exact solve_served hsol howns hislands
  refine ⟨⟨fun hall id a ha hl => ?_, fun howns req view hw hs => hserved req view hs howns (.inl hw)⟩,
    ?_⟩
  · -- The request that asks this node and those before it for all they have.
    let t := topology (host st) ord st
    have hhas : t.freeGpus.has a.nodeId = true := (topology_has _ _ _ _).mpr ⟨id, a, ha, hl, rfl⟩
    have hkey : a.nodeId ∈ t.freeGpus.sortedKeys := by
      rw [Table.sortedKeys, List.mem_insertionSort, Table.mem_keys]
      exact Table.has_iff.mp hhas
    obtain ⟨j, hj, hnode⟩ := List.mem_iff_getElem.mp hkey
    have hat : (t.freeGpus.sortedKeys.take (j + 1))[j]? = some a.nodeId := by
      rw [List.getElem?_take_of_lt (Nat.lt_succ_self j), List.getElem?_eq_getElem hj, hnode]
    obtain ⟨sol, members, hsol, hm, hnodes⟩ :=
      solve_prefix (Nat.succ_pos j) hj fun n hn => topology_ports hn
    have hview : (claimOps host ord nodeIpOf).solve st ⟨[prefixSet t (j + 1)], []⟩ =
        .ok (sol.toJson t) := by
      simp only [claimOps]
      rw [hsol]
      rfl
    have hs := (hall ⟨[prefixSet t (j + 1)], []⟩ _ rfl hview).holds _ List.mem_cons_self j a.nodeId (by
      rw [show (prefixSet t (j + 1)).name = "s" from rfl, viewNodes_toJson hm, hnodes, hat])
    have hbundle : (prefixSet t (j + 1)).bundles.getD j 0 = nodeFree st a.nodeId := by
      rw [prefixSet, List.getD_eq_getElem?_getD, List.getElem?_map, hat, Option.map_some,
        Option.getD_some, topology_free]
    rwa [hbundle] at hs
  · intro client name shape g view req hgroup hnone hok hparse howns hislands
    subst hgroup
    rcases claim_cases (claimOps host ord nodeIpOf) st client name shape with ⟨-, code, text, hr⟩ |
      ⟨c, hc, -⟩ | ⟨-, -, req', view', e, hreq, hview, -, hr⟩
    · rw [hr] at hok
      cases hok
    · rw [hnone] at hc
      cases hc
    · rw [hr] at hok
      cases hok
      have hsame : req' = req := Except.ok.inj (hreq.symm.trans hparse)
      exact hserved req view (hsame ▸ hview) howns hislands

/-- The generation and the view of a granted claim. -/
def Reply.granted : Reply → Option (Nat × Value)
  | .claimOk generation view => some (generation, view)
  | _ => none

theorem Reply.granted_eq_some {r : Reply} {x : Nat × Value} (h : r.granted = some x) :
    r = .claimOk x.1 x.2 := by
  cases r with
  | claimOk generation view =>
    cases h
    rfl
  | _ => cases h

theorem claim_serves_driverUp :
    ∃ st g view req, (daemon Sample.cfg Sample.claims).Reach System.Free st ∧
      (claim Sample.claims st "c" "job" Sample.oneNode).2 = .claimOk g view ∧
      parse Sample.oneNode = .ok req ∧ ServedBy st "g" req view := by
  have hrun : ((daemon Sample.cfg Sample.claims).run System.Free Sample.boot driverUp).any (fun st =>
      clientGroup st "c" == "g" && !st.claims.has ("g", "job") &&
      (claim Sample.claims st "c" "job" Sample.oneNode).2.granted.isSome &&
      st.agents.rows.all fun r => decide (Serves st "g" r.2.nodeId (nodeFree st r.2.nodeId))) = true := by
    decide +kernel
  obtain ⟨st, hreach, hp⟩ := System.Reach.of_run hrun ⟨_, _, _, rfl⟩
  simp only [Bool.and_eq_true, beq_iff_eq, Bool.not_eq_true', Table.has_eq_false, List.all_eq_true,
    decide_eq_true_eq, Option.isSome_iff_exists] at hp
  obtain ⟨⟨⟨hgroup, hnone⟩, ⟨g, view⟩, hok⟩, howns⟩ := hp
  have hview := Reply.granted_eq_some hok
  have hreq : parse Sample.oneNode = .ok ⟨[⟨"s", [1], .any, .mesh, ""⟩], []⟩ := by rfl
  refine ⟨st, g, view, _, hreach, hview, hreq, ?_⟩
  exact (claim_serves_iff (fun _ => Sample.host) .insertion (fun _ => none) st "g").2 "c" "job" _ g
    view _ hgroup hnone hview hreq (fun id a ha _ => howns (id, a) (Table.mem_rows.mpr ha)) (.inl rfl)

/-- A daemon with an agent of one group and a driver of another. -/
def sharedCluster : List (Env × Section) := [
  (Sample.at_ 0, .elect "n:1"),
  (Sample.at_ 1, .register 1 { Sample.registration [] [] with agentId := "a", group := "h", nodeId := "n:1" }),
  (Sample.at_ 2, .register 2 (Sample.registration [] [])),
  (Sample.at_ 3, .hello 3 (Sample.driver "c" true))]

/-- The claim of a driver of the second group is put on the node of the first, which has no agent of
its group. -/
theorem sharedCluster_not_served :
    ∃ st g view, (daemon Sample.cfg Sample.claims).Reach System.Free st ∧ clientGroup st "c" = "g" ∧
      (claim Sample.claims st "c" "job" Sample.oneNode).2 = .claimOk g view ∧
      "n:1" ∈ claimedNodes view ∧ ¬ Serves st "g" "n:1" 0 := by
  have hrun : ((daemon Sample.cfg Sample.claims).run System.Free Sample.boot sharedCluster).any
      (fun st => clientGroup st "c" == "g" &&
        (claim Sample.claims st "c" "job" Sample.oneNode).2.granted.any
          (fun x => decide ("n:1" ∈ claimedNodes x.2)) &&
        !decide (Serves st "g" "n:1" 0)) = true := by decide +kernel
  obtain ⟨st, hreach, hp⟩ := System.Reach.of_run hrun ⟨_, _, _, rfl⟩
  simp only [Bool.and_eq_true, beq_iff_eq, Option.any_eq_true, decide_eq_true_eq, Bool.not_eq_true',
    decide_eq_false_iff_not] at hp
  obtain ⟨⟨hgroup, ⟨g, view⟩, hok, hmem⟩, hno⟩ := hp
  exact ⟨st, g, view, hreach, hgroup, Reply.granted_eq_some hok, hmem, hno⟩

end Mentat
