import Mentat.Claim.Mesh
import Mentat.Daemon.Section
import Mentat.Ground

/-!
# GPU vendors

A collective spans GPUs of one vendor, and a set's request may pin which. Nothing that chooses nodes
or devices looks at a vendor: not the solver's candidates, not its walk, and not the first fit of a
placement. The rule holds where there is nothing to choose from.

* `solve_vendors_iff`: the sets a topology can be given are each of one vendor exactly when all its
  nodes are.
* `placement_vendors_iff`: without islands, the groups that can be placed now are each on GPUs of one
  vendor exactly when all free GPUs of their agents are.
-/

namespace Mentat

/-! ## Sets -/

/-- The vendor a node offers, empty for one without GPUs. -/
def Topology.vendorOf (t : Topology) (n : NodeId) : String := (t.vendors.get n).getD ""

/-- The set lies on nodes of one vendor, which is the pinned one where there is a pin. -/
def VendorMet (t : Topology) (set : SetReq) (members : List Member) : Prop :=
  ∃ v, (∀ m ∈ members, t.vendorOf m.node = v) ∧ (set.vendor ≠ "" → v = set.vendor)

/-- Every set of every request that pins `pin` and has a solution lies on nodes of one vendor. -/
def SetsOneVendor (t : Topology) (pin : String) : Prop :=
  ∀ req sol, (∀ s ∈ req.sets, s.vendor = pin) → solve t req = .ok sol →
    ∀ s ∈ req.sets, ∀ members, sol.sets.get s.name = some members → VendorMet t s members

/-- A topology of nodes with an agent each, which listen somewhere. -/
structure Topology.Served (t : Topology) : Prop where
  listens : ∀ n, t.freeGpus.has n = true → ∃ p ports, t.ports.get n = some (p :: ports)
  islands : ∀ island ∈ t.islands, ∀ n ∈ island.nodes, t.freeGpus.has n = true

section Sets

variable {t : Topology}

/-- Every node may be asked for at once, in a plain set without GPUs. -/
theorem solve_every_node (h : t.Served) (hne : t.freeGpus.sortedKeys ≠ []) (pin : String) :
    ∃ set sol members, set.vendor = pin ∧ solve t ⟨[set], []⟩ = .ok sol ∧
      sol.sets.get set.name = some members ∧ members.map (·.node) = t.freeGpus.sortedKeys := by
  let set : SetReq := ⟨"all", List.replicate t.freeGpus.sortedKeys.length 0, .any, .mesh, pin⟩
  have hroom : room (fun _ => true) [] t.freeGpus.sortedKeys = t.freeGpus.sortedKeys := by
    simp [room]
  have hfits : ∀ n i, i < set.bundles.length → set.fits t n i = true := by
    intro n i hi
    simp [SetReq.fits, set, List.getD_eq_getElem?_getD]
  have hcand : candidates t set [] = [t.freeGpus.sortedKeys] := by
    unfold candidates
    simp only [set, Layout.ordered, bne_self_eq_false, Bool.false_eq_true, if_false]
    rw [chooseFirst_eq_take hfits, hroom]
    simp [set]
  have hbinds : ∀ n ∈ t.freeGpus.sortedKeys,
      (bindFor t set n t.freeGpus.sortedKeys).isSome = true := by
    intro n hn
    rw [Table.sortedKeys, List.mem_insertionSort, Table.mem_keys] at hn
    obtain ⟨p, ports, hports⟩ := h.listens n (Table.has_iff.mpr hn)
    simp [bindFor, hports, set]
  obtain ⟨members, hm⟩ := (membersOf_mesh rfl t.freeGpus.sortedKeys).mpr hbinds
  have hbundles : set.bundles ≠ [] := by simpa [set] using hne
  obtain ⟨sol, hsol, hget⟩ := solve_one hbundles (by rw [hcand]; rfl) hm
  exact ⟨set, sol, members, rfl, hsol, hget, membersOf_nodes hm⟩

/-- All sets that pin `pin`, or none, are of one vendor exactly when all nodes are. -/
theorem solve_vendors_iff (h : t.Served) (pin : String) : SetsOneVendor t pin ↔
    ∃ v, (∀ n, t.freeGpus.has n = true → t.vendorOf n = v) ∧ (pin ≠ "" → v = pin) := by
  constructor
  · intro hall
    by_cases hne : t.freeGpus.sortedKeys = []
    · refine ⟨pin, fun n hn => ?_, fun _ => rfl⟩
      have hmem : n ∈ t.freeGpus.sortedKeys := by
        rw [Table.sortedKeys, List.mem_insertionSort, Table.mem_keys]
        exact Table.has_iff.mp hn
      rw [hne] at hmem
      cases hmem
    · obtain ⟨set, sol, members, rfl, hsol, hget, hnodes⟩ := solve_every_node h hne pin
      obtain ⟨v, hv, hpin⟩ := hall _ sol (by simp) hsol set (by simp) members hget
      refine ⟨v, fun n hn => ?_, hpin⟩
      have hmem : n ∈ members.map (·.node) := by
        rw [hnodes, Table.sortedKeys, List.mem_insertionSort, Table.mem_keys]
        exact Table.has_iff.mp hn
      obtain ⟨m, hm, rfl⟩ := List.mem_map.mp hmem
      exact hv m hm
  · rintro ⟨v, hv, hpin⟩ req sol hreq hsol s hs members hget
    refine ⟨v, fun m hm => hv _ ?_, fun hne => ?_⟩
    · obtain ⟨-, hsets, -⟩ := solve_sound hsol
      obtain ⟨taken, nodes, members', hc, hmem, hget'⟩ := hsets s hs
      cases hget.symm.trans hget'
      have hin : m.node ∈ nodes := by
        rw [← membersOf_nodes hmem]
        exact List.mem_map_of_mem hm
      rcases (candidates_sound hc).2.2 _ hin with hhas | ⟨-, -, island, hisland, hnode⟩
      · exact hhas
      · exact h.islands island hisland _ hnode
    · rw [hreq s hs] at hne ⊢
      exact hpin hne

end Sets

/-! ## Placement groups -/

/-- The device of an agent is of a vendor. -/
def State.DeviceOf (st : State) (id : AgentId) (g : Nat) (v : String) : Prop :=
  ∀ a gpu, st.agents.get id = some a → gpu ∈ a.machine.gpus → gpu.index = g → gpu.vendor = v

/-- The bundles are on GPUs of one vendor. -/
def BundlesOneVendor (st : State) (bundles : List BundleAssignment) : Prop :=
  ∃ v, ∀ b ∈ bundles, ∀ g ∈ b.gpuIds, st.DeviceOf b.agent g v

section Groups

variable {cfg : Cfg} {ops : ClaimOps} {st : State} {group : String}

theorem agentOrder_nodup (st : State) (group : String) (p later : AgentInfo → Bool) :
    (agentOrder st group p later).Nodup := by
  unfold agentOrder
  refine ((List.perm_insertionSort _ _).map _).nodup_iff.mpr ?_
  rw [List.map_map]
  have hkeys : (st.agents.rows.map (·.1)).Nodup := by
    have : st.agents.rows.map (·.1) = st.agents.keys := by
      simp [Table.rows, Table.keys, AList.keys]
      rfl
    rw [this]
    exact st.agents.alist.keys_nodup
  exact hkeys.sublist (List.filter_sublist.map _)

/-- Every free GPU of a group's agents may be asked for at once. -/
theorem fit_every_gpu (st : State) (group : String) (driver : NodeId) :
    ∃ bundles a, fit st group bundles driver none = some a ∧
      ∀ id ∈ agentOrder st group (fun _ => true) (fun a => a.nodeId != driver),
        ∀ g ∈ st.freeGpusOf id, ∃ b : BundleAssignment, some b ∈ a ∧ b.agent = id ∧ g ∈ b.gpuIds := by
  let agents := agentOrder st group (fun _ => true) (fun a => a.nodeId != driver)
  let bundles := List.replicate (portions (fun id => (st.freeGpusOf id).length) 1 agents) 1
  obtain ⟨got, hgot, hall⟩ : ∃ got,
      drain (fun _ => agents) (fun spec => max spec 1) st.freeGpusOf bundles = .ok got ∧
      ∀ id ∈ agents, ∀ g ∈ st.freeGpusOf id, ∃ x ∈ got, x.1 = id ∧ g ∈ x.2 :=
    drain_units (agentOrder_nodup st group _ _) (fun _ _ => rfl)
      (fun r hr => by rw [List.eq_of_mem_replicate hr]; rfl) (List.length_replicate).symm
  refine ⟨bundles, got.map fun x => some ⟨x.1, nodeOf st x.1, x.2, ∅⟩, ?_, fun id hid g hg => ?_⟩
  · unfold fit
    simp only [Option.all_none]
    rw [hgot]
  · obtain ⟨x, hx, rfl, hgx⟩ := hall id hid g hg
    exact ⟨⟨x.1, nodeOf st x.1, x.2, ∅⟩, List.mem_map_of_mem hx, rfl, hgx⟩

/-- A group of the name that asks for these bundles. -/
def groupOf (group : String) (bundles : List Nat) : PgInfo :=
  ⟨group, "", bundles, "", [], .pending, 0, none, "", none, none, none⟩

/-- All free GPUs of the group's live agents are of the vendor. -/
def FreeOneVendor (st : State) (group v : String) : Prop :=
  ∀ id row, st.agents.get id = some row → row.alive = true → row.group = group →
    ∀ g ∈ st.freeGpusOf id, st.DeviceOf id g v

/-- What is placed from GPUs of one vendor is on that vendor. -/
theorem placementOf_vendor {v : String} {pg : PgInfo} {island : Option Island}
    {a : List (Option BundleAssignment)} (hv : FreeOneVendor st pg.group v)
    (h : placementOf cfg ops st pg = .ok (island, a)) : BundlesOneVendor st (a.filterMap id) := by
  refine ⟨v, fun b hb g hg => ?_⟩
  obtain ⟨row, hrow, hl, hgroup⟩ := placementOf_hosts h b hb
  exact hv b.agent row hrow hl hgroup g ((placementOf_fits h).free b hb g hg)

/-- Where islands play no part, the groups that can be placed are each on GPUs of one vendor exactly
when all free GPUs of their agents are. -/
theorem placement_vendors_iff (hcfg : cfg.islandPlacement = false) :
    (∀ pg island a, pg.group = group → placementOf cfg ops st pg = .ok (island, a) →
      BundlesOneVendor st (a.filterMap id)) ↔ ∃ v, FreeOneVendor st group v := by
  constructor
  · intro hall
    obtain ⟨bundles, a, hfit, hevery⟩ := fit_every_gpu st group
      (((st.clients.get "").map (·.nodeId)).getD "")
    have hplace : placementOf cfg ops st (groupOf group bundles) = .ok (none, a) := by
      simp [placementOf, placementScopes, groupOf, hcfg, hfit]
    obtain ⟨v, hv⟩ := hall (groupOf group bundles) none a rfl hplace
    refine ⟨v, fun id row hrow hl hg g hfree => ?_⟩
    obtain ⟨b, hb, rfl, hgb⟩ := hevery id (mem_agentOrder.mpr ⟨row, hrow, hl, hg, rfl⟩) g hfree
    exact hv b (List.mem_filterMap.mpr ⟨some b, hb, rfl⟩) g hgb
  · rintro ⟨v, hv⟩ pg island a rfl hplace
    exact placementOf_vendor hv hplace

/-- All GPUs of the group's live agents are of the vendor. -/
def AgentsOneVendor (st : State) (group v : String) : Prop :=
  ∀ id row, st.agents.get id = some row → row.alive = true → row.group = group →
    ∀ gpu ∈ row.machine.gpus, gpu.vendor = v

theorem AgentsOneVendor.free {v : String} (h : AgentsOneVendor st group v) :
    FreeOneVendor st group v := by
  intro id row hrow hl hg g _ a gpu ha hgpu _
  cases hrow.symm.trans ha
  exact h id row hrow hl hg gpu hgpu

/-- A group that some turns leave placed was placed before, or is on the one vendor there is. -/
theorem foldl_placeGroup_vendor {v : String} (h : AgentsOneVendor st group v) (ids : List PgId) :
    (ids.foldl (placeGroup cfg ops) st).agents = st.agents ∧
      ∀ k pg', (ids.foldl (placeGroup cfg ops) st).pgs.get k = some pg' → pg'.state = .created →
        pg'.group = group → (∃ pg, st.pgs.get k = some pg ∧ pg.state = .created) ∨
          BundlesOneVendor st pg'.placed := by
  refine List.foldlRecOn _ _ (motive := fun s : State => s.agents = st.agents ∧
    ∀ k pg', s.pgs.get k = some pg' → pg'.state = .created → pg'.group = group →
      (∃ pg, st.pgs.get k = some pg ∧ pg.state = .created) ∨ BundlesOneVendor st pg'.placed)
    ⟨rfl, fun k pg' hget hc _ => .inl ⟨pg', hget, hc⟩⟩ ?_
  rintro s ⟨hagents, hinv⟩ i -
  have hsame : (placeGroup cfg ops s i).agents = s.agents :=
    (congrArg State.agents (placeGroup_sansPgs cfg ops s i) :)
  refine ⟨hsame.trans hagents, fun k pg' hget hc hg => ?_⟩
  rcases placeGroup_cases cfg ops s i with he | ⟨why, he⟩ | ⟨pg, island, a, hpg, hplace, he⟩
  · exact hinv k pg' (he ▸ hget) hc hg
  · rw [he, Table.get_modify] at hget
    split at hget
    · obtain ⟨pg0, hpg0, rfl⟩ := Option.map_eq_some_iff.mp hget
      exact hinv k pg0 hpg0 hc hg
    · exact hinv k pg' hget hc hg
  · rw [he, Table.get_modify] at hget
    split at hget
    · next hk =>
      -- The group's own turn.
      obtain ⟨pg0, hpg0, rfl⟩ := Option.map_eq_some_iff.mp hget
      rw [hk, hpg] at hpg0
      cases hpg0
      have hs : AgentsOneVendor s pg.group v := by
        rw [AgentsOneVendor, hagents, show pg.group = group from hg]
        exact h
      obtain ⟨w, hw⟩ := placementOf_vendor hs.free hplace
      refine .inr ⟨w, fun b hb g hgb => ?_⟩
      have := hw b hb g hgb
      rw [State.DeviceOf, hagents] at this
      exact this
    · exact hinv k pg' hget hc hg

end Groups

/-- Where the code keeps to one vendor. A topology of served nodes gives its sets one vendor each,
the pinned one where there is a pin, exactly when its nodes are all of that vendor. A try puts each
group on GPUs of one vendor where the agents of the group have no other, and without islands only if
all their free GPUs are of one. -/
theorem one_vendor_iff (cfg : Cfg) (ops : ClaimOps) :
    (∀ t : Topology, t.Served → ∀ pin, SetsOneVendor t pin ↔
      ∃ v, (∀ n, t.freeGpus.has n = true → t.vendorOf n = v) ∧ (pin ≠ "" → v = pin)) ∧
    (∀ env st group v, AgentsOneVendor st group v →
      ∀ id pg pg', st.pgs.get id = some pg → pg.state = .pending →
        (tryPlace cfg ops env st).pgs.get id = some pg' → pg'.state = .created → pg'.group = group →
        BundlesOneVendor st pg'.placed) ∧
    ∀ st group, cfg.islandPlacement = false →
      ((∀ pg island a, pg.group = group → placementOf cfg ops st pg = .ok (island, a) →
        BundlesOneVendor st (a.filterMap id)) ↔ ∃ v, FreeOneVendor st group v) := by
  refine ⟨fun t h pin => solve_vendors_iff h pin, ?_, fun st group hcfg =>
    placement_vendors_iff hcfg⟩
  intro env st group v h id pg pg' hp hstate hget hcreated hgroup
  rcases (foldl_placeGroup_vendor h _).2 id pg' hget hcreated hgroup with ⟨pg0, hpg0, hc⟩ | hone
  · cases hp.symm.trans hpg0
    rw [hstate] at hc
    cases hc
  · exact hone

namespace Sample

/-- The kite, with a GPU vendor for every node. -/
def vendorKite (vendor : NodeId → String) : Topology :=
  { kite with vendors := ["a", "b", "c", "d"].foldl (fun t n => t.set n (vendor n)) ∅ }

end Sample

theorem vendorKite_keys {vendor : NodeId → String} {n : NodeId}
    (h : (Sample.vendorKite vendor).freeGpus.has n = true) : n ∈ ["a", "b", "c", "d"] := by
  have hn := Table.mem_keys.mpr (Table.has_iff.mp h)
  have hkeys : ∀ k ∈ Sample.kite.freeGpus.keys, k ∈ ["a", "b", "c", "d"] := by decide +kernel
  exact hkeys n hn

theorem one_vendor_iff_kite : SetsOneVendor (Sample.vendorKite fun _ => "amd") "amd" := by
  have hports : ∀ n ∈ ["a", "b", "c", "d"], ((Sample.kite.ports.get n).getD []).length = 1 := by
    decide +kernel
  have hvendor : ∀ n ∈ ["a", "b", "c", "d"], (Sample.vendorKite fun _ => "amd").vendorOf n = "amd" := by
    decide +kernel
  refine ((one_vendor_iff Sample.cfg Sample.ops).1 _ ⟨fun n hn => ?_, fun island hi => by cases hi⟩ "amd").mpr
    ⟨"amd", fun n hn => hvendor n (vendorKite_keys hn), fun _ => rfl⟩
  have hlen := hports n (vendorKite_keys hn)
  cases hget : Sample.kite.ports.get n with
  | none => simp [hget] at hlen
  | some ports =>
    rw [hget, Option.getD_some] at hlen
    obtain ⟨p, rfl⟩ := List.length_eq_one_iff.mp hlen
    exact ⟨p, [], hget⟩

namespace Sample

def gpuOf (vendor : String) : Machine := ⟨0, 8, [⟨0, vendor, "gpu", 0, false⟩]⟩

def agentWith (node : NodeId) (vendor : String) : AgentInfo :=
  ⟨"g", node, node, gpuOf vendor, "box", 7, ∅, ∅, 1, true, none, false, none, 0⟩

/-- Two agents of one group with a GPU each, of two vendors, and a group that wants both. -/
def mixed : State :=
  { boot with
    agents := ((∅ : Table AgentId AgentInfo).set "a" (agentWith "n:1" "nvidia")).set "b"
      (agentWith "n:2" "amd")
    pgs := (∅ : Table PgId PgInfo).set "p" (groupOf "g" [1, 1]) }

end Sample

/-- A plain set of two takes a node of each vendor, and so does a group of two bundles. -/
theorem vendors_mix :
    (¬ ∀ t req sol s members, solve t req = .ok sol → s ∈ req.sets →
      sol.sets.get s.name = some members → VendorMet t s members) ∧
    ¬ ∀ cfg ops env st id pg pg', st.pgs.get id = some pg → pg.state = .pending →
      (tryPlace cfg ops env st).pgs.get id = some pg' → pg'.state = .created →
      BundlesOneVendor st pg'.placed := by
  constructor
  · intro h
    let t := Sample.vendorKite fun n => if n = "a" then "nvidia" else "amd"
    let set : SetReq := ⟨"s", [1, 1], .any, .mesh, ""⟩
    have hnodes : (solve t ⟨[set], []⟩).toOption.map (·.nodesOf "s") = some ["a", "b"] := by
      decide +kernel
    obtain ⟨sol, hs⟩ : ∃ sol, solve t ⟨[set], []⟩ = .ok sol := exists_of_isOk (by decide +kernel)
    obtain ⟨-, hsets, -⟩ := solve_sound hs
    obtain ⟨-, -, members, -, -, hget⟩ := hsets set List.mem_cons_self
    rw [hs] at hnodes
    have hpair : members.map (·.node) = ["a", "b"] := by
      have : sol.nodesOf "s" = ["a", "b"] := Option.some.inj hnodes
      rwa [Solution.nodesOf, hget] at this
    obtain ⟨v, hv, -⟩ := h t _ sol set members hs List.mem_cons_self hget
    have hof : ∀ n ∈ members.map (·.node), t.vendorOf n = v := by
      intro n hn
      obtain ⟨m, hm, rfl⟩ := List.mem_map.mp hn
      exact hv m hm
    rw [hpair] at hof
    have ha : t.vendorOf "a" = "nvidia" := by decide +kernel
    have hb : t.vendorOf "b" = "amd" := by decide +kernel
    have := (hof "a" (by simp)).trans (hof "b" (by simp)).symm
    rw [ha, hb] at this
    exact absurd this (by decide)
  · intro h
    have hplaced : ((tryPlace Sample.cfg Sample.ops (Sample.at_ 1) Sample.mixed).pgs.get "p").map
        (fun pg => (pg.state, pg.placed.map fun b => (b.agent, b.gpuIds))) =
        some (.created, [("a", [0]), ("b", [0])]) := by decide +kernel
    obtain ⟨pg', hget, heq⟩ := Option.map_eq_some_iff.mp hplaced
    simp only [Prod.mk.injEq] at heq
    obtain ⟨v, hv⟩ := h _ _ _ Sample.mixed "p" (groupOf "g" [1, 1]) pg' rfl rfl hget heq.1
    have hof : ∀ x ∈ pg'.placed.map (fun b => (b.agent, b.gpuIds)), ∀ g ∈ x.2,
        Sample.mixed.DeviceOf x.1 g v := by
      intro x hx
      obtain ⟨b, hb, rfl⟩ := List.mem_map.mp hx
      exact hv b hb
    rw [heq.2] at hof
    have ha : "nvidia" = v := hof ("a", [0]) (by simp) 0 (by simp) (Sample.agentWith "n:1" "nvidia")
      ⟨0, "nvidia", "gpu", 0, false⟩ rfl (by simp [Sample.agentWith, Sample.gpuOf]) rfl
    have hb : "amd" = v := hof ("b", [0]) (by simp) 0 (by simp) (Sample.agentWith "n:2" "amd")
      ⟨0, "amd", "gpu", 0, false⟩ rfl (by simp [Sample.agentWith, Sample.gpuOf]) rfl
    exact absurd (ha.trans hb.symm) (by decide)

end Mentat
