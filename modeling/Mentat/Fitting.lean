import Mentat.Daemon.Section

/-!
# What an allocator returns

`fit` and `fitOrdered`, held against what a placement is for: one assignment for each bundle, in
order, with as many devices as the bundle asks for, free ones, on a live agent of the group where the
bundle may go, and no device given to two.
-/

namespace Mentat

/-- The assignments are one for each bundle, and `here i` is where bundle `i` may go. -/
structure Exact (st : State) (group : String) (bundles : List Nat) (here : Nat → NodeId → Prop)
    (got : List BundleAssignment) : Prop where
  length_eq : got.length = bundles.length
  count : ∀ (i : Nat) (b : BundleAssignment) (spec : Nat), got[i]? = some b → bundles[i]? = some spec →
    b.gpuIds.length = max spec 1
  distinct : ∀ b ∈ got, b.gpuIds.Nodup
  free : ∀ b ∈ got, ∀ g ∈ b.gpuIds, g ∈ st.freeGpusOf b.agent
  host : ∀ (i : Nat) (b : BundleAssignment), got[i]? = some b → ∃ row, st.agents.get b.agent = some row ∧
    row.alive = true ∧ row.group = group ∧ row.nodeId = b.nodeId ∧ here i b.nodeId
  apart : got.Pairwise fun b b' => b.agent = b'.agent → b.gpuIds.Disjoint b'.gpuIds

section Exact

variable {st : State} {group : String} {bundles : List Nat}

/-- What `drain` gives out, dressed as bundles, is exact where each is on its agent's node. -/
theorem exact_of_drain {ρ : Type} {keys : ρ → List AgentId} {need : ρ → Nat} {rs : List ρ}
    {got : List (AgentId × List Nat)} {here : Nat → NodeId → Prop} {bs : List BundleAssignment}
    (hm : MachinesDistinct st) (hgot : drain keys need st.freeGpusOf rs = .ok got)
    (hbs : bs.map (fun b => (b.agent, b.gpuIds)) = got) (hrs : rs.map need = bundles.map (max · 1))
    (hhost : ∀ (i : Nat) (r : ρ) (b : BundleAssignment), rs[i]? = some r → bs[i]? = some b →
      b.agent ∈ keys r → ∃ row, st.agents.get b.agent = some row ∧ row.alive = true ∧
        row.group = group ∧ row.nodeId = b.nodeId ∧ here i b.nodeId) :
    Exact st group bundles here bs := by
  subst hbs
  have hserved := drain_served hgot
  have hlen : bs.length = rs.length := by rw [hserved.length_eq, List.length_map]
  have hfits := fits_of_drain hgot rfl
  have hat : ∀ (i : Nat) (b : BundleAssignment), bs[i]? = some b → ∃ r, rs[i]? = some r ∧
      b.agent ∈ keys r ∧ b.gpuIds.length = need r ∧ b.gpuIds.Sublist (st.freeGpusOf b.agent) := by
    intro i b hb
    obtain ⟨hi, rfl⟩ := List.getElem?_eq_some_iff.mp hb
    have hget := hserved.get (hlen ▸ hi) (by rw [List.length_map]; exact hi)
    simp only [List.get_eq_getElem, List.getElem_map] at hget
    exact ⟨_, List.getElem?_eq_getElem (hlen ▸ hi), hget⟩
  refine ⟨?_, fun i b spec hb hspec => ?_, fun b hb => ?_, hfits.free, fun i b hb => ?_, hfits.apart hm⟩
  · rw [hlen, ← List.length_map (f := need), hrs, List.length_map]
  · obtain ⟨r, hr, -, hneed, -⟩ := hat i b hb
    have hmax := congrArg (·[i]?) hrs
    simp only [List.getElem?_map, hr, hspec, Option.map_some, Option.some.injEq] at hmax
    rw [hneed, hmax]
  · obtain ⟨i, hi⟩ := List.mem_iff_getElem?.mp hb
    obtain ⟨r, -, -, -, hsub⟩ := hat i b hi
    exact (nodup_freeGpusOf hm _).sublist hsub
  · obtain ⟨r, hr, hkey, -, -⟩ := hat i b hb
    exact hhost i r b hr hb hkey

/-- First fit in a scope. -/
theorem fit_exact (hm : MachinesDistinct st) {driver : NodeId} {nodes : Option (List NodeId)}
    {a : List (Option BundleAssignment)} (h : fit st group bundles driver nodes = some a) :
    ∃ bs, a = bs.map some ∧
      Exact st group bundles (fun _ node => nodes.all (·.contains node) = true) bs := by
  unfold fit at h
  simp only at h
  split at h
  · cases h
  · next got hgot =>
    cases h
    refine ⟨got.map fun x => ⟨x.1, nodeOf st x.1, x.2, ∅⟩, by rw [List.map_map]; rfl, ?_⟩
    refine exact_of_drain hm hgot (by simp [List.map_map, Function.comp_def]) rfl ?_
    intro i r b _ hb hkey
    obtain ⟨x, -, rfl⟩ := List.mem_map.mp (List.mem_of_getElem? hb)
    obtain ⟨row, hrow, hl, hg, hp⟩ := mem_agentOrder.mp hkey
    simp only at hrow
    have hnode : row.nodeId = nodeOf st x.1 := by
      simp only [nodeOf, hrow, Option.map_some, Option.getD_some]
    exact ⟨row, hrow, hl, hg, hnode, hnode ▸ hp⟩

/-- One node for each bundle, in any order of ranks. -/
theorem fitOrdered_exact (hm : MachinesDistinct st) {ops : ClaimOps} {order : RankOrder}
    {a : List (Option BundleAssignment)} (h : fitOrdered ops st group bundles order = .ok a) :
    bundles.length = order.length ∧ ∃ bs, a = bs.map some ∧
      Exact st group bundles (fun i node => ∃ rank, order[i]? = some rank ∧ rank.1 = node) bs := by
  unfold fitOrdered at h
  split at h
  · cases h
  · next hlen =>
    rw [not_not] at hlen
    refine ⟨hlen, ?_⟩
    simp only at h
    split at h
    · cases h
    · next got hgot =>
      cases h
      have hsame := (drain_served hgot).length_eq
      refine ⟨((bundles.zip order).zip got).map fun x => ⟨x.2.1, x.1.2.1, x.2.2, x.1.2.2⟩,
        by rw [List.map_map]; rfl, ?_⟩
      refine exact_of_drain hm hgot ?_ ?_ ?_
      · rw [List.map_map]
        exact List.map_snd_zip (Nat.le_of_eq hsame.symm)
      · have hfst : (bundles.zip order).map Prod.fst = bundles := List.map_fst_zip (Nat.le_of_eq hlen)
        conv_rhs => rw [← hfst, List.map_map]
        rfl
      · intro i r b hr hb hkey
        rw [List.getElem?_map] at hb
        obtain ⟨x, hx, rfl⟩ := Option.map_eq_some_iff.mp hb
        obtain ⟨hxr, -⟩ := List.getElem?_zip_eq_some.mp hx
        obtain ⟨-, hrank⟩ := List.getElem?_zip_eq_some.mp hxr
        cases hr.symm.trans hxr
        obtain ⟨row, hrow, hl, hg, hp⟩ := mem_agentOrder.mp hkey
        exact ⟨row, hrow, hl, hg, eq_of_beq hp, _, hrank, rfl⟩

end Exact

/-- First fit succeeds when one agent alone has room for every bundle. -/
theorem fit_of_roomy {st : State} {group : String} {bundles : List Nat} {driver : NodeId}
    {nodes : Option (List NodeId)} {id : AgentId} {row : AgentInfo} (hrow : st.agents.get id = some row)
    (hl : row.alive = true) (hg : row.group = group) (hin : nodes.all (·.contains row.nodeId) = true)
    (hroom : needOf bundles ≤ (st.freeGpusOf id).length) :
    ∃ a, fit st group bundles driver nodes = some a := by
  have hmem : id ∈ agentOrder st group (fun a => nodes.all (·.contains a.nodeId))
      fun a => a.nodeId != driver := mem_agentOrder.mpr ⟨row, hrow, hl, hg, hin⟩
  obtain ⟨got, hgot⟩ : ∃ got, drain (fun _ : Nat => agentOrder st group
      (fun a => nodes.all (·.contains a.nodeId)) fun a => a.nodeId != driver)
      (fun spec => max spec 1) st.freeGpusOf bundles = .ok got :=
    drain_of_roomy (fun _ _ => hmem) hroom
  exact ⟨_, by simp only [fit, hgot]; rfl⟩

/-- A group that cannot be placed keeps its bundles where they were, and so does everything else. -/
theorem placeGroup_refused {cfg : Cfg} {ops : ClaimOps} {st : State} {id : PgId} {pg : PgInfo}
    {why : String} (hpg : st.pgs.get id = some pg) (h : placementOf cfg ops st pg = .error why) :
    (placeGroup cfg ops st id).sansPgs = st.sansPgs ∧
      ∀ k, ((placeGroup cfg ops st id).pgs.get k).map (fun P => (P.state, P.assignment)) =
        (st.pgs.get k).map fun P => (P.state, P.assignment) := by
  refine ⟨placeGroup_sansPgs cfg ops st id, fun k => ?_⟩
  have hplace : placeGroup cfg ops st id = setPendingReason st id why := by
    simp only [placeGroup, hpg, h]
  rw [hplace, setPendingReason, hpg]
  simp only
  split
  · rfl
  · show ((st.pgs.modify id _).get k).map _ = _
    rw [Table.get_modify]
    split
    · rw [Option.map_map]
      rfl
    · rfl

/-- Both allocators return one assignment for each bundle or none at all, and what they return is
exact. First fit returns where one agent alone would do, and a group that is refused is left as it
was with everything else. -/
theorem placement_exact (ops : ClaimOps) (st : State) (hm : MachinesDistinct st) (group : String)
    (bundles : List Nat) :
    (∀ (driver : NodeId) (nodes : Option (List NodeId)) (a : List (Option BundleAssignment)),
      fit st group bundles driver nodes = some a → ∃ bs, a = bs.map some ∧
        Exact st group bundles (fun _ node => nodes.all (·.contains node) = true) bs) ∧
    (∀ (order : RankOrder) (a : List (Option BundleAssignment)),
      fitOrdered ops st group bundles order = .ok a → ∃ bs, a = bs.map some ∧
        Exact st group bundles (fun i node => ∃ rank, order[i]? = some rank ∧ rank.1 = node) bs) ∧
    (∀ (driver : NodeId) (nodes : Option (List NodeId)) (id : AgentId) (row : AgentInfo),
      st.agents.get id = some row → row.alive = true → row.group = group →
      nodes.all (·.contains row.nodeId) = true → needOf bundles ≤ (st.freeGpusOf id).length →
      ∃ a, fit st group bundles driver nodes = some a) ∧
    ∀ (cfg : Cfg) (id : PgId) (pg : PgInfo) (why : String), st.pgs.get id = some pg →
      placementOf cfg ops st pg = .error why →
      (placeGroup cfg ops st id).sansPgs = st.sansPgs ∧
        ∀ k, ((placeGroup cfg ops st id).pgs.get k).map (fun P => (P.state, P.assignment)) =
          (st.pgs.get k).map fun P => (P.state, P.assignment) :=
  ⟨fun _ _ _ h => fit_exact hm h, fun _ _ h => (fitOrdered_exact hm h).2,
    fun _ _ _ _ hrow hl hg hin hroom => fit_of_roomy hrow hl hg hin hroom,
    fun _ _ _ _ hpg h => placeGroup_refused hpg h⟩

namespace Sample

def threeDevices : AgentInfo where
  group := "g"
  nodeId := "n:1"
  nodeIp := "10.0.0.1"
  machine := ⟨0, 8, [⟨0, "nvidia", "", 0, false⟩, ⟨1, "nvidia", "", 0, false⟩, ⟨2, "nvidia", "", 0, false⟩]⟩
  container := "c"
  pid := 1
  services := ∅
  metaInfo := ∅
  writer := 1
  alive := true
  lostAtMs := none
  degraded := false
  goneSinceMs := none
  seq := 1

def oneBox : State :=
  { State.new "n:1" "10.0.0.1" "10.0.0.1:6379" with
    agents := (∅ : Table AgentId AgentInfo).set "g@c@10.0.0.1" threeDevices }

end Sample

/-- A box with three devices takes a bundle that asks for two and one that asks for none. -/
theorem placement_exact_oneBox : ∃ bs, fit Sample.oneBox "g" [2, 0] "n:1" none = some (bs.map some) ∧
    Exact Sample.oneBox "g" [2, 0] (fun _ _ => True) bs := by
  have hm : MachinesDistinct Sample.oneBox := by
    intro id a ha
    rcases Table.get_set_some ha with ⟨-, rfl⟩ | ⟨-, hnone⟩
    · decide
    · cases hnone
  obtain ⟨hfit, -, hroomy, -⟩ := placement_exact Sample.ops Sample.oneBox hm "g" [2, 0]
  obtain ⟨a, ha⟩ := hroomy "n:1" none "g@c@10.0.0.1" Sample.threeDevices (Table.get_set_self _ _ _) rfl
    rfl rfl (by decide +kernel)
  obtain ⟨bs, rfl, hbs⟩ := hfit "n:1" none a ha
  refine ⟨bs, ha, hbs.length_eq, hbs.count, hbs.distinct, hbs.free, fun i b hb => ?_, hbs.apart⟩
  obtain ⟨row, hrow, hl, hg, hn, -⟩ := hbs.host i b hb
  exact ⟨row, hrow, hl, hg, hn, trivial⟩

end Mentat
