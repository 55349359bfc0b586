import Mentat.Claim.Sound
import Mentat.Fabrics

/-!
# What the ranks of a mesh bind

An island holds one address for each of its nodes, and every two of these are linked. A mesh set over
`rdma` is placed inside an island, but a member's address is looked for again (`bind_for`): the first
port of its node that reaches some port of each other member. With several ports to a node these need
not be linked to each other (`crossed_binds`). `binds_reach_iff` says when they are.
-/

namespace Mentat

namespace Topology

/-- Whether the port is one that `bind_for` takes: an `rdma` port that some `rdma` port of every other
node answered. -/
def reachesRest (t : Topology) (nodes : List NodeId) (n : NodeId) (p : Port) : Bool :=
  p.rdma && (nodes.filter (· != n)).all fun q =>
    (t.ports.get q).any fun qp => qp.any fun y => y.rdma && (t.rtt p.addr y.addr).isSome

/-- The islands are those of the view, which has the same `rdma` addresses and probed pairs. -/
structure OfView (t : Topology) (v : FabricView) : Prop where
  islands : t.islands = v.islands.1
  addrs : ∀ n a, v.Tagged n a ↔ ∃ p, t.Listens n p ∧ p.rdma = true ∧ p.addr = a
  pairs : ∀ a b, (a, b) ∈ v.okPairs ↔ (t.links.get (a, b)).isSome = true

/-- One `rdma` port of each node, every two of them linked, such that no port listed before it on its
node reaches all the other nodes. -/
def LinkedFirsts (t : Topology) (nodes : List NodeId) : Prop :=
  ∃ choice : NodeId → Port, ∀ n ∈ nodes, (choice n).rdma = true ∧
    (∃ earlier later, t.ports.get n = some (earlier ++ choice n :: later) ∧
      ∀ p ∈ earlier, t.reachesRest nodes n p = false) ∧
    ∀ m ∈ nodes, m ≠ n → (t.rtt (choice n).addr (choice m).addr).isSome = true

end Topology

variable {t : Topology} {req : Request} {set : SetReq} {sol : Solution} {members : List Member}
  {nodes : List NodeId} {v : FabricView}

/-- The addresses of every two members are a probed pair. -/
def BindsReach (t : Topology) (members : List Member) : Prop :=
  ∀ (i j : Nat) (a b : Member), i ≠ j → members[i]? = some a → members[j]? = some b →
    (t.rtt a.bind.addr b.bind.addr).isSome = true

theorem bindFor_rdma (hl : set.link = .rdma) (n : NodeId) (nodes : List NodeId) :
    bindFor t set n nodes = (t.ports.get n).bind fun ports => ports.find? (t.reachesRest nodes n) := by
  unfold bindFor
  rw [hl]
  rfl

/-- A member of a mesh binds what `bind_for` finds. -/
theorem memberAt_bind (hm : set.layout = .mesh) {n : NodeId} {i : Nat} {m : Member}
    (h : memberAt t set nodes n i = .ok m) : bindFor t set n nodes = some m.bind := by
  simp only [memberAt, neighbours, hm, neighbourIdx, cableTo, bind, Except.bind, Option.or_none] at h
  cases hb : bindFor t set n nodes with
  | none =>
    rw [hb] at h
    cases h
  | some p =>
    rw [hb] at h
    cases h
    rfl

theorem membersOf_bind (hm : set.layout = .mesh) (h : membersOf t set nodes = .ok members) {i : Nat}
    {m : Member} (hi : members[i]? = some m) : bindFor t set m.node nodes = some m.bind := by
  have hforall := mapM_ok_forall h
  obtain ⟨hlt, rfl⟩ := List.getElem?_eq_some_iff.mp hi
  have hlen := membersOf_length h
  have hat := hforall.get (i := i) (by simp; omega) hlt
  simp only [List.get_eq_getElem, List.getElem_zipIdx, Nat.zero_add] at hat
  rw [(memberAt_spec hat).1]
  exact memberAt_bind hm hat

/-- A choice of linked ports with none before them that would do is what the members bind. -/
theorem bind_eq_choice (hl : set.link = .rdma) {choice : NodeId → Port}
    (h : ∀ n ∈ nodes, (choice n).rdma = true ∧
      (∃ earlier later, t.ports.get n = some (earlier ++ choice n :: later) ∧
        ∀ p ∈ earlier, t.reachesRest nodes n p = false) ∧
      ∀ m ∈ nodes, m ≠ n → (t.rtt (choice n).addr (choice m).addr).isSome = true)
    {n : NodeId} (hn : n ∈ nodes) : bindFor t set n nodes = some (choice n) := by
  obtain ⟨hrdma, ⟨earlier, later, hports, hearlier⟩, hlinked⟩ := h n hn
  rw [bindFor_rdma hl, hports, Option.bind_some]
  refine List.find?_eq_some_iff_append.mpr ⟨?_, earlier, later, rfl, fun p hp => ?_⟩
  · rw [Topology.reachesRest, hrdma, Bool.true_and, List.all_eq_true]
    intro m hm
    obtain ⟨hm, hne⟩ := List.mem_filter.mp hm
    obtain ⟨hrdma', ⟨earlier', later', hports', -⟩, -⟩ := h m hm
    rw [hports', Option.any_some, List.any_eq_true]
    exact ⟨choice m, by simp, by rw [hrdma', hlinked m hm (by simpa using hne)]; rfl⟩
  · rw [hearlier p hp]
    rfl

/-- What the members bind is linked exactly when each has such a port that comes first. -/
theorem membersOf_binds (hm : set.layout = .mesh) (hl : set.link = .rdma) (hnd : nodes.Nodup)
    (h : membersOf t set nodes = .ok members) : BindsReach t members ↔ t.LinkedFirsts nodes := by
  have hlen := membersOf_length h
  constructor
  · intro hreach
    refine ⟨fun n => (bindFor t set n nodes).getD ⟨"", none, []⟩, fun n hn => ?_⟩
    obtain ⟨i, hi, rfl⟩ := List.getElem_of_mem hn
    have hat : ∀ {j : Nat} (hj : j < nodes.length), ∃ m, members[j]? = some m ∧
        bindFor t set nodes[j] nodes = some m.bind := by
      intro j hj
      have hget := List.getElem?_eq_getElem (hlen ▸ hj : j < members.length)
      refine ⟨_, hget, ?_⟩
      have hnode := (membersOf_get h hget).1
      rw [List.getElem?_eq_getElem hj, Option.some.injEq] at hnode
      exact hnode ▸ membersOf_bind hm h hget
    obtain ⟨a, ha, hbind⟩ := hat hi
    have hfind := hbind
    rw [bindFor_rdma hl, Option.bind_eq_some_iff] at hfind
    obtain ⟨ports, hports, hfind⟩ := hfind
    obtain ⟨htakes, earlier, later, rfl, hearlier⟩ := List.find?_eq_some_iff_append.mp hfind
    simp only [hbind, Option.getD_some]
    refine ⟨(Bool.and_eq_true _ _ ▸ htakes).1, ⟨earlier, later, hports, fun p hp => ?_⟩, ?_⟩
    · simpa using hearlier p hp
    · intro m hm hne
      obtain ⟨j, hj, rfl⟩ := List.getElem_of_mem hm
      obtain ⟨b, hb, hbind'⟩ := hat hj
      simp only [hbind', Option.getD_some]
      exact hreach i j a b (fun hij => hne (by simp only [hij])) ha hb
  · rintro ⟨choice, hchoice⟩ i j a b hij ha hb
    have hna := (membersOf_get h ha).1
    have hnb := (membersOf_get h hb).1
    have hbind := membersOf_bind hm h ha
    have hbind' := membersOf_bind hm h hb
    rw [bind_eq_choice hl hchoice (List.mem_of_getElem? hna), Option.some.injEq] at hbind
    rw [bind_eq_choice hl hchoice (List.mem_of_getElem? hnb), Option.some.injEq] at hbind'
    have hne : b.node ≠ a.node := by
      intro heq
      rw [heq] at hnb
      obtain ⟨hi, hia⟩ := List.getElem?_eq_some_iff.mp hna
      obtain ⟨hj, hjb⟩ := List.getElem?_eq_some_iff.mp hnb
      exact hij ((hnd.getElem_inj_iff).mp (hia.trans hjb.symm))
    rw [← hbind, ← hbind']
    exact (hchoice _ (List.mem_of_getElem? hna)).2.2 _ (List.mem_of_getElem? hnb) hne

theorem Topology.OfView.islandsNodup (hv : t.OfView v) : t.IslandsNodup := by
  intro island hi
  rw [hv.islands] at hi
  exact (FabricView.islands_sorted hi).imp ne_of_lt

/-- In a mesh placed on the islands of a view, what the members bind is linked exactly when each
member has a port that is linked to those of the others and comes before any other that would do. -/
theorem binds_reach_iff (hv : t.OfView v) (h : solve t req = .ok sol) (hs : set ∈ req.sets)
    (hm : set.layout = .mesh) (hl : set.link = .rdma) (hget : sol.sets.get set.name = some members) :
    BindsReach t members ↔ t.LinkedFirsts (members.map (·.node)) := by
  obtain ⟨-, hall, -⟩ := solve_sound h
  obtain ⟨taken, nodes, members', hnodes, hmembers, hget'⟩ := hall set hs
  cases hget.symm.trans hget'
  rw [membersOf_nodes hmembers]
  exact membersOf_binds hm hl (candidates_apart hv.islandsNodup hnodes).1 hmembers

namespace Sample

/-- Two boxes with two fabric ports each, and the pairs that answered a probe. -/
def fabric (pairs : List (String × String)) : FabricView where
  rdma := ((∅ : Table NodeId (List String)).set "a" ["a1", "a2"]).set "b" ["b1", "b2"]
  okPairs := pairs.toFinset

/-- The topology with the islands of that view. -/
def fabricTopology (pairs : List (String × String)) : Topology where
  islands := (fabric pairs).islands.1
  ports := ((∅ : Table NodeId (List Port)).set "a" [⟨"a1", none, ["rdma"]⟩, ⟨"a2", none, ["rdma"]⟩]).set
    "b" [⟨"b1", none, ["rdma"]⟩, ⟨"b2", none, ["rdma"]⟩]
  links := pairs.foldl (fun t p => t.set p 0) ∅
  forwarded := []
  freeGpus := ((∅ : Table NodeId Nat).set "a" 1).set "b" 1
  hosts := ∅
  vendors := ∅

theorem fabric_tagged (pairs : List (String × String)) (n : NodeId) (a : String) :
    (fabric pairs).Tagged n a ↔ ∃ p, (fabricTopology pairs).Listens n p ∧ p.rdma = true ∧ p.addr = a := by
  simp only [FabricView.Tagged, Topology.Listens, fabric, fabricTopology, Table.get_set]
  by_cases hb : n = "b"
  · simp [hb, Port.rdma, eq_comm]
  · by_cases ha : n = "a"
    · simp [ha, Port.rdma, eq_comm]
    · have hnone : ∀ {V : Type}, (∅ : Table NodeId V).get n = none := rfl
      simp [ha, hb, hnone]

theorem fabric_links (pairs : List (String × String)) (a b : String) :
    (a, b) ∈ pairs ↔ ((pairs.foldl (fun t p => t.set p 0) (∅ : Table (String × String) Nat)).get
      (a, b)).isSome = true := by
  have hfold : ∀ (l : List (String × String)) (t : Table (String × String) Nat),
      ((l.foldl (fun t p => t.set p 0) t).get (a, b)).isSome = true ↔
        (a, b) ∈ l ∨ (t.get (a, b)).isSome = true := by
    intro l
    induction l with
    | nil => simp
    | cons p l ih =>
      intro t
      rw [List.foldl_cons, ih, Table.get_set, List.mem_cons]
      by_cases hp : (a, b) = p
      · simp [hp]
      · simp [hp]
  exact ((hfold pairs ∅).trans (or_iff_left Bool.false_ne_true)).symm

theorem fabricTopology_ofView (pairs : List (String × String)) :
    (fabricTopology pairs).OfView (fabric pairs) := by
  refine ⟨?_, fabric_tagged pairs, fun a b => ?_⟩
  · rw [fabricTopology]
  · exact List.mem_toFinset.trans (fabric_links pairs a b)

/-- A pair of ranks on the fabric. -/
def meshPair : Request := ⟨[⟨"s", [1, 1], .rdma, .mesh, ""⟩], []⟩

end Sample

theorem binds_reach_iff_pair : ∃ sol members,
    solve (Sample.fabricTopology [("a1", "b1")]) Sample.meshPair = .ok sol ∧
      (BindsReach (Sample.fabricTopology [("a1", "b1")]) members ↔
        (Sample.fabricTopology [("a1", "b1")]).LinkedFirsts (members.map (·.node))) := by
  obtain ⟨sol, h⟩ : ∃ sol, solve (Sample.fabricTopology [("a1", "b1")]) Sample.meshPair = .ok sol :=
    exists_of_isOk (by decide +kernel)
  obtain ⟨-, hall, -⟩ := solve_sound h
  obtain ⟨-, -, members, -, -, hget⟩ := hall ⟨"s", [1, 1], .rdma, .mesh, ""⟩ List.mem_cons_self
  exact ⟨sol, members, h,
    binds_reach_iff (Sample.fabricTopology_ofView _) h List.mem_cons_self rfl rfl hget⟩

/-- Cabled crosswise, each of the two ranks binds its first port, and these are not linked. -/
theorem crossed_binds : ¬∀ t v, t.OfView v → ∀ req sol, solve t req = .ok sol → ∀ set ∈ req.sets,
    set.layout = .mesh → set.link = .rdma → ∀ members, sol.sets.get set.name = some members →
      BindsReach t members := by
  intro hreach
  let pairs := [("a1", "b2"), ("a2", "b1")]
  obtain ⟨sol, h⟩ : ∃ sol, solve (Sample.fabricTopology pairs) Sample.meshPair = .ok sol :=
    exists_of_isOk (by decide +kernel)
  have hbinds : (solve (Sample.fabricTopology pairs) Sample.meshPair).toOption.map
      (fun sol => (sol.sets.get "s").map (·.map (·.bind.addr))) = some (some ["a1", "b1"]) := by
    decide +kernel
  rw [h] at hbinds
  obtain ⟨members, hm, hbinds⟩ := Option.map_eq_some_iff.mp (Option.some.inj hbinds)
  obtain ⟨a, rest, rfl, ha, hrest⟩ := List.map_eq_cons_iff.mp hbinds
  obtain ⟨b, rest, rfl, hb, hrest⟩ := List.map_eq_cons_iff.mp hrest
  have hlinked := hreach _ _ (Sample.fabricTopology_ofView pairs) _ sol h _ List.mem_cons_self rfl rfl
    _ hm 0 1 a b Nat.zero_ne_one rfl rfl
  rw [ha, hb] at hlinked
  exact absurd hlinked (by decide +kernel)

end Mentat
