import Mentat.Island

/-!
# What the derived islands are

`Island.lean` has the derivation. Here is what it comes to.

1. `islands_real`: an island is a fabric. Its nodes are listed once each, with one rdma address, and
   every two of these are linked. No port is in two islands, and a component that is whole as it
   stands is an island.
2. `islands_same`: two daemons with the same facts derive the same islands, whatever the order and
   the direction they hold the facts in.
3. `islands_inclusive`: when a node outside an island has a port that reaches all of it.
-/

namespace Mentat

namespace FabricView

variable {v v' : FabricView} {seed p q : FabricPort}

/-! ## Components -/

/-- The second port is found on a walk over joined ports from the first. -/
def Connected (v : FabricView) : FabricPort → FabricPort → Prop :=
  Relation.ReflTransGen fun p q => q ∈ v.ports ∧ v.joins p q = true

theorem linked_comm (v : FabricView) (a b : String) : v.linked a b = v.linked b a :=
  Bool.or_comm _ _

theorem joins_comm (v : FabricView) (p q : FabricPort) : v.joins p q = v.joins q p := by
  rw [joins, joins, linked_comm, bne_comm]

theorem joins_self (v : FabricView) (p : FabricPort) : v.joins p p = false := by
  simp [joins]

theorem Connected.mem (h : v.Connected seed p) (hseed : seed ∈ v.ports) : p ∈ v.ports := by
  cases h with
  | refl => exact hseed
  | tail _ hstep => exact hstep.1

theorem Connected.symm (h : v.Connected seed p) (hseed : seed ∈ v.ports) : v.Connected p seed := by
  induction h with
  | refl => exact .refl
  | @tail p q hreach hstep ih =>
    exact .head ⟨Connected.mem hreach hseed, by rw [joins_comm, hstep.2]⟩ ih

theorem Connected.congr (hports : ∀ p, p ∈ v.ports ↔ p ∈ v'.ports) (hjoins : v.joins = v'.joins)
    (h : v.Connected seed p) : v'.Connected seed p := by
  refine Relation.ReflTransGen.mono (fun p q hstep => ?_) _ _ h
  exact ⟨(hports q).mp hstep.1, hjoins ▸ hstep.2⟩

/-- From two connected ports the walk finds the same, in some order. -/
theorem component_perm (hports : ∀ p, p ∈ v.ports ↔ p ∈ v'.ports) (hjoins : v.joins = v'.joins)
    {seed' : FabricPort} (hseed : seed ∈ v.ports) (hconn : v.Connected seed seed') :
    (v.component seed).Perm (v'.component seed') := by
  have hseed' : seed' ∈ v'.ports := (hports seed').mp (hconn.mem hseed)
  refine (List.perm_ext_iff_of_nodup (component_walked hseed).nodup
    (component_walked hseed').nodup).mpr fun p => ?_
  rw [mem_component hseed, mem_component hseed']
  constructor
  · intro h
    exact Connected.congr hports hjoins ((hconn.symm hseed).trans h)
  · intro h
    exact hconn.trans (Connected.congr (fun p => (hports p).symm) hjoins.symm h)

/-! ## One port each -/

theorem rank_congr (hjoins : v.joins = v'.joins) {comp comp' : List FabricPort}
    (hperm : comp.Perm comp') (p : FabricPort) : v.rank comp p = v'.rank comp' p := by
  have hdeg : Graph.degree v.joins comp p = Graph.degree v'.joins comp' p := by
    rw [hjoins]
    exact (hperm.filter _).length_eq
  rw [rank, rank, hdeg]

theorem rank_injective (v : FabricView) (comp : List FabricPort) : Function.Injective (v.rank comp) := by
  rintro ⟨n, a⟩ ⟨m, b⟩ h
  have hpair := congrArg ofLex h
  have hnode : n = m := congrArg Prod.fst hpair
  have haddr : a = b := congrArg (fun w => (ofLex w.2).2) hpair
  rw [hnode, haddr]

/-- A node joins through its best port. -/
theorem mem_onePortEach_iff {comp : List FabricPort} : p ∈ v.onePortEach comp ↔
    p ∈ comp ∧ ∀ q ∈ comp, q.node = p.node → v.rank comp p ≤ v.rank comp q := by
  simpa only [onePortEach, List.mem_insertionSort] using
    mem_destutter_group (v.rank_injective comp) node_le_of_rank_le (v.insertionSort_rank comp)

theorem onePortEach_congr (hjoins : v.joins = v'.joins) {comp comp' : List FabricPort}
    (hperm : comp.Perm comp') : v.onePortEach comp = v'.onePortEach comp' := by
  have hanti : Std.Antisymm fun p q : FabricPort => p.node < q.node :=
    ⟨fun _ _ h h' => absurd h (lt_asymm h')⟩
  have hirr : Std.Irrefl fun p q : FabricPort => p.node < q.node := ⟨fun _ => lt_irrefl _⟩
  refine List.Pairwise.eq_of_mem_iff (v.onePortEach_apart comp) (v'.onePortEach_apart comp') fun p => ?_
  rw [mem_onePortEach_iff, mem_onePortEach_iff, hperm.mem_iff]
  simp only [rank_congr hjoins hperm, hperm.mem_iff]

/-! ## What one seed leaves -/

/-- The mutually connected set that a seed's component is pruned to, and what was dropped. -/
def prunedOf (v : FabricView) (seed : FabricPort) : List FabricPort × List (FabricPort × Nat × Nat) :=
  let each := v.onePortEach (v.component seed)
  Graph.prune v.joins each.length each

theorem prunedOf_congr (hports : ∀ p, p ∈ v.ports ↔ p ∈ v'.ports) (hjoins : v.joins = v'.joins)
    {seed' : FabricPort} (hseed : seed ∈ v.ports) (hconn : v.Connected seed seed') :
    v.prunedOf seed = v'.prunedOf seed' := by
  rw [prunedOf, prunedOf, hjoins,
    onePortEach_congr hjoins (component_perm hports hjoins hseed hconn)]

theorem prunedOf_connected (hseed : seed ∈ v.ports) (h : p ∈ (v.prunedOf seed).1) :
    v.Connected seed p :=
  (mem_component hseed).mp (mem_onePortEach ((Graph.prune_sublist _ _).subset h))

theorem prunedOf_apart (v : FabricView) (seed : FabricPort) :
    (v.prunedOf seed).1.Pairwise fun p q => p.node < q.node :=
  (v.onePortEach_apart _).sublist (Graph.prune_sublist _ _)

theorem onePortEach_nodup (v : FabricView) (comp : List FabricPort) : (v.onePortEach comp).Nodup :=
  (v.onePortEach_apart comp).imp fun hlt he => absurd (congrArg FabricPort.node he) hlt.ne

theorem prunedOf_joined (hp : p ∈ (v.prunedOf seed).1) (hq : q ∈ (v.prunedOf seed).1) (hne : p ≠ q) :
    v.joins p q = true :=
  Graph.prune_clique _ v.joins_self (v.onePortEach_nodup _) le_rfl p hp q hq hne

/-- A dropped port is one of the component. -/
theorem prunedOf_dropped (hseed : seed ∈ v.ports) {drop : FabricPort × Nat × Nat}
    (h : drop ∈ (v.prunedOf seed).2) : v.Connected seed drop.1 :=
  (mem_component hseed).mp (mem_onePortEach (Graph.prune_dropped _ h))

/-! ## The island of a set of ports -/

theorem foldl_set_get {ports : List FabricPort} (hports : ports.Pairwise fun p q => p.node < q.node)
    (t : Table NodeId String) (n : NodeId) (a : String) :
    (ports.foldl (fun t p => t.set p.node p.addr) t).get n = some a ↔
      ⟨n, a⟩ ∈ ports ∨ (∀ p ∈ ports, p.node ≠ n) ∧ t.get n = some a := by
  induction ports generalizing t with
  | nil => simp
  | cons p ports ih =>
    obtain ⟨hp, hrest⟩ := List.pairwise_cons.mp hports
    rw [List.foldl_cons, ih hrest, Table.get_set]
    by_cases hn : n = p.node
    · have hout : ∀ q ∈ ports, q.node ≠ n := fun q hq => hn ▸ (hp q hq).ne'
      have hnot : (⟨n, a⟩ : FabricPort) ∉ ports := fun hin => hout _ hin rfl
      rw [if_pos hn, or_iff_right hnot, and_iff_right hout, List.mem_cons, or_iff_left hnot]
      constructor
      · intro h
        cases h
        exact .inl (hn ▸ rfl)
      · rintro (h | ⟨hout, -⟩)
        · rw [← h]
        · exact absurd hn.symm (hout p List.mem_cons_self)
    · have hne : (⟨n, a⟩ : FabricPort) ≠ p := fun h => hn (congrArg FabricPort.node h)
      rw [if_neg hn, List.mem_cons, or_iff_right hne]
      simp [Ne.symm hn]

theorem islandOf_sorted {ports : List FabricPort} (h : ports.Pairwise fun p q => p.node < q.node) :
    ports.insertionSort (· ≤ ·) = ports :=
  List.Pairwise.insertionSort_eq (h.imp fun hlt => le_of_lt (Prod.Lex.lt_iff.mpr (.inl hlt)))

theorem islandOf_nodes {ports : List FabricPort} (h : ports.Pairwise fun p q => p.node < q.node) :
    (islandOf ports).nodes = ports.map (·.node) := by
  rw [islandOf, islandOf_sorted h]

theorem islandOf_get {ports : List FabricPort} (h : ports.Pairwise fun p q => p.node < q.node)
    {n : NodeId} {a : String} : (islandOf ports).addr.get n = some a ↔ ⟨n, a⟩ ∈ ports := by
  rw [islandOf, islandOf_sorted h, foldl_set_get h, or_iff_left fun hno => by cases hno.2]

/-! ## The sweep -/

/-- What the sweep has come to when it has gone over some of the ports. -/
structure Swept (v : FabricView) (seeds : List FabricPort) (s : Sweep) : Prop where
  placed : ∀ p, p ∈ s.placed ↔ ∃ seed ∈ seeds, v.Connected seed p
  out : ∀ i, i ∈ s.out ↔
    ∃ seed ∈ seeds, 2 ≤ (v.prunedOf seed).1.length ∧ i = islandOf (v.prunedOf seed).1
  pruned : ∀ d, d ∈ s.pruned ↔
    ∃ seed ∈ seeds, ∃ drop ∈ (v.prunedOf seed).2, d = ⟨drop.1.node, drop.1.addr, drop.2.1, drop.2.2⟩
  apart : s.out.Pairwise fun i j => ∀ n a, i.addr.get n = some a → j.addr.get n ≠ some a

theorem exists_mem_concat {α : Type} {l : List α} {a : α} {P : α → Prop} :
    (∃ x ∈ l ++ [a], P x) ↔ (∃ x ∈ l, P x) ∨ P a := by
  simp only [List.mem_append, List.mem_singleton, or_and_right, exists_or, exists_eq_left]

theorem Swept.turn {seeds : List FabricPort} {s : Sweep} (h : v.Swept seeds s)
    (hseeds : ∀ p ∈ seeds, p ∈ v.ports) (hseed : seed ∈ v.ports) :
    v.Swept (seeds ++ [seed]) (v.sweepSeed s seed) := by
  unfold sweepSeed
  split
  · next hplaced =>
    obtain ⟨first, hfirst, hconn⟩ := (h.placed seed).mp (List.contains_iff_mem.mp hplaced)
    have hsame : v.prunedOf first = v.prunedOf seed :=
      prunedOf_congr (fun _ => Iff.rfl) rfl (hseeds first hfirst) hconn
    refine ⟨fun p => (h.placed p).trans ?_, fun i => (h.out i).trans ?_,
      fun d => (h.pruned d).trans ?_, h.apart⟩
    · rw [exists_mem_concat]
      exact (or_iff_left_of_imp fun hp => ⟨first, hfirst, hconn.trans hp⟩).symm
    · rw [exists_mem_concat]
      exact (or_iff_left_of_imp fun hi => ⟨first, hfirst, hsame ▸ hi⟩).symm
    · rw [exists_mem_concat]
      exact (or_iff_left_of_imp fun hd => ⟨first, hfirst, hsame ▸ hd⟩).symm
  · next hplaced =>
    have hnew : ∀ p, v.Connected seed p → p ∉ s.placed := by
      intro p hp hin
      obtain ⟨first, hfirst, hconn⟩ := (h.placed p).mp hin
      refine hplaced (List.contains_iff_mem.mpr ((h.placed seed).mpr ⟨first, hfirst, ?_⟩))
      exact hconn.trans (hp.symm hseed)
    have hout : ∀ i ∈ s.out, ∀ n a, i.addr.get n = some a → ⟨n, a⟩ ∈ s.placed := by
      intro i hi n a hget
      obtain ⟨first, hfirst, -, rfl⟩ := (h.out i).mp hi
      have hmem := (islandOf_get (v.prunedOf_apart first)).mp hget
      exact (h.placed _).mpr ⟨first, hfirst, prunedOf_connected (hseeds first hfirst) hmem⟩
    refine ⟨fun p => ?_, fun i => ?_, fun d => ?_, ?_⟩
    · show p ∈ s.placed ++ v.component seed ↔ _
      rw [List.mem_append, h.placed, mem_component hseed]
      rw [exists_mem_concat]
      rfl
    · show i ∈ (if (v.prunedOf seed).1.length < 2 then s.out
        else s.out ++ [islandOf (v.prunedOf seed).1]) ↔ _
      rw [exists_mem_concat, ← h.out]
      split
      · next hlen => exact (or_iff_left fun hi => absurd hi.1 (by omega)).symm
      · next hlen => simp [not_lt.mp hlen]
    · show d ∈ s.pruned ++ (v.prunedOf seed).2.map _ ↔ _
      rw [exists_mem_concat, ← h.pruned, List.mem_append, List.mem_map]
      exact or_congr_right (exists_congr fun drop => and_congr_right fun _ => eq_comm)
    · show List.Pairwise _ (if (v.prunedOf seed).1.length < 2 then s.out
        else s.out ++ [islandOf (v.prunedOf seed).1])
      split
      · exact h.apart
      · refine List.pairwise_append.mpr ⟨h.apart, List.pairwise_singleton _ _, ?_⟩
        intro i hi j hj n a hget hget'
        rw [List.mem_singleton.mp hj] at hget'
        have hmem := (islandOf_get (v.prunedOf_apart seed)).mp hget'
        exact hnew _ (prunedOf_connected hseed hmem) (hout i hi n a hget)

/-- What the whole sweep comes to. -/
theorem swept_ports (v : FabricView) : v.Swept v.ports (v.ports.foldl v.sweepSeed ⟨[], [], []⟩) := by
  have hrun : ∀ (l seeds : List FabricPort) (s : Sweep), (∀ p ∈ seeds ++ l, p ∈ v.ports) →
      v.Swept seeds s → v.Swept (seeds ++ l) (l.foldl v.sweepSeed s) := by
    intro l
    induction l with
    | nil => simp
    | cons p l ih =>
      intro seeds s hin h
      have hturn : v.Swept (seeds ++ [p]) (v.sweepSeed s p) :=
        h.turn (fun q hq => hin q (List.mem_append_left _ hq)) (hin p (by simp))
      simpa using ih (seeds ++ [p]) _ (by simpa using hin) hturn
  have hstart : v.Swept [] ⟨[], [], []⟩ := ⟨by simp, by simp, by simp, .nil⟩
  exact hrun v.ports [] _ (fun _ hp => hp) hstart

theorem mem_islands {i : Island} : i ∈ v.islands.1 ↔
    ∃ seed ∈ v.ports, 2 ≤ (v.prunedOf seed).1.length ∧ i = islandOf (v.prunedOf seed).1 :=
  (List.mem_insertionSort _).trans (v.swept_ports.out i)

theorem mem_pruned {d : Pruned} : d ∈ v.islands.2 ↔
    ∃ seed ∈ v.ports, ∃ drop ∈ (v.prunedOf seed).2,
      d = ⟨drop.1.node, drop.1.addr, drop.2.1, drop.2.2⟩ :=
  v.swept_ports.pruned d

/-! ## Islands are fabrics -/

/-- What `islands` promises of what it returns. -/
structure RealFabrics (v : FabricView) (out : List Island × List Pruned) : Prop where
  spans : ∀ i ∈ out.1, 2 ≤ i.nodes.length
  sorted : ∀ i ∈ out.1, i.nodes.Pairwise (· < ·)
  addressed : ∀ i ∈ out.1, ∀ n, n ∈ i.nodes ↔ ∃ a, i.addr.get n = some a
  tagged : ∀ i ∈ out.1, ∀ n a, i.addr.get n = some a → v.Tagged n a
  linked : ∀ i ∈ out.1, ∀ n m a b, n ≠ m → i.addr.get n = some a → i.addr.get m = some b →
    v.linked a b = true
  /-- No port is in two islands. -/
  apart : out.1.Pairwise fun i j => ∀ n a, i.addr.get n = some a → j.addr.get n ≠ some a
  /-- A component of several ports, one to a node and every two linked, is an island. Nothing of it
  is pruned. -/
  whole : ∀ seed ∈ v.ports, (∃ p, v.Connected seed p ∧ p ≠ seed) →
    (∀ p q, v.Connected seed p → v.Connected seed q → p ≠ q →
      p.node ≠ q.node ∧ v.linked p.addr q.addr = true) →
    ∃ i ∈ out.1, (∀ n a, i.addr.get n = some a ↔ v.Connected seed ⟨n, a⟩) ∧
      ∀ d ∈ out.2, ¬v.Connected seed ⟨d.node, d.addr⟩

theorem mem_nodes {n : NodeId} :
    n ∈ (islandOf (v.prunedOf seed).1).nodes ↔ ∃ p ∈ (v.prunedOf seed).1, p.node = n := by
  rw [islandOf_nodes (v.prunedOf_apart seed), List.mem_map]

/-- A component that is whole as it stands is left as it is. -/
theorem prunedOf_whole (hseed : seed ∈ v.ports)
    (hwhole : ∀ p q, v.Connected seed p → v.Connected seed q → p ≠ q →
      p.node ≠ q.node ∧ v.linked p.addr q.addr = true) :
    (v.prunedOf seed).2 = [] ∧ ∀ p, p ∈ (v.prunedOf seed).1 ↔ v.Connected seed p := by
  have hmem : ∀ p, p ∈ v.onePortEach (v.component seed) ↔ v.Connected seed p := by
    intro p
    rw [mem_onePortEach_iff, mem_component hseed]
    refine and_iff_left_of_imp fun hp q hq hnode => ?_
    have heq : q = p := by
      by_contra hne
      exact (hwhole q p ((mem_component hseed).mp hq) hp hne).1 hnode
    exact le_of_eq (heq ▸ rfl)
  have hpruned : v.prunedOf seed = (v.onePortEach (v.component seed), []) := by
    refine Graph.prune_of_clique _ (v.onePortEach_nodup _) fun p hp q hq hne => ?_
    obtain ⟨hnode, hlinked⟩ := hwhole p q ((hmem p).mp hp) ((hmem q).mp hq) hne
    simp [joins, hnode, hlinked]
  rw [hpruned]
  exact ⟨rfl, hmem⟩

theorem islands_sorted {i : Island} (hi : i ∈ v.islands.1) : i.nodes.Pairwise (· < ·) := by
  obtain ⟨seed, -, -, rfl⟩ := mem_islands.mp hi
  rw [islandOf_nodes (v.prunedOf_apart seed)]
  exact List.pairwise_map.mpr (v.prunedOf_apart seed)

theorem islands_real (v : FabricView) : v.RealFabrics v.islands where
  spans i hi := by
    obtain ⟨seed, -, hlen, rfl⟩ := mem_islands.mp hi
    rw [islandOf_nodes (v.prunedOf_apart seed), List.length_map]
    exact hlen
  sorted i hi := islands_sorted hi
  addressed i hi n := by
    obtain ⟨seed, -, -, rfl⟩ := mem_islands.mp hi
    simp only [mem_nodes, islandOf_get (v.prunedOf_apart seed)]
    constructor
    · rintro ⟨p, hp, rfl⟩
      exact ⟨p.addr, hp⟩
    · rintro ⟨a, ha⟩
      exact ⟨_, ha, rfl⟩
  tagged i hi n a hget := by
    obtain ⟨seed, hseed, -, rfl⟩ := mem_islands.mp hi
    have hmem := (islandOf_get (v.prunedOf_apart seed)).mp hget
    exact mem_ports.mp ((prunedOf_connected hseed hmem).mem hseed)
  linked i hi n m a b hne ha hb := by
    obtain ⟨seed, hseed, -, rfl⟩ := mem_islands.mp hi
    have hp := (islandOf_get (v.prunedOf_apart seed)).mp ha
    have hq := (islandOf_get (v.prunedOf_apart seed)).mp hb
    have hjoined := prunedOf_joined hp hq fun h => hne (congrArg FabricPort.node h)
    rw [joins, Bool.and_eq_true] at hjoined
    exact hjoined.2
  apart := by
    refine ((List.perm_insertionSort _ _).pairwise_iff fun h n a ha hb => ?_).mpr v.swept_ports.apart
    exact h n a hb ha
  whole seed hseed hmore hwhole := by
    obtain ⟨hnone, hmem⟩ := prunedOf_whole hseed hwhole
    obtain ⟨p, hp, hne⟩ := hmore
    refine ⟨_, mem_islands.mpr ⟨seed, hseed, ?_, rfl⟩, fun n a => ?_, fun d hd hconn => ?_⟩
    · have hsub : [p, seed] ⊆ (v.prunedOf seed).1 := by
        simp [(hmem p).mpr hp, (hmem seed).mpr .refl]
      exact (List.Nodup.subperm (by simpa using hne) hsub).length_le
    · rw [islandOf_get (v.prunedOf_apart seed), hmem]
    · obtain ⟨other, hother, drop, hdrop, rfl⟩ := mem_pruned.mp hd
      have hreach : v.Connected other seed :=
        (prunedOf_dropped hother hdrop).trans (hconn.symm hseed)
      rw [prunedOf_congr (fun _ => Iff.rfl) rfl hother hreach, hnone] at hdrop
      cases hdrop

/-! ## The same facts, the same islands -/

/-- Two views with the same nodes, the same addresses for each and the same pairs, in whatever order
and direction. -/
structure SameFacts (v v' : FabricView) : Prop where
  nodes : ∀ n, v.rdma.has n = v'.rdma.has n
  addrs : ∀ n a, v.Tagged n a ↔ v'.Tagged n a
  pairs : ∀ a b, ((a, b) ∈ v.okPairs ∨ (b, a) ∈ v.okPairs) ↔
    ((a, b) ∈ v'.okPairs ∨ (b, a) ∈ v'.okPairs)

theorem SameFacts.ports (h : SameFacts v v') (p : FabricPort) : p ∈ v.ports ↔ p ∈ v'.ports := by
  rw [mem_ports, mem_ports, h.addrs]

theorem SameFacts.joins (h : SameFacts v v') : v.joins = v'.joins := by
  funext p q
  have hlinked : v.linked p.addr q.addr = v'.linked p.addr q.addr := by
    rw [Bool.eq_iff_iff]
    simpa [linked] using h.pairs p.addr q.addr
  rw [FabricView.joins, FabricView.joins, hlinked]

theorem placed_sweepSeed (v : FabricView) (s : Sweep) (seed : FabricPort) :
    seed ∈ (v.sweepSeed s seed).placed := by
  unfold sweepSeed
  split
  · next hplaced => exact List.contains_iff_mem.mp hplaced
  · exact List.mem_append_right _ (Graph.component_met _ List.mem_cons_self)

/-- A seed's second turn is nothing. -/
theorem sweepSeed_again (v : FabricView) (s : Sweep) (seed : FabricPort) :
    v.sweepSeed (v.sweepSeed s seed) seed = v.sweepSeed s seed :=
  if_pos (List.contains_iff_mem.mpr (v.placed_sweepSeed s seed))

/-- Two sweeps at the same point. -/
structure SameSweep (s s' : Sweep) : Prop where
  placed : ∀ p, p ∈ s.placed ↔ p ∈ s'.placed
  out : s.out = s'.out
  pruned : s.pruned = s'.pruned

theorem SameSweep.turn (h : SameFacts v v') {s s' : Sweep} (hs : SameSweep s s')
    (hseed : seed ∈ v.ports) : SameSweep (v.sweepSeed s seed) (v'.sweepSeed s' seed) := by
  have hplaced : s.placed.contains seed = s'.placed.contains seed := by
    rw [Bool.eq_iff_iff, List.contains_iff_mem, List.contains_iff_mem, hs.placed]
  have hsame : v.prunedOf seed = v'.prunedOf seed := prunedOf_congr h.ports h.joins hseed .refl
  unfold sweepSeed
  rw [hplaced]
  split
  · exact hs
  · refine ⟨fun p => ?_, ?_, ?_⟩
    · show p ∈ s.placed ++ v.component seed ↔ p ∈ s'.placed ++ v'.component seed
      rw [List.mem_append, List.mem_append, hs.placed,
        (component_perm h.ports h.joins hseed .refl).mem_iff]
    · show (if (v.prunedOf seed).1.length < 2 then s.out else s.out ++ [islandOf (v.prunedOf seed).1]) =
        if (v'.prunedOf seed).1.length < 2 then s'.out else s'.out ++ [islandOf (v'.prunedOf seed).1]
      rw [hsame, hs.out]
    · show s.pruned ++ (v.prunedOf seed).2.map _ = s'.pruned ++ (v'.prunedOf seed).2.map _
      rw [hsame, hs.pruned]

theorem islands_same (v v' : FabricView) (h : SameFacts v v') : v.islands = v'.islands := by
  have hrun : ∀ (l : List FabricPort) (s s' : Sweep), (∀ p ∈ l, p ∈ v.ports) → SameSweep s s' →
      SameSweep (l.foldl v.sweepSeed s) (l.foldl v'.sweepSeed s') := by
    intro l
    induction l with
    | nil => exact fun s s' _ hs => hs
    | cons p l ih =>
      exact fun s s' hl hs => ih _ _ (fun q hq => hl q (List.mem_cons_of_mem p hq))
        (hs.turn h (hl p List.mem_cons_self))
  have hsorted : ∀ v : FabricView, v.ports.Pairwise (· ≤ ·) := fun v => List.pairwise_insertionSort _ _
  have hports : v.ports.foldl v'.sweepSeed ⟨[], [], []⟩ = v'.ports.foldl v'.sweepSeed ⟨[], [], []⟩ :=
    foldl_sorted_congr v'.sweepSeed_again (hsorted v) (hsorted v') h.ports _
  have hsame := hrun v.ports ⟨[], [], []⟩ ⟨[], [], []⟩ (fun _ hp => hp) ⟨fun _ => Iff.rfl, rfl, rfl⟩
  rw [hports] at hsame
  show (List.insertionSort _ _, _) = (List.insertionSort _ _, _)
  rw [hsame.out, hsame.pruned]

/-- A cabled pair as each of its two daemons may hold it. -/
def cabledPair : FabricView × FabricView :=
  (⟨(∅ : Table NodeId (List String)).set "n1" ["10.100.0.1"] |>.set "n2" ["10.100.0.2"],
      {("10.100.0.1", "10.100.0.2")}⟩,
    ⟨(∅ : Table NodeId (List String)).set "n2" ["10.100.0.2", "10.100.0.2"] |>.set "n1" ["10.100.0.1"],
      {("10.100.0.2", "10.100.0.1")}⟩)

theorem islands_same_pair : cabledPair.1.islands = cabledPair.2.islands := by
  refine islands_same _ _ ⟨fun n => ?_, fun n a => ?_, fun a b => ?_⟩
  · simp only [cabledPair, Table.has, Table.get_set]
    split <;> split <;> rfl
  · simp only [Tagged, cabledPair, Table.get_set]
    split <;> split <;> simp_all
  · simp only [cabledPair, Finset.mem_singleton, Prod.mk.injEq]
    exact ⟨fun h => h.symm.imp And.symm And.symm, fun h => h.symm.imp And.symm And.symm⟩

/-! ## Who is left out -/

/-- Whether every node outside an island misses some member of it with each port it has in the
component. -/
def Inclusive (v : FabricView) : Prop :=
  ∀ i ∈ v.islands.1, ∀ p ∈ v.ports, p.node ∉ i.nodes →
    (∃ n a, i.addr.get n = some a ∧ v.Connected p ⟨n, a⟩) →
    ¬∀ m b, i.addr.get m = some b → v.linked p.addr b = true

/-- The ports of a component. -/
noncomputable def reachable (v : FabricView) (seed : FabricPort) : Finset FabricPort :=
  open Classical in v.ports.toFinset.filter (v.Connected seed)

/-- Each node's best connected port, the lowest address of those. -/
def bestPorts (v : FabricView) (comp : Finset FabricPort) : Finset FabricPort :=
  comp.filter fun p => ∀ q ∈ comp, q.node = p.node →
    toLex (OrderDual.toDual (Graph.reach v.joins comp p), p.addr) ≤
      toLex (OrderDual.toDual (Graph.reach v.joins comp q), q.addr)

/-- What the best ports of a component wear down to. -/
def LeftOf (v : FabricView) (seed : FabricPort) (kept : Finset FabricPort) : Prop :=
  Graph.Wears v.joins (v.bestPorts (v.reachable seed)) kept

/-- Of each component in which two ports or more are left, whoever is given up with all the ports of
its node misses a port that is not given up. -/
def GivesUpApart (v : FabricView) : Prop :=
  ∀ seed ∈ v.ports, ∀ kept, v.LeftOf seed kept → 2 ≤ kept.card →
    ∀ p ∈ v.reachable seed, (∀ q ∈ v.reachable seed, q.node = p.node → q ∉ kept) →
      ∃ q ∈ v.reachable seed, q.node ≠ p.node ∧ v.joins p q = false ∧ q ∈ kept

theorem mem_reachable (hseed : seed ∈ v.ports) : p ∈ v.reachable seed ↔ v.Connected seed p := by
  simp only [reachable, Finset.mem_filter, List.mem_toFinset]
  exact and_iff_right_of_imp fun h => h.mem hseed

theorem reachable_component (hseed : seed ∈ v.ports) :
    v.reachable seed = (v.component seed).toFinset := by
  ext p
  rw [mem_reachable hseed, List.mem_toFinset, mem_component hseed]
  rfl

theorem bestPorts_onePortEach {comp : List FabricPort} (hnd : comp.Nodup) :
    v.bestPorts comp.toFinset = (v.onePortEach comp).toFinset := by
  ext p
  simp only [bestPorts, Finset.mem_filter, List.mem_toFinset, mem_onePortEach_iff,
    Graph.reach_toFinset hnd]
  refine and_congr_right fun _ => forall_congr' fun q => imp_congr_right fun _ =>
    imp_congr_right fun hnode => ?_
  rw [rank, rank, hnode]
  constructor
  · exact fun h => Prod.Lex.le_iff.mpr (.inr ⟨rfl, h⟩)
  · intro h
    rcases Prod.Lex.le_iff.mp h with hlt | ⟨-, hle⟩
    · exact absurd hlt (lt_irrefl _)
    · exact hle

/-- The derivation leaves of a component what the component wears down to. -/
theorem prunedOf_left (hseed : seed ∈ v.ports) : v.LeftOf seed (v.prunedOf seed).1.toFinset := by
  rw [LeftOf, reachable_component hseed, bestPorts_onePortEach (component_walked hseed).nodup]
  exact Graph.prune_wears _ v.joins_self (v.onePortEach_nodup _) le_rfl

/-- A node with two ports. The one that reaches most of the component is pruned, and the other
reaches all of the island. -/
def twoPorts : FabricView where
  rdma := [("n1", ["d1", "d2"]), ("n2", ["x"]), ("n3", ["y"]), ("n4", ["z"]), ("n5", ["a"]),
    ("n6", ["b"])].foldl (fun t p => t.set p.1 p.2) (∅ : Table NodeId (List String))
  okPairs := {("a", "b"), ("d1", "a"), ("d1", "b"), ("d2", "x"), ("d2", "y"), ("d2", "z"), ("x", "a")}

end FabricView

end Mentat
