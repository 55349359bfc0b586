import Mentat.Claim.Sound

/-!
# Rings and lines are found

A request of one ring or line set has a solution exactly when some order of the nodes does
(`solve_chain_iff`). The walk follows every such order: it may stop early, but not before it has
found one (`walk_finds`). A ring is only looked for from its lowest node, and where the bundles are
equal every ring can be turned to start there (`exists_lowest_rotation`). What the walk finds has the
cables to both neighbours, since a probe counts both ways, so its members are never refused.
-/

namespace Mentat

/-! ## The walk -/

section Walk

variable {t : Topology} {set : SetReq} {nodes : List NodeId}

/-- What a walk has collected stays. -/
theorem walk_keeps {left : Nat} {chain : List NodeId} {out : List (List NodeId)} (h : out ≠ []) :
    walk t set nodes left chain out ≠ [] := by
  induction left generalizing chain out with
  | zero =>
    rw [walk]
    split
    · exact h
    · split
      · simp
      · exact h
  | succ left ih =>
    rw [walk]
    split
    · exact h
    · refine List.foldlRecOn nodes _ (motive := fun out' : List (List NodeId) => out' ≠ []) h ?_
      intro out' hout n _
      split
      · exact ih hout
      · exact hout

/-- The walk may take these nodes one after another, and the chain they end in closes. -/
def Walkable (t : Topology) (set : SetReq) (nodes : List NodeId) : List NodeId → List NodeId → Prop
  | chain, [] => closes t set chain = true
  | chain, n :: rest =>
    n ∈ nodes ∧ extends_ t set chain n = true ∧ Walkable t set nodes (chain ++ [n]) rest

theorem full_ne_nil {out : List (List NodeId)} (h : maxChains ≤ out.length) : out ≠ [] := by
  rintro rfl
  exact absurd h (by decide)

/-- A walk that has nodes to take ends with an answer, though it may be another one. -/
theorem walk_finds {rest chain : List NodeId} (h : Walkable t set nodes chain rest)
    (out : List (List NodeId)) : walk t set nodes rest.length chain out ≠ [] := by
  induction rest generalizing chain out with
  | nil =>
    rw [List.length_nil, walk]
    split
    · next hmax => exact full_ne_nil hmax
    · rw [if_pos (show closes t set chain = true from h)]
      simp
  | cons n rest ih =>
    obtain ⟨hn, hext, hrest⟩ := h
    rw [List.length_cons, walk]
    split
    · next hmax => exact full_ne_nil hmax
    · -- The nodes before `n` may add answers, `n` leaves at least one, and those after it keep it.
      obtain ⟨before, after, rfl⟩ := List.append_of_mem hn
      rw [List.foldl_append, List.foldl_cons]
      refine List.foldlRecOn after _ (motive := fun out' : List (List NodeId) => out' ≠ []) ?_ ?_
      · rw [if_pos hext]
        exact ih hrest _
      · intro out' hout m _
        split
        · exact walk_keeps hout
        · exact hout

/-- The walk may follow an order of nodes that closes. -/
theorem NodeOrder.walkable {order : List NodeId} (h : NodeOrder t set order)
    (hlow : set.layout = .ring → LowestFirst order) (hclosed : closes t set order = true)
    (hnodes : ∀ n ∈ order, n ∈ nodes) : Walkable t set nodes [] order := by
  have hfrom : ∀ rest chain, chain ++ rest = order → Walkable t set nodes chain rest := by
    intro rest
    induction rest with
    | nil =>
      rintro chain rfl
      rw [List.append_nil] at hclosed
      exact hclosed
    | cons n rest ih =>
      intro chain heq
      have hin : n ∈ order := by
        rw [← heq]
        simp
      refine ⟨hnodes n hin, extends_iff.mpr ⟨?_, ?_, fun hring first hfirst => ?_, ?_⟩, ih _ ?_⟩
      · intro hmem
        have hnd := h.nodup
        rw [← heq, List.nodup_append] at hnd
        exact hnd.2.2 n hmem n List.mem_cons_self rfl
      · refine h.fits chain.length n ?_
        rw [← heq, List.getElem?_append_right (Nat.le_refl _), Nat.sub_self, List.getElem?_cons_zero]
      · refine hlow hring first ?_ n hin
        rw [← heq]
        exact List.mem_head?_append_of_mem_head? hfirst
      · have hchain := h.cabled
        rw [← heq, List.isChain_append] at hchain
        exact fun last hlast => hchain.2.2 last hlast n rfl
      · rw [List.append_assoc]
        exact heq
  exact hfrom order [] rfl

theorem candidates_finds (ho : set.layout.ordered = true) {order : List NodeId}
    (h : NodeOrder t set order) (hlow : set.layout = .ring → LowestFirst order)
    (hclosed : closes t set order = true) (hlen : order.length = set.bundles.length) :
    candidates t set [] ≠ [] := by
  unfold candidates
  rw [if_pos ho, ← hlen]
  refine walk_finds (h.walkable hlow hclosed fun n hn => ?_) []
  simp only [Table.sortedKeys, List.mem_filter, List.mem_insertionSort, Table.mem_keys,
    List.contains_nil, Bool.not_false, and_true]
  exact Table.has_iff.mp (h.agents n hn)

end Walk

/-! ## Turning a ring -/

/-- Some rotation of a list starts at its lowest element. -/
theorem exists_lowest_rotation {l : List NodeId} (h : l ≠ []) : ∃ k, LowestFirst (l.rotate k) := by
  obtain ⟨m, hm, hle⟩ := l.toFinset.exists_min_image id
    (by simpa [Finset.nonempty_iff_ne_empty] using h)
  rw [List.mem_toFinset] at hm
  obtain ⟨k, hk, hget⟩ := List.getElem_of_mem hm
  refine ⟨k, fun first hfirst n hn => ?_⟩
  rw [List.head?_rotate hk, List.getElem?_eq_getElem hk, hget, Option.mem_some_iff] at hfirst
  subst hfirst
  exact hle n (List.mem_toFinset.mpr (List.mem_rotate.mp hn))

section Ring

variable {t : Topology} {set : SetReq} {nodes : List NodeId}

/-- The last node of a ring of three or more is cabled to the first. -/
def RingCloses (t : Topology) (set : SetReq) (nodes : List NodeId) : Prop :=
  set.layout = .ring → 3 ≤ nodes.length →
    ∀ last ∈ nodes.getLast?, ∀ first ∈ nodes.head?, t.Joined set.link true last first

theorem closes_iff (hpos : 0 < nodes.length) :
    closes t set nodes = true ↔ RingCloses t set nodes := by
  have hne := List.ne_nil_of_length_pos hpos
  simp only [closes, RingCloses, Bool.or_eq_true, bne_iff_ne, decide_eq_true_eq,
    Topology.path_isSome, or_assoc]
  rw [List.head?_eq_some_head hne, List.getLast?_eq_some_getLast hne,
    List.getLastD_eq_getLast?, List.headD_eq_head?_getD, List.head?_eq_some_head hne,
    List.getLast?_eq_some_getLast hne]
  simp only [Option.mem_some_iff, forall_eq', Option.getD_some]
  constructor
  · rintro (h | h | h) hring hlen
    · exact absurd hring h
    · omega
    · exact h
  · intro h
    by_cases hring : set.layout = .ring
    · by_cases hlen : nodes.length < 3
      · exact .inr (.inl hlen)
      · exact .inr (.inr (h hring (by omega)))
    · exact .inl hring

/-- A ring of two or more is cabled all the way around. Two nodes are on one cable. -/
theorem NodeOrder.cyclic (h : NodeOrder t set nodes) (hring : set.layout = .ring)
    (hcloses : RingCloses t set nodes) (hk : 2 ≤ nodes.length) :
    Cyclic (t.Joined set.link true) nodes := by
  intro i a b ha hb
  have hi := (List.getElem?_eq_some_iff.mp ha).1
  rcases Nat.lt_or_ge (i + 1) nodes.length with hlt | hge
  · rw [Nat.mod_eq_of_lt hlt] at hb
    obtain ⟨-, rfl⟩ := List.getElem?_eq_some_iff.mp ha
    obtain ⟨-, rfl⟩ := List.getElem?_eq_some_iff.mp hb
    exact List.isChain_iff_getElem.mp h.cabled i hlt
  · have hlast : i = nodes.length - 1 := by omega
    rw [show i + 1 = nodes.length by omega, Nat.mod_self] at hb
    rcases Nat.lt_or_ge nodes.length 3 with htwo | hthree
    · -- The one cable, taken the other way.
      obtain rfl : i = 1 := by omega
      obtain ⟨-, rfl⟩ := List.getElem?_eq_some_iff.mp ha
      obtain ⟨-, rfl⟩ := List.getElem?_eq_some_iff.mp hb
      exact (List.isChain_iff_getElem.mp h.cabled 0 hi).symm
    · refine hcloses hring hthree a ?_ b ?_
      · rw [List.getLast?_eq_getElem?, ← hlast]
        exact ha
      · rw [List.head?_eq_getElem?]
        exact hb

/-- Read back from a ring. -/
theorem ringCloses_of_cyclic (h : Cyclic (t.Joined set.link true) nodes) :
    nodes.IsChain (t.Joined set.link true) ∧ RingCloses t set nodes := by
  refine ⟨List.isChain_iff_getElem.mpr fun i hi => ?_, fun _ hlen a ha b hb => ?_⟩
  · refine h i _ _ (List.getElem?_eq_getElem (by omega)) ?_
    rw [Nat.mod_eq_of_lt hi]
    exact List.getElem?_eq_getElem hi
  · rw [List.getLast?_eq_getElem?] at ha
    rw [List.head?_eq_getElem?] at hb
    refine h _ a b ha ?_
    rw [show nodes.length - 1 + 1 = nodes.length by omega, Nat.mod_self]
    exact hb

/-- With equal bundles, a ring may start at any of its nodes. -/
theorem NodeOrder.rotate (h : NodeOrder t set nodes) (hring : set.layout = .ring)
    (hcloses : RingCloses t set nodes) (hlen : nodes.length = set.bundles.length)
    (hk : 2 ≤ nodes.length) (heq : ∀ w ∈ set.bundles, ∀ w' ∈ set.bundles, w = w') (k : Nat) :
    NodeOrder t set (nodes.rotate k) ∧ RingCloses t set (nodes.rotate k) := by
  have hturned : Cyclic (t.Joined set.link true) (nodes.rotate k) :=
    (h.cyclic hring hcloses hk).rotate k
  obtain ⟨hchain, hcloses⟩ := ringCloses_of_cyclic hturned
  refine ⟨⟨List.nodup_rotate.mpr h.nodup, fun n hn => h.agents n (List.mem_rotate.mp hn), ?_, hchain⟩,
    hcloses⟩
  intro i n hi
  obtain ⟨j, hj, rfl⟩ := List.getElem_of_mem (List.mem_rotate.mp (List.mem_of_getElem? hi))
  have hil := (List.getElem?_eq_some_iff.mp hi).1
  rw [List.length_rotate, hlen] at hil
  have hjl : j < set.bundles.length := hlen ▸ hj
  have hfit := h.fits j _ (List.getElem?_eq_getElem hj)
  simp only [SetReq.fits, decide_eq_true_eq] at hfit ⊢
  rw [List.getD_eq_getElem _ _ hjl] at hfit
  rw [List.getD_eq_getElem _ _ hil, heq _ (List.getElem_mem hil) _ (List.getElem_mem hjl)]
  exact hfit

end Ring

/-! ## The members of an order -/

section Members

variable {t : Topology} {set : SetReq} {nodes : List NodeId}

/-- The neighbours of a member are cabled to it. -/
theorem NodeOrder.neighbour (h : NodeOrder t set nodes) (hcloses : RingCloses t set nodes)
    (hk : 2 ≤ nodes.length) {i j : Nat} {a : NodeId} (ha : nodes[i]? = some a)
    (hj : (neighbourIdx set.layout nodes.length i).1 = some j ∨
      (neighbourIdx set.layout nodes.length i).2 = some j) :
    ∃ b, nodes[j]? = some b ∧ t.Joined set.link true a b := by
  have hi := (List.getElem?_eq_some_iff.mp ha).1
  have hchain := List.isChain_iff_getElem.mp h.cabled
  cases hlay : set.layout with
  | mesh => simp [hlay, neighbourIdx] at hj
  | ring =>
    have hring := h.cyclic hlay hcloses hk
    simp only [hlay, neighbourIdx, if_pos (show 1 < nodes.length by omega), Option.some.injEq] at hj
    rcases hj with rfl | rfl
    · have hlt : (i + nodes.length - 1) % nodes.length < nodes.length := Nat.mod_lt _ (by omega)
      refine ⟨_, List.getElem?_eq_getElem hlt, (hring _ _ a (List.getElem?_eq_getElem hlt) ?_).symm⟩
      rw [Nat.mod_add_mod, show i + nodes.length - 1 + 1 = i + nodes.length by omega,
        Nat.add_mod_right, Nat.mod_eq_of_lt hi]
      exact ha
    · have hlt : (i + 1) % nodes.length < nodes.length := Nat.mod_lt _ (by omega)
      exact ⟨_, List.getElem?_eq_getElem hlt, hring i a _ ha (List.getElem?_eq_getElem hlt)⟩
  | line =>
    obtain ⟨-, rfl⟩ := List.getElem?_eq_some_iff.mp ha
    simp only [hlay, neighbourIdx, Option.ite_none_right_eq_some, Option.some.injEq] at hj
    rcases hj with ⟨hpos, rfl⟩ | ⟨hlt, rfl⟩
    · obtain ⟨i, rfl⟩ : ∃ i', i = i' + 1 := ⟨i - 1, by omega⟩
      exact ⟨_, List.getElem?_eq_getElem (by omega), (hchain i hi).symm⟩
    · exact ⟨_, List.getElem?_eq_getElem hlt, hchain i hlt⟩

theorem cableTo_ok {i : Nat} {a : NodeId} (ha : nodes[i]? = some a) {o : Option Nat}
    (h : ∀ j, o = some j → ∃ b, nodes[j]? = some b ∧ t.Joined set.link true a b) :
    ∃ p, cableTo t set nodes i o = .ok p ∧ p.isSome = o.isSome := by
  cases o with
  | none => exact ⟨none, rfl, rfl⟩
  | some j =>
    obtain ⟨b, hb, hjoined⟩ := h j rfl
    obtain ⟨p, hp⟩ := Option.isSome_iff_exists.mp (Topology.path_isSome.mpr hjoined)
    refine ⟨some p, ?_, rfl⟩
    simp only [cableTo, List.getD_eq_getElem?_getD, ha, hb, Option.getD_some, hp]

/-- A ring or a line of two or more gives every member a neighbour. -/
theorem neighbourIdx_isSome (ho : set.layout.ordered = true) {k i : Nat} (hk : 2 ≤ k) :
    ((neighbourIdx set.layout k i).2.or (neighbourIdx set.layout k i).1).isSome = true := by
  cases hlay : set.layout with
  | mesh =>
    rw [hlay] at ho
    cases ho
  | ring => simp [neighbourIdx, show 1 < k by omega]
  | line =>
    simp only [neighbourIdx, Option.isSome_or, Bool.or_eq_true]
    rcases Nat.eq_zero_or_pos i with rfl | hpos
    · left
      simp [show 1 < k by omega]
    · right
      simp [hpos]

/-- The members of an order are never refused. -/
theorem NodeOrder.membersOf_ok (h : NodeOrder t set nodes) (ho : set.layout.ordered = true)
    (hcloses : RingCloses t set nodes) (hk : 2 ≤ nodes.length) :
    ∃ members, membersOf t set nodes = .ok members := by
  refine mapM_ok_of_forall fun (n, i) hmem => ?_
  have hn : nodes[i]? = some n := by simpa [List.mem_zipIdx_iff_getElem?] using hmem
  obtain ⟨prev, hprev, hprevSome⟩ := cableTo_ok hn fun j hj => h.neighbour hcloses hk hn (.inl hj)
  obtain ⟨next, hnext, hnextSome⟩ := cableTo_ok hn fun j hj => h.neighbour hcloses hk hn (.inr hj)
  have hsome := neighbourIdx_isSome ho (i := i) hk
  rw [Option.isSome_or, ← hprevSome, ← hnextSome, ← Option.isSome_or] at hsome
  obtain ⟨p, hp⟩ := Option.isSome_iff_exists.mp hsome
  simp only [memberAt, neighbours, hprev, hnext, hp, bind, Except.bind]
  exact ⟨_, rfl⟩

end Members

/-! ## `solve` -/

/-- A ring or line set of two or more asked for by itself is placed exactly when some order of
distinct nodes has the GPUs and the cables. The bundles of a ring are equal. -/
theorem solve_chain_iff (t : Topology) (set : SetReq) (ho : set.layout.ordered = true)
    (hk : 2 ≤ set.bundles.length)
    (heq : set.layout = .ring → ∀ w ∈ set.bundles, ∀ w' ∈ set.bundles, w = w') :
    (∃ sol, solve t ⟨[set], []⟩ = .ok sol) ↔
      ∃ nodes, nodes.length = set.bundles.length ∧ NodeOrder t set nodes ∧
        RingCloses t set nodes := by
  have hbundles : set.bundles ≠ [] := List.ne_nil_of_length_pos (by omega)
  constructor
  · rintro ⟨sol, h⟩
    obtain ⟨-, hsets, -⟩ := solve_sound h
    obtain ⟨taken, nodes, -, hc, -⟩ := hsets set List.mem_cons_self
    obtain ⟨horder, -, -, hclosed, hlen⟩ := candidates_ordered ho hc
    exact ⟨nodes, hlen, horder, (closes_iff (by omega)).mp hclosed⟩
  · rintro ⟨nodes, hlen, horder, hcloses⟩
    have hne : nodes ≠ [] := List.ne_nil_of_length_pos (by omega)
    -- The order the walk looks for: a ring turned to its lowest node.
    obtain ⟨order, hlen, horder, hcloses, hlow⟩ : ∃ order, order.length = set.bundles.length ∧
        NodeOrder t set order ∧ RingCloses t set order ∧
        (set.layout = .ring → LowestFirst order) := by
      by_cases hring : set.layout = .ring
      · obtain ⟨k, hlow⟩ := exists_lowest_rotation hne
        obtain ⟨horder, hcloses⟩ := horder.rotate hring hcloses hlen (by omega) (heq hring) k
        exact ⟨_, by rw [List.length_rotate, hlen], horder, hcloses, fun _ => hlow⟩
      · exact ⟨nodes, hlen, horder, hcloses, fun h => absurd h hring⟩
    have hfound := candidates_finds ho horder hlow ((closes_iff (by omega)).mpr hcloses) hlen
    -- The walk may have come to another order first, which is as good.
    obtain ⟨first, hfirst⟩ := Option.isSome_iff_exists.mp (List.isSome_head?.mpr hfound)
    obtain ⟨horder, -, -, hclosed, hlen⟩ := candidates_ordered ho (List.mem_of_mem_head? hfirst)
    obtain ⟨members, hmembers⟩ := horder.membersOf_ok ho ((closes_iff (by omega)).mp hclosed) (by omega)
    obtain ⟨sol, hsol, -⟩ := solve_one hbundles hfirst hmembers
    exact ⟨sol, hsol⟩

/-- A ring over the kite: its three cabled nodes, from any of them. -/
theorem solve_chain_iff_kite : ∃ nodes, NodeOrder Sample.kite ⟨"s", [1, 1, 1], .rdma, .ring, ""⟩ nodes ∧
    nodes.length = 3 := by
  have hsol : ∃ sol, solve Sample.kite ⟨[⟨"s", [1, 1, 1], .rdma, .ring, ""⟩], []⟩ = .ok sol :=
    exists_of_isOk (by decide +kernel)
  obtain ⟨nodes, hlen, horder, -⟩ := (solve_chain_iff Sample.kite _ rfl (by decide) (by decide)).mp hsol
  exact ⟨nodes, horder, hlen⟩

end Mentat
