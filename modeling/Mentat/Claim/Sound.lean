import Mentat.Claim.Solved

/-!
# A solution meets its request

`Meets` is what an answer of `solve` promises: a set of members for every set asked for, on nodes of
their own, with the GPUs, the fabric or the cables the set wants, and a link for every requirement
between two sets. `solve_meets` proves it of every solution. An island has to list each of its nodes
once, as `islands` derives them: the solver takes the first that fit without looking for a node it
has just taken (`island_repeats_node`).
-/

namespace Mentat

/-- The nodes a solution gives a set. -/
def Solution.nodesOf (sol : Solution) (name : String) : List NodeId :=
  ((sol.sets.get name).getD []).map (·.node)

/-- The members a set was asked for: one for each bundle with the GPUs for it, inside one island for
an `rdma` mesh, and cabled one to the next for a ring or a line. -/
structure SetMet (t : Topology) (set : SetReq) (members : List Member) : Prop where
  length : members.length = set.bundles.length
  fits : ∀ (i : Nat) (m : Member) (want : Nat), members[i]? = some m → set.bundles[i]? = some want →
    want ≤ t.free m.node
  island : set.layout = .mesh → set.link = .rdma →
    ∃ island ∈ t.islands, ∀ m ∈ members, m.node ∈ island.nodes
  cabled : set.layout.ordered = true → members.IsChain (CabledOver t set.link)
  closed : set.layout = .ring → 3 ≤ members.length →
    ∀ a ∈ members.getLast?, ∀ b ∈ members.head?, CabledOver t set.link a b
  lowest : set.layout = .ring → LowestFirst (members.map (·.node))

/-- The path leads from a node of the one set to a node of the other. -/
def BetweenMet (t : Topology) (sol : Solution) (b : BetweenReq) (p : Path) : Prop :=
  ∃ src ∈ sol.nodesOf b.src, ∃ dst ∈ sol.nodesOf b.dst, t.Joins src dst b.link false p

structure Meets (t : Topology) (req : Request) (sol : Solution) : Prop where
  names : ∀ k, sol.sets.has k = true ↔ ∃ s ∈ req.sets, s.name = k
  sets : ∀ s ∈ req.sets, ∃ members, sol.sets.get s.name = some members ∧ SetMet t s members
  apart : (req.sets.flatMap fun s => sol.nodesOf s.name).Nodup
  between : List.Forall₂ (BetweenMet t sol) req.between sol.between

/-- Each island lists a node once. -/
def Topology.IslandsNodup (t : Topology) : Prop := ∀ island ∈ t.islands, island.nodes.Nodup

/-! ## Nodes of their own -/

section Apart

variable {t : Topology} {set : SetReq} {taken : List NodeId}

theorem chooseFirst_sublist (t : Topology) (set : SetReq) (taken nodes : List NodeId) :
    (chooseFirst t set taken nodes).Sublist nodes := by
  have hfold : ∀ chosen, ∃ more, nodes.foldl (fun chosen n =>
      if chosen.length = set.bundles.length then chosen
      else if !taken.contains n && set.fits t n chosen.length then chosen ++ [n]
      else chosen) chosen = chosen ++ more ∧ more.Sublist nodes := by
    induction nodes with
    | nil => exact fun chosen => ⟨[], by simp, List.Sublist.slnil⟩
    | cons n nodes ih =>
      intro chosen
      rw [List.foldl_cons]
      split
      · obtain ⟨more, heq, hsub⟩ := ih chosen
        exact ⟨more, heq, hsub.cons n⟩
      · split
        · obtain ⟨more, heq, hsub⟩ := ih (chosen ++ [n])
          exact ⟨n :: more, by rw [heq, List.append_assoc]; rfl, hsub.cons_cons n⟩
        · obtain ⟨more, heq, hsub⟩ := ih chosen
          exact ⟨more, heq, hsub.cons n⟩
  obtain ⟨more, heq, hsub⟩ := hfold []
  rw [chooseFirst, heq]
  exact hsub

theorem Table.sortedKeys_nodup {V : Type} (t : Table String V) : t.sortedKeys.Nodup :=
  (List.perm_insertionSort _ _).nodup_iff.mpr t.alist.nodupKeys

/-- What a mesh candidate is: nodes of one island chosen in turn, or of those with an agent. -/
theorem candidates_mesh (hm : set.layout = .mesh) {nodes : List NodeId}
    (hc : nodes ∈ candidates t set taken) :
    ∃ from_, nodes = chooseFirst t set taken from_ ∧
      (set.link = .rdma → ∃ island ∈ t.islands,
        from_ = island.nodes.filter fun n => !taken.contains n) ∧
      (set.link = .any → from_ = t.freeGpus.sortedKeys) := by
  unfold candidates at hc
  rw [if_neg (by simp [hm, Layout.ordered])] at hc
  split at hc
  · next hlink =>
    obtain ⟨island, hisland, hc⟩ := List.mem_filterMap.mp hc
    simp only at hc
    split at hc
    · cases hc
    · split at hc
      · cases hc
        exact ⟨_, rfl, fun _ => ⟨island, hisland, rfl⟩, by simp [hlink]⟩
      · cases hc
  · next hlink =>
    simp only at hc
    split at hc
    · cases List.mem_singleton.mp hc
      exact ⟨_, rfl, by simp [hlink], fun _ => rfl⟩
    · cases hc

/-- A candidate's nodes are distinct, and none of them is taken. -/
theorem candidates_apart (hi : t.IslandsNodup) {nodes : List NodeId}
    (hc : nodes ∈ candidates t set taken) : nodes.Nodup ∧ ∀ n ∈ nodes, n ∉ taken := by
  cases ho : set.layout.ordered with
  | true =>
    obtain ⟨horder, hfree, -⟩ := candidates_ordered ho hc
    exact ⟨horder.nodup, hfree⟩
  | false =>
    have hm : set.layout = .mesh := by
      cases h : set.layout <;> simp_all [Layout.ordered]
    obtain ⟨from_, rfl, hrdma, hany⟩ := candidates_mesh hm hc
    refine ⟨(chooseFirst_sublist t set taken from_).nodup ?_,
      fun n hn => ((chooseFirst_sound t set taken from_).2 n hn).2⟩
    cases hl : set.link with
    | rdma =>
      obtain ⟨island, hisland, rfl⟩ := hrdma hl
      exact (hi island hisland).filter _
    | any =>
      rw [hany hl]
      exact t.freeGpus.sortedKeys_nodup

/-- The sets the search has placed share no node, with each other or with those taken before. -/
theorem search_apart {req : Request} (hi : t.IslandsNodup) {order : List SetReq}
    {chosen res : Table String (List NodeId)} (hnd : (order.map (·.name)).Nodup)
    (h : search t req order chosen taken = some res) :
    (order.flatMap fun s => (res.get s.name).getD []).Nodup ∧
      ∀ n ∈ order.flatMap fun s => (res.get s.name).getD [], n ∉ taken := by
  induction order generalizing chosen taken with
  | nil => simp
  | cons s order ih =>
    rw [search] at h
    obtain ⟨nodes, hnodes, h⟩ := List.exists_of_findSome?_eq_some h
    obtain ⟨hs, hnd⟩ := List.nodup_cons.mp hnd
    obtain ⟨-, hrest⟩ := search_sound hnd h
    have hget : res.get s.name = some nodes := by rw [hrest _ hs, Table.get_set_self]
    obtain ⟨hdistinct, hnew⟩ := candidates_apart hi hnodes
    obtain ⟨hlater, hdisj⟩ := ih hnd h
    rw [List.flatMap_cons, hget, Option.getD_some]
    refine ⟨List.nodup_append.mpr ⟨hdistinct, hlater, fun a ha b hb he => ?_⟩, fun n hn => ?_⟩
    · subst he
      exact hdisj a hb (List.mem_append_left taken ha)
    · rcases List.mem_append.mp hn with hn | hn
      · exact hnew n hn
      · exact fun ht => hdisj n hn (List.mem_append_right nodes ht)

end Apart

/-! ## Links between sets -/

theorem mapM_some_forall {α β : Type} {f : α → Option β} {l : List α} {out : List β}
    (h : l.mapM f = some out) : List.Forall₂ (fun x y => f x = some y) l out := by
  induction l generalizing out with
  | nil =>
    cases h
    exact .nil
  | cons x l ih =>
    rw [List.mapM_cons] at h
    simp only [Option.pure_def, Option.bind_eq_bind, Option.bind_eq_some_iff, Option.some.injEq] at h
    obtain ⟨y, hy, ys, hys, rfl⟩ := h
    exact .cons hy (ih hys)

/-- A path for each requirement, between nodes chosen for its two sets. -/
theorem pathsBetween_joins {t : Topology} {req : Request} {chosen : Table String (List NodeId)}
    {paths : List Path} (h : pathsBetween t req chosen = some paths) :
    List.Forall₂ (fun b p => ∃ src ∈ (chosen.get b.src).getD [], ∃ dst ∈ (chosen.get b.dst).getD [],
      t.Joins src dst b.link false p) req.between paths := by
  refine (mapM_some_forall h).imp fun b p hp => ?_
  simp only [Option.bind_eq_bind, Option.bind_eq_some_iff] at hp
  obtain ⟨src, hsrc, dst, hdst, hbest⟩ := hp
  have hmem := pickBest_mem hbest
  simp only [List.mem_flatMap, List.mem_filterMap] at hmem
  obtain ⟨a, ha, c, hc, hpath⟩ := hmem
  rw [hsrc, hdst]
  exact ⟨a, ha, c, hc, Topology.path_joins hpath⟩

/-! ## `solve` -/

section Solve

variable {t : Topology} {req : Request} {sol : Solution}

/-- The members of a candidate are what its set was asked for. -/
theorem membersOf_met {set : SetReq} {taken nodes : List NodeId} {members : List Member}
    (hc : nodes ∈ candidates t set taken) (h : membersOf t set nodes = .ok members) :
    SetMet t set members := by
  have hnodes := membersOf_nodes h
  obtain ⟨hlen, hfits, -⟩ := candidates_sound hc
  refine ⟨(membersOf_length h).trans hlen, fun i m want hm hwant => ?_, fun hmesh hrdma => ?_,
    fun ho => ?_, fun hring hk a ha b hb => ?_, fun hring => ?_⟩
  · have := hfits i m.node (membersOf_get h hm).1
    simpa [SetReq.fits, List.getD_eq_getElem?_getD, hwant] using this
  · obtain ⟨from_, rfl, hisland, -⟩ := candidates_mesh hmesh hc
    obtain ⟨island, hin, rfl⟩ := hisland hrdma
    refine ⟨island, hin, fun m hm => ?_⟩
    have : m.node ∈ members.map (·.node) := List.mem_map_of_mem hm
    rw [hnodes] at this
    exact List.mem_of_mem_filter ((chooseFirst_sound t set taken _).2 _ this).1
  · cases hlay : set.layout with
    | mesh =>
      rw [hlay] at ho
      cases ho
    | line => exact (membersOf_line h hlay).chain
    | ring =>
      refine List.isChain_iff_getElem.mpr fun i hi => ?_
      refine membersOf_ring h hlay (by omega) i _ _ (List.getElem?_eq_getElem (by omega)) ?_
      rw [Nat.mod_eq_of_lt hi]
      exact List.getElem?_eq_getElem hi
  · rw [List.getLast?_eq_getElem?] at ha
    rw [List.head?_eq_getElem?] at hb
    refine membersOf_ring h hring (by omega) _ a b ha ?_
    rw [show members.length - 1 + 1 = members.length by omega, Nat.mod_self]
    exact hb
  · obtain ⟨-, -, hlow, -⟩ := candidates_ordered (by simp [hring, Layout.ordered]) hc
    rw [hnodes]
    exact hlow hring

/-- A solution's nodes are those the search chose, which it chose apart. -/
theorem solve_chosen (hi : t.IslandsNodup) (h : solve t req = .ok sol) :
    ∃ chosen, (∀ k, sol.nodesOf k = (chosen.get k).getD []) ∧
      (req.sets.flatMap fun s => (chosen.get s.name).getD []).Nodup ∧
      pathsBetween t req chosen = some sol.between := by
  obtain ⟨hmal, chosen, hsearch, hs, hbetween⟩ := solve_eq_ok h
  obtain ⟨-, hnd⟩ := malformed_eq_none hmal
  have hperm := List.perm_insertionSort (SetReq.before · ·) req.sets
  have hnames := (hperm.map (·.name)).nodup_iff.mpr hnd
  obtain ⟨hmem, hothers⟩ := solvedSets_sound hnd hs
  refine ⟨chosen, fun k => ?_, ?_, hbetween⟩
  · by_cases hk : k ∈ req.sets.map (·.name)
    · obtain ⟨s, hin, rfl⟩ := List.mem_map.mp hk
      obtain ⟨members, hmembers, hget⟩ := hmem s hin
      rw [Solution.nodesOf, hget]
      exact membersOf_nodes hmembers
    · have hk' := mt ((hperm.map (·.name)).mem_iff.mp) hk
      rw [Solution.nodesOf, hothers k hk, (search_sound hnames hsearch).2 k hk']
      rfl
  · exact (List.Perm.flatMap_right _ hperm).nodup_iff.mp (search_apart hi hnames hsearch).1

/-- Every solution meets its request. -/
theorem solve_meets (hi : t.IslandsNodup) (h : solve t req = .ok sol) : Meets t req sol := by
  obtain ⟨-, hsets, hnames⟩ := solve_sound h
  obtain ⟨chosen, hchosen, hapart, hbetween⟩ := solve_chosen hi h
  refine ⟨fun k => ⟨fun hk => ?_, ?_⟩, fun s hin => ?_, ?_, ?_⟩
  · obtain ⟨members, hget⟩ := Table.has_iff.mp hk
    exact hnames k members hget
  · rintro ⟨s, hin, rfl⟩
    obtain ⟨-, -, members, -, -, hget⟩ := hsets s hin
    exact Table.has_iff.mpr ⟨members, hget⟩
  · obtain ⟨taken, nodes, members, hc, hmembers, hget⟩ := hsets s hin
    exact ⟨members, hget, membersOf_met hc hmembers⟩
  · simp only [hchosen]
    exact hapart
  · refine (pathsBetween_joins hbetween).imp fun b p hp => ?_
    simp only [BetweenMet, hchosen]
    exact hp

/-- A set asked for by itself gets the first candidate there is. -/
theorem solve_one {set : SetReq} {nodes : List NodeId} {members : List Member}
    (hne : set.bundles ≠ []) (hc : (candidates t set []).head? = some nodes)
    (hm : membersOf t set nodes = .ok members) :
    ∃ sol, solve t ⟨[set], []⟩ = .ok sol ∧ sol.sets.get set.name = some members := by
  have hmal : malformed ⟨[set], []⟩ = none := by
    simp [malformed, hne]
  have hsearch : search t ⟨[set], []⟩ ([set].insertionSort (SetReq.before · ·)) ∅ [] =
      some ((∅ : Table String (List NodeId)).set set.name nodes) := by
    obtain ⟨rest, hrest⟩ := List.head?_eq_some_iff.mp hc
    show search t ⟨[set], []⟩ [set] ∅ [] = _
    rw [search, hrest, List.findSome?_cons]
    rfl
  refine ⟨⟨(∅ : Table String (List Member)).set set.name members, []⟩, ?_, Table.get_set_self _ _ _⟩
  unfold solve
  rw [hmal, hsearch]
  simp only [solvedSets, Table.get_set_self, Option.getD_some, hm, bind, Except.bind]
  rfl

end Solve

theorem exists_of_isOk {ε α : Type} {e : Except ε α} (h : e.isOk = true) : ∃ x, e = .ok x := by
  cases e with
  | error why => cases h
  | ok x => exact ⟨x, rfl⟩

theorem exists_of_not_isOk {ε α : Type} {e : Except ε α} (h : e.isOk = false) :
    ∃ why, e = .error why := by
  cases e with
  | error why => exact ⟨why, rfl⟩
  | ok x => cases h

namespace Sample

/-- Nodes with two GPUs each and one `rdma` port, named like the node. The pairs answered a
probe. -/
def wiring (nodes : List NodeId) (pairs : List (NodeId × NodeId)) (islands : List (List NodeId)) :
    Topology where
  islands := islands.map fun nodes => ⟨nodes, ∅⟩
  ports := nodes.foldl (fun t n => t.set n [⟨n, none, ["rdma"]⟩]) ∅
  links := pairs.foldl (fun t p => t.set p 1) ∅
  forwarded := []
  freeGpus := nodes.foldl (fun t n => t.set n 2) ∅
  hosts := ∅
  vendors := ∅

/-- A ring of three, with a fourth node hanging off it. -/
def kite : Topology := wiring ["a", "b", "c", "d"] [("a", "b"), ("b", "c"), ("c", "a"), ("c", "d")] []

/-- A ring of three with a link to a node by itself. -/
def ringAndOne : Request :=
  ⟨[⟨"ring", [1, 1, 2], .rdma, .ring, ""⟩, ⟨"one", [1], .any, .mesh, ""⟩], [⟨"ring", "one", .any⟩]⟩

end Sample

theorem solve_meets_kite : ∃ sol, solve Sample.kite Sample.ringAndOne = .ok sol ∧
    Meets Sample.kite Sample.ringAndOne sol := by
  obtain ⟨sol, h⟩ : ∃ sol, solve Sample.kite Sample.ringAndOne = .ok sol :=
    exists_of_isOk (by decide +kernel)
  exact ⟨sol, h, solve_meets (fun island hi => by cases hi) h⟩

/-- An island that lists a node twice gives a set both of its places on the one node. -/
theorem island_repeats_node :
    ¬ ∀ t req sol, solve t req = .ok sol → Meets t req sol := by
  intro h
  let t := Sample.wiring ["a"] [] [["a", "a"]]
  let req : Request := ⟨[⟨"pair", [1, 1], .rdma, .mesh, ""⟩], []⟩
  have hnodes : (solve t req).toOption.map (·.nodesOf "pair") = some ["a", "a"] := by decide +kernel
  obtain ⟨sol, hs⟩ : ∃ sol, solve t req = .ok sol := exists_of_isOk (by decide +kernel)
  rw [hs] at hnodes
  have hpair : sol.nodesOf "pair" = ["a", "a"] := Option.some.inj hnodes
  have hapart : (sol.nodesOf "pair" ++ []).Nodup := (h t req sol hs).apart
  rw [hpair] at hapart
  exact absurd hapart (by decide)

end Mentat
