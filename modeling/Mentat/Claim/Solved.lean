import Mentat.Claim.Links
import Mentat.Claim.Solve
import Mentat.Lib.Chain

/-!
# What the solver finds

The nodes of a solved set are a candidate for it (`solve_sound`): one node for each bundle, with as
many GPUs free as the bundle asks for. In a ring or a line they are distinct, and each member has
the cable to its neighbours.

The view is the solution written out as JSON. The last part reads it back.
-/

namespace Mentat

theorem mapM_ok_forall {α β ε : Type} {f : α → Except ε β} {l : List α} {out : List β}
    (h : l.mapM f = .ok out) : List.Forall₂ (fun x y => f x = .ok y) l out := by
  induction l generalizing out with
  | nil =>
    cases h
    exact .nil
  | cons x l ih =>
    rw [List.mapM_cons] at h
    cases hx : f x with
    | error e =>
      rw [hx] at h
      cases h
    | ok y =>
      cases hl : l.mapM f with
      | error e =>
        rw [hx, hl] at h
        cases h
      | ok ys =>
        rw [hx, hl] at h
        cases h
        exact .cons hx (ih hl)

theorem mapM_ok_of_forall {α β ε : Type} {f : α → Except ε β} {l : List α}
    (h : ∀ x ∈ l, ∃ y, f x = .ok y) : ∃ out, l.mapM f = .ok out := by
  induction l with
  | nil => exact ⟨[], rfl⟩
  | cons x l ih =>
    obtain ⟨y, hy⟩ := h x List.mem_cons_self
    obtain ⟨ys, hys⟩ := ih fun z hz => h z (List.mem_cons_of_mem x hz)
    exact ⟨y :: ys, by rw [List.mapM_cons, hy, hys]; rfl⟩

/-! ## Candidates -/

section Candidates

variable {t : Topology} {set : SetReq} {taken : List NodeId}

/-- What every chain keeps that a walk extends, the chains it collects have. -/
theorem walk_sound {nodes : List NodeId} {P : List NodeId → Prop}
    (hstep : ∀ chain n, P chain → n ∈ nodes → extends_ t set chain n = true → P (chain ++ [n]))
    {left : Nat} {chain : List NodeId} (hP : P chain) {out : List (List NodeId)} {c : List NodeId}
    (hc : c ∈ walk t set nodes left chain out) :
    c ∈ out ∨ (P c ∧ c.length = chain.length + left ∧ closes t set c = true) := by
  induction left generalizing chain out with
  | zero =>
    rw [walk] at hc
    split at hc
    · exact .inl hc
    · split at hc
      · next hclosed =>
        rcases List.mem_append.mp hc with hc | hc
        · exact .inl hc
        · cases List.mem_singleton.mp hc
          exact .inr ⟨hP, rfl, hclosed⟩
      · exact .inl hc
  | succ left ih =>
    rw [walk] at hc
    split at hc
    · exact .inl hc
    · -- Each node adds to what the nodes before it have collected.
      revert hc
      refine List.foldlRecOn nodes _ (motive := fun out' => c ∈ out' →
        c ∈ out ∨ (P c ∧ c.length = chain.length + (left + 1) ∧ closes t set c = true)) .inl ?_
      intro out' hout n hn hc
      split at hc
      · next hext =>
        rcases ih (hstep chain n hP hn hext) hc with hc | ⟨hPc, hlen, hclosed⟩
        · exact hout hc
        · refine .inr ⟨hPc, ?_, hclosed⟩
          rw [hlen, List.length_append, List.length_singleton]
          omega
      · exact hout hc

/-- Bundle by bundle, the nodes have the GPUs. -/
def FitsBundles (t : Topology) (set : SetReq) (nodes : List NodeId) : Prop :=
  ∀ i n, nodes[i]? = some n → set.fits t n i = true

theorem FitsBundles.nil : FitsBundles t set [] := fun i n hi => by simp at hi

theorem FitsBundles.snoc {nodes : List NodeId} {n : NodeId} (h : FitsBundles t set nodes)
    (hn : set.fits t n nodes.length = true) : FitsBundles t set (nodes ++ [n]) := by
  intro i m hi
  rcases Nat.lt_trichotomy i nodes.length with hlt | rfl | hgt
  · rw [List.getElem?_append_left hlt] at hi
    exact h i m hi
  · rw [List.getElem?_concat_length] at hi
    cases hi
    exact hn
  · rw [List.getElem?_eq_none (by simp; omega)] at hi
    cases hi

/-- An order of nodes for a ring or line set: distinct nodes with agents, whose GPUs suffice, each
cabled to the next. -/
structure NodeOrder (t : Topology) (set : SetReq) (nodes : List NodeId) : Prop where
  nodup : nodes.Nodup
  agents : ∀ n ∈ nodes, t.freeGpus.has n = true
  fits : FitsBundles t set nodes
  cabled : nodes.IsChain (t.Joined set.link true)

/-- No node comes before the first by id. -/
def LowestFirst (nodes : List NodeId) : Prop := ∀ first ∈ nodes.head?, ∀ n ∈ nodes, first ≤ n

theorem extends_iff {chain : List NodeId} {n : NodeId} : extends_ t set chain n = true ↔
    n ∉ chain ∧ set.fits t n chain.length = true ∧
      (set.layout = .ring → ∀ first ∈ chain.head?, first ≤ n) ∧
      ∀ last ∈ chain.getLast?, t.Joined set.link true last n := by
  simp only [extends_, Bool.and_eq_true, Bool.not_eq_true', List.contains_eq_mem,
    decide_eq_false_iff_not, Bool.and_eq_false_imp, beq_iff_eq, Option.any_eq_false,
    Option.all_eq_true, Topology.path_isSome, Option.mem_def, not_lt, and_assoc]

theorem NodeOrder.snoc {chain : List NodeId} {n : NodeId} (h : NodeOrder t set chain)
    (hn : t.freeGpus.has n = true) (hext : extends_ t set chain n = true) :
    NodeOrder t set (chain ++ [n]) := by
  obtain ⟨hnew, hfits, -, hcable⟩ := extends_iff.mp hext
  refine ⟨?_, fun m hm => ?_, h.fits.snoc hfits, ?_⟩
  · rw [List.nodup_append]
    refine ⟨h.nodup, List.nodup_singleton n, fun a ha b hb => ?_⟩
    cases List.mem_singleton.mp hb
    exact fun he => hnew (he ▸ ha)
  · rcases List.mem_append.mp hm with hm | hm
    · exact h.agents m hm
    · cases List.mem_singleton.mp hm
      exact hn
  · refine h.cabled.append (List.isChain_singleton n) fun a ha b hb => ?_
    cases hb
    exact hcable a ha

theorem LowestFirst.snoc {chain : List NodeId} {n : NodeId} (h : LowestFirst chain)
    (hn : ∀ first ∈ chain.head?, first ≤ n) : LowestFirst (chain ++ [n]) := by
  intro first hfirst m hm
  cases chain with
  | nil =>
    cases hfirst
    cases List.mem_singleton.mp hm
    exact le_rfl
  | cons x chain =>
    rcases List.mem_append.mp hm with hm | hm
    · exact h first hfirst m hm
    · cases List.mem_singleton.mp hm
      exact hn first hfirst

/-- A candidate of a ring or line set is an order of nodes, one for each bundle. -/
theorem candidates_ordered (ho : set.layout.ordered = true) {nodes : List NodeId}
    (hc : nodes ∈ candidates t set taken) :
    NodeOrder t set nodes ∧ (∀ n ∈ nodes, n ∉ taken) ∧ (set.layout = .ring → LowestFirst nodes) ∧
      closes t set nodes = true ∧ nodes.length = set.bundles.length := by
  unfold candidates at hc
  rw [if_pos ho] at hc
  have hsound := walk_sound (P := fun nodes => NodeOrder t set nodes ∧ (∀ n ∈ nodes, n ∉ taken) ∧
      (set.layout = .ring → LowestFirst nodes)) ?_
      ⟨⟨List.nodup_nil, by simp, .nil, .nil⟩, by simp, by simp [LowestFirst]⟩ hc
  · rcases hsound with hc | ⟨hP, hlen, hclosed⟩
    · cases hc
    · exact ⟨hP.1, hP.2.1, hP.2.2, hclosed, by simpa using hlen⟩
  · rintro chain n ⟨horder, hfree, hlow⟩ hn hext
    simp only [Table.sortedKeys, List.mem_filter, List.mem_insertionSort, Table.mem_keys,
      Bool.not_eq_true', List.contains_eq_mem, decide_eq_false_iff_not] at hn
    refine ⟨horder.snoc (Table.has_iff.mpr hn.1) hext, fun m hm => ?_, fun hring => ?_⟩
    · rcases List.mem_append.mp hm with hm | hm
      · exact hfree m hm
      · cases List.mem_singleton.mp hm
        exact hn.2
    · exact (hlow hring).snoc ((extends_iff.mp hext).2.2.1 hring)

/-- The nodes chosen one after another fit, and come from those offered. -/
theorem chooseFirst_sound (t : Topology) (set : SetReq) (taken nodes : List NodeId) :
    FitsBundles t set (chooseFirst t set taken nodes) ∧
      ∀ n ∈ chooseFirst t set taken nodes, n ∈ nodes ∧ n ∉ taken := by
  refine List.foldlRecOn nodes _ (motive := fun chosen => FitsBundles t set chosen ∧
    ∀ n ∈ chosen, n ∈ nodes ∧ n ∉ taken) ⟨.nil, by simp⟩ ?_
  rintro chosen ⟨hfits, hmem⟩ n hn
  split
  · exact ⟨hfits, hmem⟩
  · split
    · next hok =>
      simp only [Bool.and_eq_true, Bool.not_eq_true', List.contains_eq_mem,
        decide_eq_false_iff_not] at hok
      refine ⟨hfits.snoc hok.2, fun m hm => ?_⟩
      rcases List.mem_append.mp hm with hm | hm
      · exact hmem m hm
      · cases List.mem_singleton.mp hm
        exact ⟨hn, hok.1⟩
    · exact ⟨hfits, hmem⟩

/-- A candidate has a node for each bundle, and each fits. Only a mesh that needs a fabric looks at
nodes without an agent, those on the islands. -/
theorem candidates_sound {nodes : List NodeId} (hc : nodes ∈ candidates t set taken) :
    nodes.length = set.bundles.length ∧ FitsBundles t set nodes ∧
      ∀ n ∈ nodes, t.freeGpus.has n = true ∨ (set.layout.ordered = false ∧ set.link = .rdma ∧
        ∃ island ∈ t.islands, n ∈ island.nodes) := by
  cases ho : set.layout.ordered with
  | true =>
    obtain ⟨horder, -, -, -, hlen⟩ := candidates_ordered ho hc
    exact ⟨hlen, horder.fits, fun n hn => .inl (horder.agents n hn)⟩
  | false =>
    unfold candidates at hc
    rw [if_neg (by simp [ho])] at hc
    split at hc
    · next hlink =>
      obtain ⟨island, hisland, hc⟩ := List.mem_filterMap.mp hc
      simp only at hc
      split at hc
      · cases hc
      · split at hc
        · next hlen =>
          cases hc
          obtain ⟨hfits, hmem⟩ := chooseFirst_sound t set taken
            (island.nodes.filter fun n => !taken.contains n)
          exact ⟨hlen, hfits, fun n hn =>
            .inr ⟨rfl, hlink, island, hisland, List.mem_of_mem_filter (hmem n hn).1⟩⟩
        · cases hc
    · simp only at hc
      split at hc
      · next hlen =>
        cases List.mem_singleton.mp hc
        obtain ⟨hfits, hmem⟩ := chooseFirst_sound t set taken
          t.freeGpus.sortedKeys
        refine ⟨hlen, hfits, fun n hn => .inl ?_⟩
        have hkey := (hmem n hn).1
        rw [Table.sortedKeys, List.mem_insertionSort, Table.mem_keys] at hkey
        exact Table.has_iff.mpr hkey
      · cases hc

end Candidates

/-! ## `solve` -/

section Solve

variable {t : Topology} {req : Request}

/-- The search gives each set a candidate of its own, and leaves the other names alone. -/
theorem search_sound {order : List SetReq} {chosen res : Table String (List NodeId)}
    {taken : List NodeId} (hnd : (order.map (·.name)).Nodup)
    (h : search t req order chosen taken = some res) :
    (∀ s ∈ order, ∃ taken' nodes, nodes ∈ candidates t s taken' ∧ res.get s.name = some nodes) ∧
      ∀ k, k ∉ order.map (·.name) → res.get k = chosen.get k := by
  induction order generalizing chosen taken with
  | nil =>
    rw [search] at h
    split at h
    · cases h
      exact ⟨by simp, fun _ _ => rfl⟩
    · cases h
  | cons s order ih =>
    rw [search] at h
    obtain ⟨nodes, hnodes, h⟩ := List.exists_of_findSome?_eq_some h
    obtain ⟨hs, hnd⟩ := List.nodup_cons.mp hnd
    obtain ⟨hall, hrest⟩ := ih hnd h
    refine ⟨fun s' hs' => ?_, fun k hk => ?_⟩
    · rcases List.mem_cons.mp hs' with rfl | hs'
      · exact ⟨taken, nodes, hnodes, by rw [hrest _ hs, Table.get_set_self]⟩
      · exact hall s' hs'
    · simp only [List.map_cons, List.mem_cons, not_or] at hk
      rw [hrest k hk.2, Table.get_set_of_ne hk.1]

/-- Every set has the members of its nodes, and no other name has any. -/
theorem solvedSets_sound {chosen : Table String (List NodeId)} {sets : List SetReq}
    {acc res : Table String (List Member)} (hnd : (sets.map (·.name)).Nodup)
    (h : solvedSets t chosen sets acc = .ok res) :
    (∀ s ∈ sets, ∃ members, membersOf t s ((chosen.get s.name).getD []) = .ok members ∧
      res.get s.name = some members) ∧
      ∀ k, k ∉ sets.map (·.name) → res.get k = acc.get k := by
  induction sets generalizing acc with
  | nil =>
    cases h
    exact ⟨by simp, fun _ _ => rfl⟩
  | cons s sets ih =>
    rw [solvedSets] at h
    cases hm : membersOf t s ((chosen.get s.name).getD []) with
    | error e =>
      rw [hm] at h
      cases h
    | ok members =>
      rw [hm] at h
      obtain ⟨hs, hnd⟩ := List.nodup_cons.mp hnd
      obtain ⟨hall, hrest⟩ := ih hnd h
      refine ⟨fun s' hs' => ?_, fun k hk => ?_⟩
      · rcases List.mem_cons.mp hs' with rfl | hs'
        · exact ⟨members, hm, by rw [hrest _ hs, Table.get_set_self]⟩
        · exact hall s' hs'
      · simp only [List.map_cons, List.mem_cons, not_or] at hk
        rw [hrest k hk.2, Table.get_set_of_ne hk.1]

theorem malformed_eq_none (h : malformed req = none) :
    (∀ s ∈ req.sets, s.bundles ≠ []) ∧ (req.sets.map (·.name)).Nodup := by
  unfold malformed at h
  split at h
  · cases h
  · next hempty =>
    simp only at h
    split at h
    · cases h
    · next hlen =>
      refine ⟨fun s hs => ?_, ?_⟩
      · simpa using List.find?_eq_none.mp hempty s hs
      · rw [← List.dedup_eq_self]
        refine (List.dedup_sublist _).eq_of_length ?_
        rw [List.length_map]
        exact not_not.mp hlen

/-- What a solution is made of: the nodes the search chose, their members, and the links between
sets. -/
theorem solve_eq_ok {sol : Solution} (h : solve t req = .ok sol) :
    malformed req = none ∧ ∃ chosen,
      search t req (req.sets.insertionSort (SetReq.before · ·)) ∅ [] = some chosen ∧
      solvedSets t chosen req.sets ∅ = .ok sol.sets ∧
      pathsBetween t req chosen = some sol.between := by
  unfold solve at h
  split at h
  · cases h
  · next hmal =>
    split at h
    · cases h
    · next chosen hsearch =>
      cases hs : solvedSets t chosen req.sets ∅ with
      | error e =>
        rw [hs] at h
        cases h
      | ok sets =>
        rw [hs] at h
        simp only [bind, Except.bind] at h
        split at h
        · cases h
        · next hbetween =>
          cases h
          exact ⟨hmal, chosen, hsearch, hs, hbetween⟩

/-- A solution: for every set of the request the members of a candidate for it. -/
theorem solve_sound {sol : Solution} (h : solve t req = .ok sol) :
    malformed req = none ∧
    (∀ s ∈ req.sets, ∃ taken nodes members, nodes ∈ candidates t s taken ∧
      membersOf t s nodes = .ok members ∧ sol.sets.get s.name = some members) ∧
    ∀ k members, sol.sets.get k = some members → ∃ s ∈ req.sets, s.name = k := by
  obtain ⟨hmal, chosen, hsearch, hs, -⟩ := solve_eq_ok h
  obtain ⟨-, hnd⟩ := malformed_eq_none hmal
  have hperm := List.perm_insertionSort (SetReq.before · ·) req.sets
  obtain ⟨hall, -⟩ := search_sound ((hperm.map _).nodup_iff.mpr hnd) hsearch
  obtain ⟨hmem, hrest⟩ := solvedSets_sound hnd hs
  refine ⟨hmal, fun s hin => ?_, fun k members hk => ?_⟩
  · obtain ⟨taken, nodes, hnodes, hget⟩ := hall s (hperm.mem_iff.mpr hin)
    obtain ⟨members, hmembers, hsol⟩ := hmem s hin
    rw [hget, Option.getD_some] at hmembers
    exact ⟨taken, nodes, members, hnodes, hmembers, hsol⟩
  · by_contra hno
    have : k ∉ req.sets.map (·.name) := by
      intro hk
      obtain ⟨s, hin, rfl⟩ := List.mem_map.mp hk
      exact hno ⟨s, hin, rfl⟩
    rw [hrest k this] at hk
    cases hk

end Solve

/-! ## Members -/

section Members

variable {t : Topology} {set : SetReq} {nodes : List NodeId} {members : List Member}

theorem memberAt_spec {n : NodeId} {i : Nat} {m : Member} (h : memberAt t set nodes n i = .ok m) :
    m.node = n ∧ cableTo t set nodes i (neighbourIdx set.layout nodes.length i).1 = .ok m.prev ∧
      cableTo t set nodes i (neighbourIdx set.layout nodes.length i).2 = .ok m.next := by
  unfold memberAt neighbours at h
  cases hp : cableTo t set nodes i (neighbourIdx set.layout nodes.length i).1 with
  | error e =>
    simp only [hp, bind, Except.bind] at h
    cases h
  | ok prev =>
    cases hn : cableTo t set nodes i (neighbourIdx set.layout nodes.length i).2 with
    | error e =>
      simp only [hp, hn, bind, Except.bind] at h
      cases h
    | ok next =>
      simp only [hp, hn, bind, Except.bind] at h
      split at h
      · cases h
        exact ⟨rfl, rfl, rfl⟩
      · split at h
        · cases h
          exact ⟨rfl, rfl, rfl⟩
        · cases h

theorem membersOf_length (h : membersOf t set nodes = .ok members) :
    members.length = nodes.length := by
  rw [← (mapM_ok_forall h).length_eq, List.length_zipIdx]

theorem membersOf_get (h : membersOf t set nodes = .ok members) {i : Nat} {m : Member}
    (hm : members[i]? = some m) :
    nodes[i]? = some m.node ∧
      cableTo t set nodes i (neighbourIdx set.layout nodes.length i).1 = .ok m.prev ∧
      cableTo t set nodes i (neighbourIdx set.layout nodes.length i).2 = .ok m.next := by
  have hforall := mapM_ok_forall h
  obtain ⟨hi, rfl⟩ := List.getElem?_eq_some_iff.mp hm
  have hlen := membersOf_length h
  have hat := hforall.get (i := i) (by simp; omega) hi
  simp only [List.get_eq_getElem, List.getElem_zipIdx, Nat.zero_add] at hat
  obtain ⟨hn, hrest⟩ := memberAt_spec hat
  exact ⟨by rw [hn]; exact List.getElem?_eq_getElem (by omega), hrest⟩

theorem membersOf_nodes (h : membersOf t set nodes = .ok members) : members.map (·.node) = nodes := by
  refine List.ext_getElem? fun i => ?_
  rw [List.getElem?_map]
  cases hi : members[i]? with
  | none =>
    rw [List.getElem?_eq_none_iff, membersOf_length h] at hi
    rw [Option.map_none, List.getElem?_eq_none hi]
  | some m => rw [Option.map_some, (membersOf_get h hi).1]

/-- Each of the two members has a cable to the other over a link: `a` as its next, `b` as its
previous one. -/
def CabledOver (t : Topology) (link : Link) (a b : Member) : Prop :=
  (∃ p, a.next = some p ∧ t.Joins a.node b.node link true p) ∧
    ∃ q, b.prev = some q ∧ t.Joins b.node a.node link true q

theorem cableTo_joins {i j : Nat} {a b : NodeId} {o : Option Path} (ha : nodes[i]? = some a)
    (hb : nodes[j]? = some b) (h : cableTo t set nodes i (some j) = .ok o) :
    ∃ p, o = some p ∧ t.Joins a b set.link true p := by
  unfold cableTo at h
  simp only [List.getD_eq_getElem?_getD, ha, hb, Option.getD_some] at h
  split at h
  · next p hp =>
    cases h
    exact ⟨p, rfl, Topology.path_joins hp⟩
  · cases h

theorem pred_mod_succ_mod {i k : Nat} (hi : i < k) : ((i + 1) % k + k - 1) % k = i := by
  rcases Nat.lt_or_ge (i + 1) k with hlt | hge
  · rw [Nat.mod_eq_of_lt hlt, show i + 1 + k - 1 = i + k by omega, Nat.add_mod_right,
      Nat.mod_eq_of_lt hi]
  · have hk : i + 1 = k := by omega
    rw [hk, Nat.mod_self, Nat.zero_add, Nat.mod_eq_of_lt (by omega)]
    omega

/-- Around a ring, each member is cabled to the next. -/
theorem membersOf_ring (h : membersOf t set nodes = .ok members) (hlay : set.layout = .ring)
    (hk : 2 ≤ members.length) : Cyclic (CabledOver t set.link) members := by
  have hlen := membersOf_length h
  intro i a b ha hb
  have hi : i < nodes.length := hlen ▸ (List.getElem?_eq_some_iff.mp ha).1
  obtain ⟨hna, -, hnext⟩ := membersOf_get h ha
  obtain ⟨hnb, hprev, -⟩ := membersOf_get h hb
  rw [hlen] at hnb hprev
  simp only [hlay, neighbourIdx, if_pos (show 1 < nodes.length by omega),
    pred_mod_succ_mod hi] at hnext hprev
  exact ⟨cableTo_joins hna hnb hnext, cableTo_joins hnb hna hprev⟩

/-- Along a line, each member but the last is cabled to the next. -/
theorem membersOf_line (h : membersOf t set nodes = .ok members) (hlay : set.layout = .line) :
    Lined (CabledOver t set.link) (·.prev = none) (·.next = none) members := by
  have hlen := membersOf_length h
  refine ⟨List.isChain_iff_getElem.mpr fun i hi => ?_, fun m hm => ?_, fun m hm => ?_⟩
  · obtain ⟨hna, -, hnext⟩ := membersOf_get h (List.getElem?_eq_getElem (Nat.lt_of_succ_lt hi))
    obtain ⟨hnb, hprev, -⟩ := membersOf_get h (List.getElem?_eq_getElem hi)
    simp only [hlay, neighbourIdx, if_pos (show i + 1 < nodes.length by omega)] at hnext
    simp only [hlay, neighbourIdx, if_pos (Nat.succ_pos i), Nat.add_sub_cancel] at hprev
    exact ⟨cableTo_joins hna hnb hnext, cableTo_joins hnb hna hprev⟩
  · rw [List.head?_eq_getElem?] at hm
    obtain ⟨-, hprev, -⟩ := membersOf_get h hm
    simp only [hlay, neighbourIdx, Nat.lt_irrefl, if_false] at hprev
    exact (Except.ok.inj hprev).symm
  · rw [List.getLast?_eq_getElem?] at hm
    have := (List.getElem?_eq_some_iff.mp hm).1
    obtain ⟨-, -, hnext⟩ := membersOf_get h hm
    simp only [hlay, neighbourIdx, if_neg (show ¬ members.length - 1 + 1 < nodes.length by omega)]
      at hnext
    exact (Except.ok.inj hnext).symm

end Members

/-! ## The view read back -/

section View

variable {hosts : Table NodeId String} {m : Member}

@[simp] theorem toJson_node : (m.toJson hosts).idx "node" = .str m.node := by
  cases hn : m.next <;> simp [Member.toJson, Value.idx, hn, List.lookup]

@[simp] theorem toJson_prev :
    (m.toJson hosts).idx "prev" = (m.prev.map (neighbourJson hosts)).getD .null := by
  cases hn : m.next <;> cases hp : m.prev <;> simp [Member.toJson, Value.idx, hn, hp, List.lookup]

@[simp] theorem toJson_next :
    (m.toJson hosts).idx "next" = (m.next.map (neighbourJson hosts)).getD .null := by
  cases hn : m.next <;> cases hp : m.prev <;> simp [Member.toJson, Value.idx, hn, hp, List.lookup]

theorem lookup_map_keys {V : Type} (f : String → V) (keys : List String) (k : String) :
    (keys.map fun k => (k, f k)).lookup k = if k ∈ keys then some (f k) else none := by
  induction keys with
  | nil => rfl
  | cons j keys ih =>
    rw [List.map_cons, List.lookup_cons, ih]
    by_cases h : k = j
    · subst h
      simp
    · simp [beq_false_of_ne h, h]

variable {sol : Solution} {t : Topology}

/-- A set's members in the view. -/
theorem toJson_set {k : String} {members : List Member} (h : sol.sets.get k = some members) :
    ((sol.toJson t).idx "sets").idx k = .arr (members.map (·.toJson t.hosts)) := by
  have hk : k ∈ sol.sets.sortedKeys := by
    rw [Table.sortedKeys, List.mem_insertionSort, Table.mem_keys]
    exact ⟨members, h⟩
  have hsets : (sol.toJson t).idx "sets" = .obj (sol.sets.sortedKeys.map fun k =>
      (k, .arr (((sol.sets.get k).getD []).map (·.toJson t.hosts)))) := rfl
  rw [hsets, Value.idx, lookup_map_keys, if_pos hk, h]
  rfl

/-- The nodes of a view are those of its members. -/
theorem mem_claimedNodes {n : NodeId} : n ∈ claimedNodes (sol.toJson t) ↔
    ∃ k members m, sol.sets.get k = some members ∧ m ∈ members ∧ m.node = n := by
  have hsets : ((sol.toJson t).idx "sets").asObject = some (sol.sets.sortedKeys.map fun k =>
      (k, .arr (((sol.sets.get k).getD []).map (·.toJson t.hosts)))) := rfl
  rw [claimedNodes, hsets]
  simp only [sortDedup, List.mem_dedup, List.mem_insertionSort, Option.getD_some, List.mem_flatMap,
    List.mem_map, exists_exists_and_eq_and, Value.asArray, List.mem_filterMap, toJson_node,
    Value.asStr, Option.some.injEq, Table.sortedKeys, Table.mem_keys]
  constructor
  · rintro ⟨k, ⟨members, hk⟩, m, hm, hn⟩
    rw [hk] at hm
    exact ⟨k, members, m, hk, hm, hn⟩
  · rintro ⟨k, members, m, hk, hm, hn⟩
    exact ⟨k, ⟨members, hk⟩, m, by rw [hk]; exact hm, hn⟩

end View

end Mentat
