import Mentat.Claim.Sound

/-!
# When mesh sets are found

A request of mesh sets may be refused though there are nodes for it. The solver offers one choice an
island, and one for a plain set: the first nodes that fit, bundle by bundle. It goes back to another
island when a later set or a link between sets fails, but it never goes back to other nodes of the
same island, and it does not go back at all when the nodes it settled on have no address to bind.

* `solve_mesh_iff`: a request of mesh sets is answered exactly when first fits lead to an answer.
* `firstFits_suffice`: where a node fits all bundles or none of them and binds wherever it is put,
  and no links between sets are asked for, they do whenever there are nodes at all.
-/

namespace Mentat

/-- Nodes for every set of a request, as a set's name gives them: distinct, with the GPUs for every
bundle, inside one island and with an address to bind for an `rdma` set, and with a link for every
requirement between two sets. -/
structure Assignment (t : Topology) (req : Request) (nodes : String → List NodeId) : Prop where
  nonempty : ∀ s ∈ req.sets, s.bundles ≠ []
  length : ∀ s ∈ req.sets, (nodes s.name).length = s.bundles.length
  covers : ∀ s ∈ req.sets, ∀ (i : Nat) (n : NodeId) (want : Nat), (nodes s.name)[i]? = some n →
    s.bundles[i]? = some want → ∃ free, t.freeGpus.get n = some free ∧ want ≤ free
  apart : (req.sets.flatMap fun s => nodes s.name).Nodup
  island : ∀ s ∈ req.sets, s.link = .rdma →
    (∃ island ∈ t.islands, ∀ n ∈ nodes s.name, n ∈ island.nodes) ∧
      ∀ n ∈ nodes s.name, (bindFor t s n (nodes s.name)).isSome = true
  between : ∀ b ∈ req.between, (∃ s ∈ req.sets, s.name = b.src) ∧ (∃ s ∈ req.sets, s.name = b.dst) ∧
    ∃ src ∈ nodes b.src, ∃ dst ∈ nodes b.dst, t.Joined b.link false src dst

/-! ## First fits -/

/-- The choices first fits lead to, set by set and each apart from the nodes taken before it. -/
def firstFits (t : Topology) : List SetReq → Table String (List NodeId) → List NodeId →
    List (Table String (List NodeId))
  | [], chosen, _ => [chosen]
  | set :: order, chosen, taken => (candidates t set taken).flatMap fun cand =>
    firstFits t order (chosen.set set.name cand) (cand ++ taken)

/-- The first of these choices to meet the requirements between sets has an address for every
member. -/
def FirstFitBinds (t : Topology) (req : Request) : Prop :=
  ∃ chosen, (firstFits t (req.sets.insertionSort (SetReq.before · ·)) ∅ []).find?
      (fun chosen => (pathsBetween t req chosen).isSome) = some chosen ∧
    ∀ s ∈ req.sets, ∀ n ∈ (chosen.get s.name).getD [],
      (bindFor t s n ((chosen.get s.name).getD [])).isSome = true

section FirstFits

variable {t : Topology} {req : Request}

/-- The search goes through the choices in their order. -/
theorem search_eq_find (order : List SetReq) (chosen : Table String (List NodeId))
    (taken : List NodeId) : search t req order chosen taken =
      (firstFits t order chosen taken).find? fun chosen => (pathsBetween t req chosen).isSome := by
  induction order generalizing chosen taken with
  | nil =>
    rw [search, firstFits, List.find?_singleton]
  | cons set order ih =>
    rw [search, firstFits, List.find?_flatMap]
    simp only [ih]

/-- The members of a mesh are the nodes that have an address to bind. -/
theorem membersOf_mesh {set : SetReq} (hm : set.layout = .mesh) (nodes : List NodeId) :
    (∃ members, membersOf t set nodes = .ok members) ↔
      ∀ n ∈ nodes, (bindFor t set n nodes).isSome = true := by
  have hat : ∀ n i, (∃ m, memberAt t set nodes n i = .ok m) ↔
      (bindFor t set n nodes).isSome = true := by
    intro n i
    simp only [memberAt, neighbours, hm, neighbourIdx, cableTo, bind, Except.bind, Option.or_none]
    cases bindFor t set n nodes <;> simp
  constructor
  · rintro ⟨members, h⟩ n hn
    obtain ⟨i, hi, rfl⟩ := List.getElem_of_mem hn
    have hforall := mapM_ok_forall h
    have hlen := hforall.length_eq
    rw [List.length_zipIdx] at hlen
    have hmem := hforall.get (i := i) (by simpa using hi) (by omega)
    simp only [List.get_eq_getElem, List.getElem_zipIdx, Nat.zero_add] at hmem
    exact (hat _ i).mp ⟨_, hmem⟩
  · intro h
    refine mapM_ok_of_forall fun x hx => ?_
    obtain ⟨n, i⟩ := x
    exact (hat n i).mpr (h n (List.fst_mem_of_mem_zipIdx hx))

theorem solvedSets_mesh {chosen : Table String (List NodeId)} {sets : List SetReq}
    (hm : ∀ s ∈ sets, s.layout = .mesh) (acc : Table String (List Member)) :
    (∃ res, solvedSets t chosen sets acc = .ok res) ↔
      ∀ s ∈ sets, ∀ n ∈ (chosen.get s.name).getD [],
        (bindFor t s n ((chosen.get s.name).getD [])).isSome = true := by
  induction sets generalizing acc with
  | nil => simp [solvedSets]
  | cons s sets ih =>
    rw [List.forall_mem_cons, ← membersOf_mesh (hm s List.mem_cons_self), solvedSets]
    have hrest := ih fun s' hs' => hm s' (List.mem_cons_of_mem s hs')
    cases hmem : membersOf t s ((chosen.get s.name).getD []) with
    | error e => simp [bind, Except.bind]
    | ok members =>
      simp only [bind, Except.bind, hrest, Except.ok.injEq, exists_eq', true_and]

/-- A well-formed request of mesh sets is answered exactly when first fits lead to an answer that
binds. -/
theorem solve_mesh_iff (hm : ∀ s ∈ req.sets, s.layout = .mesh) (hmal : malformed req = none) :
    (∃ sol, solve t req = .ok sol) ↔ FirstFitBinds t req := by
  unfold solve FirstFitBinds
  rw [hmal, search_eq_find]
  cases hfind : (firstFits t (req.sets.insertionSort (SetReq.before · ·)) ∅ []).find?
      (fun chosen => (pathsBetween t req chosen).isSome) with
  | none => simp
  | some chosen =>
    have hbetween : (pathsBetween t req chosen).isSome = true :=
      List.find?_some (p := fun chosen => (pathsBetween t req chosen).isSome) hfind
    obtain ⟨paths, hpaths⟩ := Option.isSome_iff_exists.mp hbetween
    simp only [Option.some.injEq, exists_eq_left']
    rw [← solvedSets_mesh hm ∅]
    cases hs : solvedSets t chosen req.sets ∅ with
    | error e => simp [bind, Except.bind]
    | ok sets => simp [bind, Except.bind, hpaths]

/-- Only a well-formed request can be met. -/
theorem Assignment.wellFormed {nodes : String → List NodeId} (h : Assignment t req nodes) :
    malformed req = none := by
  have hne : ∀ s ∈ req.sets, nodes s.name ≠ [] := by
    intro s hs hnil
    have := h.length s hs
    rw [hnil, List.length_nil, eq_comm, List.length_eq_zero_iff] at this
    exact h.nonempty s hs this
  have hnd : (req.sets.map (·.name)).Nodup := by
    refine (List.nodup_iff_pairwise_ne.mpr ?_)
    rw [List.pairwise_map]
    have hpair := (List.nodup_flatMap.mp h.apart).2
    refine hpair.imp_of_mem fun {s s'} hs hs' hdisj heq => ?_
    obtain ⟨n, hn⟩ := List.exists_mem_of_ne_nil _ (hne s hs)
    have hn' : n ∈ nodes s'.name := heq ▸ hn
    exact hdisj hn hn'
  unfold malformed
  have hempty : req.sets.find? (fun s => s.bundles.isEmpty) = none := by
    rw [List.find?_eq_none]
    intro s hs
    simpa using h.nonempty s hs
  have hnames : (req.between.flatMap fun b => [b.src, b.dst]).find?
      (fun n => !(req.sets.map (·.name)).contains n) = none := by
    rw [List.find?_eq_none]
    intro n hn
    obtain ⟨b, hb, hn⟩ := List.mem_flatMap.mp hn
    obtain ⟨⟨s, hs, hsrc⟩, ⟨s', hs', hdst⟩, -⟩ := h.between b hb
    simp only [List.mem_cons, List.not_mem_nil, or_false] at hn
    simp only [Bool.not_eq_true', List.contains_eq_mem, decide_eq_false_iff_not, not_not,
      List.mem_map]
    rcases hn with rfl | rfl
    · exact ⟨s, hs, hsrc⟩
    · exact ⟨s', hs', hdst⟩
  simp only [hempty, hnames, hnd.dedup, List.length_map, ne_eq, not_true_eq_false, if_false]

end FirstFits

/-! ## Nodes that are as good as each other -/

/-- Any node is as good as another: it fits every bundle of the request or none, it is on one island
at most, and it has an address to bind in any set of nodes that a set may be given. No links between
sets are asked for. -/
structure Interchangeable (t : Topology) (req : Request) : Prop where
  sizes : ∀ n, (∀ s ∈ req.sets, ∀ w ∈ s.bundles, w ≤ t.free n) ∨
    ∀ s ∈ req.sets, ∀ w ∈ s.bundles, t.free n < w
  islands : (t.islands.flatMap (·.nodes)).Nodup
  binds : ∀ s ∈ req.sets, ∀ nodes : List NodeId,
    (s.link = .rdma → ∃ island ∈ t.islands, ∀ n ∈ nodes, n ∈ island.nodes) →
    (s.link = .any → ∀ n ∈ nodes, t.freeGpus.has n = true) →
    ∀ n ∈ nodes, (bindFor t s n nodes).isSome = true
  between : req.between = []

/-- The nodes of a list that are good and not taken. -/
def room (good : NodeId → Bool) (taken nodes : List NodeId) : List NodeId :=
  nodes.filter fun n => !taken.contains n && good n

section Room

variable {t : Topology} {set : SetReq} {good : NodeId → Bool} {taken nodes : List NodeId}

theorem mem_room {n : NodeId} : n ∈ room good taken nodes ↔ n ∈ nodes ∧ n ∉ taken ∧ good n = true := by
  simp [room]

theorem room_cons {n : NodeId} : room good taken (n :: nodes) =
    if (!taken.contains n && good n) = true then n :: room good taken nodes
    else room good taken nodes :=
  List.filter_cons

/-- Where a node fits every bundle or none, the first that fit are the first good ones. -/
theorem chooseFirst_eq_take (hgood : ∀ n i, i < set.bundles.length → set.fits t n i = good n) :
    chooseFirst t set taken nodes = (room good taken nodes).take set.bundles.length := by
  have hfold : ∀ chosen : List NodeId, chosen.length ≤ set.bundles.length →
      nodes.foldl (fun chosen n =>
        if chosen.length = set.bundles.length then chosen
        else if !taken.contains n && set.fits t n chosen.length then chosen ++ [n]
        else chosen) chosen =
      chosen ++ (room good taken nodes).take (set.bundles.length - chosen.length) := by
    induction nodes with
    | nil => simp [room]
    | cons n nodes ih =>
      intro chosen hle
      rw [List.foldl_cons]
      split
      · next hfull =>
        rw [ih chosen hle, hfull, Nat.sub_self, List.take_zero, List.take_zero]
      · next hroom =>
        have hlt : chosen.length < set.bundles.length := by omega
        rw [hgood n _ hlt]
        split
        · next hok =>
          rw [ih (chosen ++ [n]) (by simp; omega), room_cons, if_pos hok,
            show set.bundles.length - chosen.length =
              (set.bundles.length - (chosen ++ [n]).length) + 1 by simp; omega,
            List.take_succ_cons, List.append_assoc]
          rfl
        · next hno => rw [ih chosen hle, room_cons, if_neg hno]
  simpa [chooseFirst] using hfold [] (Nat.zero_le _)

/-- Nodes taken leave all but so many of a list. -/
theorem room_take (cand : List NodeId) (hnd : nodes.Nodup) :
    (room good taken nodes).length ≤ (room good (cand ++ taken) nodes).length + cand.length := by
  rw [← List.length_append]
  refine ((hnd.filter _).subperm fun n hn => ?_).length_le
  obtain ⟨hmem, hfree, hg⟩ := mem_room.mp hn
  by_cases hc : n ∈ cand
  · exact List.mem_append_right _ hc
  · exact List.mem_append_left _ (mem_room.mpr ⟨hmem, by simp [hc, hfree], hg⟩)

/-- Nodes taken elsewhere leave a list alone. -/
theorem room_take_disjoint {cand : List NodeId} (hdisj : ∀ n ∈ cand, n ∉ nodes) :
    room good (cand ++ taken) nodes = room good taken nodes := by
  refine List.filter_congr fun n hn => ?_
  have : n ∉ cand := fun hc => hdisj n hc hn
  simp [this]

theorem candidates_rdma (hm : set.layout = .mesh) (hl : set.link = .rdma)
    (hgood : ∀ n i, i < set.bundles.length → set.fits t n i = good n) {island : Island}
    (hi : island ∈ t.islands) (hroom : set.bundles.length ≤ (room good taken island.nodes).length) :
    (room good taken island.nodes).take set.bundles.length ∈ candidates t set taken := by
  have havail : room good taken (island.nodes.filter fun n => !taken.contains n) =
      room good taken island.nodes := by
    rw [room, room, List.filter_filter]
    refine List.filter_congr fun n _ => ?_
    rw [Bool.and_right_comm, Bool.and_self]
  unfold candidates
  rw [if_neg (by simp [hm, Layout.ordered]), hl]
  refine List.mem_filterMap.mpr ⟨island, hi, ?_⟩
  simp only
  rw [chooseFirst_eq_take hgood, havail, if_neg, if_pos]
  · rw [List.length_take]
    omega
  · have hle : (room good taken island.nodes).length ≤
        (island.nodes.filter fun n => !taken.contains n).length := by
      rw [← havail]
      exact List.length_filter_le _ _
    omega

theorem candidates_any (hm : set.layout = .mesh) (hl : set.link = .any)
    (hgood : ∀ n i, i < set.bundles.length → set.fits t n i = good n)
    (hroom : set.bundles.length ≤ (room good taken t.freeGpus.sortedKeys).length) :
    (room good taken t.freeGpus.sortedKeys).take set.bundles.length ∈ candidates t set taken := by
  unfold candidates
  rw [if_neg (by simp [hm, Layout.ordered]), hl]
  simp only
  rw [chooseFirst_eq_take hgood, if_pos]
  · exact List.mem_singleton_self _
  · rw [List.length_take]
    omega

end Room

/-- How many nodes the sets ask for. -/
def demand (sets : List SetReq) : Nat := (sets.map (·.bundles.length)).sum

/-- The `rdma` sets that are to go on an island. -/
def setsOn (on : String → Nat) (sets : List SetReq) (k : Nat) : List SetReq :=
  sets.filter fun s => s.link == .rdma && on s.name == k

section Branch

variable {t : Topology} {good : NodeId → Bool} {on : String → Nat}

theorem islands_disjoint (hnd : (t.islands.flatMap (·.nodes)).Nodup) {j k : Nat} (hne : j ≠ k)
    {a b : Island} (ha : t.islands[j]? = some a) (hb : t.islands[k]? = some b) {n : NodeId}
    (hn : n ∈ a.nodes) : n ∉ b.nodes := by
  have hpair := (List.nodup_flatMap.mp hnd).2
  obtain ⟨hj, rfl⟩ := List.getElem?_eq_some_iff.mp ha
  obtain ⟨hk, rfl⟩ := List.getElem?_eq_some_iff.mp hb
  rcases Nat.lt_or_gt_of_ne hne with hlt | hgt
  · exact fun hn' => List.pairwise_iff_getElem.mp hpair j k hj hk hlt hn hn'
  · exact fun hn' => List.pairwise_iff_getElem.mp hpair k j hk hj hgt hn' hn

/-- The room the sets to come need: on every island for those to go there. -/
def IslandRoom (t : Topology) (good : NodeId → Bool) (on : String → Nat) (order : List SetReq)
    (taken : List NodeId) : Prop :=
  ∀ (k : Nat) (island : Island), t.islands[k]? = some island →
    demand (setsOn on order k) ≤ (room good taken island.nodes).length

variable {s : SetReq} {order : List SetReq} {taken : List NodeId}

/-- An `rdma` set takes its nodes from its own island and leaves the others their room. -/
theorem IslandRoom.rdma (h : IslandRoom t good on (s :: order) taken)
    (hnd : (t.islands.flatMap (·.nodes)).Nodup) (hm : s.layout = .mesh) (hl : s.link = .rdma)
    (hgood : ∀ n i, i < s.bundles.length → s.fits t n i = good n) {home : Island}
    (hhome : t.islands[on s.name]? = some home) :
    ∃ cand ∈ candidates t s taken, cand.length = s.bundles.length ∧
      IslandRoom t good on order (cand ++ taken) := by
  have hmem := List.mem_of_getElem? hhome
  have hroom := h _ home hhome
  have hhere : demand (setsOn on (s :: order) (on s.name)) =
      s.bundles.length + demand (setsOn on order (on s.name)) := by
    rw [setsOn, List.filter_cons_of_pos (by simp [hl])]
    exact List.sum_cons
  have hlen : ((room good taken home.nodes).take s.bundles.length).length = s.bundles.length := by
    rw [List.length_take]
    omega
  refine ⟨_, candidates_rdma hm hl hgood hmem (by omega), hlen, fun k island hk => ?_⟩
  by_cases hkon : on s.name = k
  · subst hkon
    cases hhome.symm.trans hk
    have hleft : (room good taken home.nodes).length ≤ _ :=
      room_take ((room good taken home.nodes).take s.bundles.length)
        ((List.nodup_flatMap.mp hnd).1 home hmem)
    rw [hlen] at hleft
    omega
  · have hsame : setsOn on (s :: order) k = setsOn on order k :=
      List.filter_cons_of_neg (by simp [hkon])
    rw [room_take_disjoint, ← hsame]
    · exact h k island hk
    · intro n hn
      exact islands_disjoint hnd hkon hhome hk (mem_room.mp (List.mem_of_mem_take hn)).1

/-- After a plain set no set needs an island. -/
theorem islandRoom_plain (hl : s.link = .any)
    (hfirst : ∀ s' ∈ order, s'.link = .rdma → s.link = .rdma) : IslandRoom t good on order taken := by
  intro k island _
  have hnone : setsOn on order k = [] := by
    rw [setsOn, List.filter_eq_nil_iff]
    intro s' hs' hr
    simp only [Bool.and_eq_true, beq_iff_eq] at hr
    have := hfirst s' hs' hr.1
    rw [hl] at this
    cases this
  rw [hnone]
  exact Nat.zero_le _

/-- With room on every island for the sets to go there, and room for all of them together, first
fits place them: some branch goes through. `rdma` sets come first. -/
theorem firstFits_ne_nil (hnd : (t.islands.flatMap (·.nodes)).Nodup)
    (hmesh : ∀ s ∈ order, s.layout = .mesh)
    (hgood : ∀ s ∈ order, ∀ n i, i < s.bundles.length → s.fits t n i = good n)
    (hfirst : order.Pairwise fun a b => b.link = .rdma → a.link = .rdma)
    (hon : ∀ s ∈ order, s.link = .rdma → ∃ island, t.islands[on s.name]? = some island)
    (chosen : Table String (List NodeId)) (hisland : IslandRoom t good on order taken)
    (hall : demand order ≤ (room good taken t.freeGpus.sortedKeys).length) :
    firstFits t order chosen taken ≠ [] := by
  induction order generalizing chosen taken with
  | nil => simp [firstFits]
  | cons s order ih =>
    rw [List.forall_mem_cons] at hmesh hgood hon
    obtain ⟨hbefore, hfirst⟩ := List.pairwise_cons.mp hfirst
    have hdemand : demand (s :: order) = s.bundles.length + demand order := List.sum_cons
    obtain ⟨cand, hcand, hlen, hisland'⟩ : ∃ cand ∈ candidates t s taken,
        cand.length = s.bundles.length ∧ IslandRoom t good on order (cand ++ taken) := by
      cases hl : s.link with
      | rdma =>
        obtain ⟨home, hhome⟩ := hon.1 hl
        exact hisland.rdma hnd hmesh.1 hl hgood.1 hhome
      | any =>
        refine ⟨_, candidates_any hmesh.1 hl hgood.1 (by omega), ?_, islandRoom_plain hl hbefore⟩
        rw [List.length_take]
        omega
    have hleft : (room good taken t.freeGpus.sortedKeys).length ≤
        (room good (cand ++ taken) t.freeGpus.sortedKeys).length + cand.length :=
      room_take cand t.freeGpus.sortedKeys_nodup
    have hrest := ih hmesh.2 hgood.2 hfirst hon.2 (chosen.set s.name cand) hisland' (by omega)
    rw [firstFits]
    intro hnil
    rw [List.flatMap_eq_nil_iff] at hnil
    exact hrest (hnil cand hcand)

end Branch

section Suffice

variable {t : Topology} {req : Request} {nodes : String → List NodeId}

/-- The node has the GPUs for any bundle of the request. -/
def coversAll (t : Topology) (req : Request) (n : NodeId) : Bool :=
  req.sets.all fun s => s.bundles.all fun w => w ≤ t.free n

theorem Interchangeable.fits (h : Interchangeable t req) {s : SetReq} (hs : s ∈ req.sets) (n : NodeId)
    {i : Nat} (hi : i < s.bundles.length) : s.fits t n i = coversAll t req n := by
  have hmem := List.getElem_mem hi
  rw [SetReq.fits, List.getD_eq_getElem _ _ hi, Bool.eq_iff_iff, decide_eq_true_eq]
  simp only [coversAll, List.all_eq_true, decide_eq_true_eq]
  rcases h.sizes n with hall | hnone
  · exact ⟨fun _ => hall, fun h => h s hs _ hmem⟩
  · exact ⟨fun hle => absurd hle (Nat.not_le.mpr (hnone s hs _ hmem)), fun h => h s hs _ hmem⟩

/-- A node that was assigned covers any bundle. -/
theorem Assignment.coversAll (h : Assignment t req nodes) (hi : Interchangeable t req) {s : SetReq}
    (hs : s ∈ req.sets) {n : NodeId} (hn : n ∈ nodes s.name) :
    t.freeGpus.has n = true ∧ coversAll t req n = true := by
  obtain ⟨i, hlt, rfl⟩ := List.getElem_of_mem hn
  have hwant : i < s.bundles.length := h.length s hs ▸ hlt
  obtain ⟨free, hfree, hle⟩ := h.covers s hs i _ _ (List.getElem?_eq_getElem hlt)
    (List.getElem?_eq_getElem hwant)
  refine ⟨Table.has_iff.mpr ⟨free, hfree⟩, ?_⟩
  rw [← hi.fits hs _ hwant, SetReq.fits, List.getD_eq_getElem _ _ hwant, Topology.free, hfree]
  exact decide_eq_true hle

/-- Sets that were assigned nodes of a list have room there. -/
theorem Assignment.demand_le (h : Assignment t req nodes) (hi : Interchangeable t req)
    {sets : List SetReq} (hsub : ∀ s ∈ sets, s ∈ req.sets)
    (hnd : (sets.flatMap fun s => nodes s.name).Nodup) {within : List NodeId}
    (hin : ∀ s ∈ sets, ∀ n ∈ nodes s.name, n ∈ within) :
    demand sets ≤ (room (Mentat.coversAll t req) [] within).length := by
  have hlen : demand sets = (sets.flatMap fun s => nodes s.name).length := by
    rw [demand, List.length_flatMap]
    exact congrArg List.sum (List.map_congr_left fun s hs => (h.length s (hsub s hs)).symm)
  rw [hlen]
  refine (hnd.subperm fun n hn => ?_).length_le
  obtain ⟨s, hs, hn⟩ := List.mem_flatMap.mp hn
  exact mem_room.mpr ⟨hin s hs n hn, by simp, (h.coversAll hi (hsub s hs) hn).2⟩

/-- `rdma` sets are placed before the others. -/
theorem order_rdma_first (sets : List SetReq) : (sets.insertionSort (SetReq.before · ·)).Pairwise
    fun a b => b.link = .rdma → a.link = .rdma := by
  have htotal : Std.Total fun a b : SetReq => SetReq.before a b = true := by
    refine ⟨fun a b => ?_⟩
    cases ha : a.link <;> cases hb : b.link <;> simp [SetReq.before, ha, hb, le_total]
  have htrans : IsTrans SetReq fun a b => SetReq.before a b = true := by
    refine ⟨fun a b c hab hbc => ?_⟩
    revert hab hbc
    cases ha : a.link <;> cases hb : b.link <;> cases hc : c.link <;>
      simp [SetReq.before, ha, hb, hc] <;> exact le_trans
  refine (List.pairwise_insertionSort _ sets).imp fun {a b} hab hb => ?_
  cases ha : a.link with
  | rdma => rfl
  | any => simp [SetReq.before, ha, hb] at hab

/-- The island each `rdma` set was assigned. -/
theorem Assignment.homes (h : Assignment t req nodes) : ∃ on : String → Nat, ∀ s ∈ req.sets,
    s.link = .rdma → ∃ island, t.islands[on s.name]? = some island ∧
      ∀ n ∈ nodes s.name, n ∈ island.nodes := by
  have hhome : ∀ name, ∃ k : Nat, ∀ s ∈ req.sets, s.name = name → s.link = .rdma →
      ∃ island, t.islands[k]? = some island ∧ ∀ n ∈ nodes s.name, n ∈ island.nodes := by
    intro name
    by_cases hs : ∃ s ∈ req.sets, s.name = name ∧ s.link = .rdma
    · obtain ⟨s, hs, rfl, hl⟩ := hs
      obtain ⟨⟨island, hisland, hall⟩, -⟩ := h.island s hs hl
      obtain ⟨k, hk⟩ := List.getElem?_of_mem hisland
      exact ⟨k, fun s' _ hname _ => ⟨island, hk, by rw [hname]; exact hall⟩⟩
    · exact ⟨0, fun s hs' hname hl => absurd ⟨s, hs', hname, hl⟩ hs⟩
  choose on hon using hhome
  exact ⟨on, fun s hs => hon s.name s hs rfl⟩

/-- There is a branch of first fits when there is an assignment. -/
theorem Assignment.firstFits (h : Assignment t req nodes) (hi : Interchangeable t req)
    (hm : ∀ s ∈ req.sets, s.layout = .mesh) :
    firstFits t (req.sets.insertionSort (SetReq.before · ·)) ∅ [] ≠ [] := by
  have hperm := List.perm_insertionSort (SetReq.before · ·) req.sets
  have hin : ∀ s ∈ req.sets.insertionSort (SetReq.before · ·), s ∈ req.sets :=
    fun s hs => hperm.mem_iff.mp hs
  have hnd : ((req.sets.insertionSort (SetReq.before · ·)).flatMap fun s => nodes s.name).Nodup :=
    (List.Perm.flatMap_right _ hperm).nodup_iff.mpr h.apart
  obtain ⟨on, hon⟩ := h.homes
  refine firstFits_ne_nil hi.islands (fun s hs => hm s (hin s hs))
    (fun s hs n i hlt => hi.fits (hin s hs) n hlt) (order_rdma_first _)
    (fun s hs hl => (hon s (hin s hs) hl).imp fun island hisland => hisland.1) ∅
    (fun k island hk => ?_) ?_
  · refine h.demand_le hi (fun s hs => hin s (List.mem_of_mem_filter hs)) ?_ fun s hs n hn => ?_
    · obtain ⟨heach, hpair⟩ := List.nodup_flatMap.mp hnd
      exact List.nodup_flatMap.mpr
        ⟨fun s hs => heach s (List.mem_of_mem_filter hs), hpair.sublist List.filter_sublist⟩
    · obtain ⟨hs, hrdma⟩ := List.mem_filter.mp hs
      simp only [Bool.and_eq_true, beq_iff_eq] at hrdma
      obtain ⟨island', hk', hall⟩ := hon s (hin s hs) hrdma.1
      rw [hrdma.2, hk] at hk'
      cases hk'
      exact hall n hn
  · refine h.demand_le hi hin hnd fun s hs n hn => ?_
    rw [Table.sortedKeys, List.mem_insertionSort, Table.mem_keys]
    exact Table.has_iff.mp (h.coversAll hi (hin s hs) hn).1

/-- A candidate of a mesh set has an address for each of its nodes. -/
theorem Interchangeable.candidate_binds (hi : Interchangeable t req) {s : SetReq} (hs : s ∈ req.sets)
    (hm : s.layout = .mesh) {taken cand : List NodeId} (hc : cand ∈ candidates t s taken) :
    ∀ n ∈ cand, (bindFor t s n cand).isSome = true := by
  refine hi.binds s hs cand (fun hl => ?_) fun hl n hn => ?_
  · obtain ⟨from_, rfl, hisland, -⟩ := candidates_mesh hm hc
    obtain ⟨island, hmem, rfl⟩ := hisland hl
    exact ⟨island, hmem, fun n hn =>
      List.mem_of_mem_filter ((chooseFirst_sound t s taken _).2 n hn).1⟩
  · rcases (candidates_sound hc).2.2 n hn with hhas | ⟨-, hrdma, -⟩
    · exact hhas
    · rw [hl] at hrdma
      cases hrdma

/-- Where nodes are as good as each other, first fits lead to an answer if there is one. -/
theorem firstFits_suffice (hm : ∀ s ∈ req.sets, s.layout = .mesh) (hi : Interchangeable t req)
    (h : Assignment t req nodes) : FirstFitBinds t req := by
  -- Without links between sets the first branch is the answer.
  have hpaths : ∀ chosen, (pathsBetween t req chosen).isSome = true := by
    intro chosen
    rw [pathsBetween, hi.between]
    rfl
  obtain ⟨chosen, hchosen⟩ := Option.isSome_iff_exists.mp (List.find?_isSome.mpr
    ((List.exists_mem_of_ne_nil _ (h.firstFits hi hm)).imp fun chosen hc => ⟨hc, hpaths chosen⟩))
  refine ⟨chosen, hchosen, fun s hs => ?_⟩
  rw [← search_eq_find] at hchosen
  have hperm := List.perm_insertionSort (SetReq.before · ·) req.sets
  have hnames := (hperm.map (·.name)).nodup_iff.mpr (malformed_eq_none h.wellFormed).2
  obtain ⟨taken, cand, hcand, hget⟩ := (search_sound hnames hchosen).1 s (hperm.mem_iff.mpr hs)
  rw [hget, Option.getD_some]
  exact hi.candidate_binds hs (hm s hs) hcand

end Suffice

end Mentat
