import Mentat.Claim.Sound

/-!
# The cable between neighbours

In a ring or a line each member is told the cable to the next one, and that one the cable back. Each
end is a search of its own (`Topology::path`), ranked by the round trip as that end looks it up, then
by its own address, then by the other's.

The two ends name one cable exactly when some cable comes first from both (`cables_agree_iff`). A
single cable always does. Two that cross need not (`crossed_cables`).
-/

namespace Mentat

/-! ## The first cable from one end -/

/-- A path's rank among those from one node to another. -/
def Path.key (p : Path) : Lex (Nat × Lex (String × String)) :=
  toLex (p.rttMs, toLex (p.near.addr, p.far.addr))

theorem Path.shorter_iff (p q : Path) : p.shorter q = true ↔ p.key < q.key := by
  simp [shorter, key, Prod.Lex.toLex_lt_toLex]

/-- A fold that keeps the lesser of what it holds and what it reads ends on the least of them. -/
theorem foldl_least {α β : Type} [Preorder β] {key : α → β} {step : Option α → α → Option α}
    (hnone : ∀ x, step none x = some x)
    (hsome : ∀ b x, step (some b) x = some x ∧ key x ≤ key b ∨
      step (some b) x = some b ∧ key b ≤ key x) {l : List α} {best : Option α} {x : α}
    (h : l.foldl step best = some x) :
    (∀ b, best = some b → key x ≤ key b) ∧ ∀ y ∈ l, key x ≤ key y := by
  induction l generalizing best with
  | nil =>
    subst h
    refine ⟨fun b hb => ?_, fun y hy => by cases hy⟩
    cases hb
    exact le_rfl
  | cons z l ih =>
    obtain ⟨hbest, hall⟩ := ih h
    cases best with
    | none => exact ⟨fun b hb => (by cases hb), List.forall_mem_cons.mpr ⟨hbest z (hnone z), hall⟩⟩
    | some b =>
      have hle : key x ≤ key b ∧ key x ≤ key z := by
        obtain ⟨hz, hzb⟩ | ⟨hb, hbz⟩ := hsome b z
        · exact ⟨(hbest z hz).trans hzb, hbest z hz⟩
        · exact ⟨hbest b hb, (hbest b hb).trans hbz⟩
      refine ⟨fun b' hb' => ?_, List.forall_mem_cons.mpr ⟨hle.2, hall⟩⟩
      cases hb'
      exact hle.1

/-- The best of a list comes before all of it. -/
theorem pickBest_le {α β : Type} [LinearOrder β] {lt : α → α → Bool} {key : α → β}
    (hlt : ∀ x y, lt x y = true ↔ key x < key y) {l : List α} {x : α} (h : pickBest lt l = some x) :
    ∀ y ∈ l, key x ≤ key y := by
  refine (foldl_least (fun _ => rfl) (fun b z => ?_) h).2
  by_cases hz : lt z b = true
  · exact Or.inl ⟨by simp [hz], ((hlt z b).mp hz).le⟩
  · exact Or.inr ⟨by simp [hz], not_lt.mp fun h => hz ((hlt z b).mpr h)⟩

namespace Topology

variable {t : Topology} {a b : NodeId} {link : Link}

/-- Two ports that a cable joins: a probe answered, both ends meet the link, and no third box
forwards between them. -/
def Cable (t : Topology) (link : Link) (a b : NodeId) (x y : Port) : Prop :=
  ∃ rtt, t.Joins a b link true ⟨a, b, x, y, rtt⟩

/-- The rank of two ports as the first of them sees it. -/
def cost (t : Topology) (x y : Port) : Lex (Nat × Lex (String × String)) :=
  toLex ((t.rtt x.addr y.addr).getD 0, toLex (x.addr, y.addr))

/-- Seen from `a`, no cable between the nodes comes before this one. -/
def First (t : Topology) (link : Link) (a b : NodeId) (x y : Port) : Prop :=
  t.Cable link a b x y ∧ ∀ x' y', t.Cable link a b x' y' → t.cost x y ≤ t.cost x' y'

theorem Joins.cable {p : Path} (h : t.Joins a b link true p) : t.Cable link a b p.near p.far :=
  ⟨p.rttMs, rfl, rfl, h.near, h.far, h.probed, h.tagged, h.direct⟩

theorem Joins.cost {p : Path} (h : t.Joins a b link true p) : t.cost p.near p.far = p.key := by
  rw [Topology.cost, h.probed]
  rfl

theorem Cable.symm {x y : Port} (h : t.Cable link a b x y) : t.Cable link b a y x := by
  obtain ⟨rtt, h⟩ := h
  obtain ⟨rtt', hr⟩ := Option.isSome_iff_exists.mp
    (rtt_isSome_symm (Option.isSome_iff_exists.mpr ⟨rtt, h.probed⟩))
  refine ⟨rtt', rfl, rfl, h.far, h.near, hr, fun hl => (h.tagged hl).symm, fun hc => ?_⟩
  rw [isForwarded, Bool.or_comm]
  exact h.direct hc

/-- The path is the first cable from its own end. -/
theorem path_first {p : Path} (h : t.path a b link true = some p) : t.First link a b p.near p.far := by
  have hjoins := path_joins h
  refine ⟨hjoins.cable, fun x y hxy => ?_⟩
  obtain ⟨rtt, hxy⟩ := hxy
  obtain ⟨pa, hpa, hx⟩ := hxy.near
  obtain ⟨pb, hpb, hy⟩ := hxy.far
  unfold path at h
  rw [hpa, hpb] at h
  rw [hjoins.cost, show t.cost x y = _ from hxy.cost]
  refine pickBest_le Path.shorter_iff h _ ?_
  simp only [List.mem_flatMap, List.mem_filterMap]
  exact ⟨x, hx, y, hy, link?_eq_some.mpr ⟨rfl, rfl, rfl, rfl, hxy.probed, hxy.tagged, hxy.direct⟩⟩

/-- Two firsts from one end are one pair of addresses. -/
theorem First.addr_eq {x y x' y' : Port} (h : t.First link a b x y) (h' : t.First link a b x' y') :
    x.addr = x'.addr ∧ y.addr = y'.addr := by
  have heq : t.cost x y = t.cost x' y' := le_antisymm (h.2 x' y' h'.1) (h'.2 x y h.1)
  have haddr := congrArg (fun w => ofLex (ofLex w).2) heq
  exact ⟨congrArg Prod.fst haddr, congrArg Prod.snd haddr⟩

theorem First.congr {x y x' y' : Port} (h : t.First link a b x y) (hc : t.Cable link a b x' y')
    (hx : x'.addr = x.addr) (hy : y'.addr = y.addr) : t.First link a b x' y' := by
  refine ⟨hc, fun x'' y'' h'' => ?_⟩
  have heq : t.cost x' y' = t.cost x y := by rw [cost, cost, hx, hy]
  exact heq ▸ h.2 x'' y'' h''

end Topology

/-! ## Both ends -/

variable {t : Topology} {req : Request} {set : SetReq} {members : List Member} {sol : Solution}

/-- The one member's next path and the other's previous path are one pair of addresses, seen from
either end. -/
def AgreeOnCable (a b : Member) : Prop :=
  ∃ p q, a.next = some p ∧ b.prev = some q ∧ p.near.addr = q.far.addr ∧ p.far.addr = q.near.addr

/-- Every member agrees with the one after it, the last of a ring with the first. -/
def NeighboursAgree (layout : Layout) (members : List Member) : Prop :=
  ∀ i j a b, (neighbourIdx layout members.length i).2 = some j → members[i]? = some a →
    members[j]? = some b → AgreeOnCable a b

/-- Between neighbours, one of the cables comes first from both ends. -/
def OneCableFirst (t : Topology) (set : SetReq) (nodes : List NodeId) : Prop :=
  ∀ i j a b, (neighbourIdx set.layout nodes.length i).2 = some j → nodes[i]? = some a →
    nodes[j]? = some b → ∃ x y, t.First set.link a b x y ∧ t.First set.link b a y x

/-- The member before the next one is the member itself. -/
theorem prev_of_next {layout : Layout} {k i j : Nat} (hi : i < k)
    (h : (neighbourIdx layout k i).2 = some j) : (neighbourIdx layout k j).1 = some i := by
  cases layout with
  | mesh => cases h
  | ring =>
    simp only [neighbourIdx] at h ⊢
    split at h
    · next hk =>
      cases h
      rw [if_pos hk, pred_mod_succ_mod hi]
    · cases h
  | line =>
    simp only [neighbourIdx, Option.ite_none_right_eq_some, Option.some.injEq] at h ⊢
    omega

theorem cableTo_path {nodes : List NodeId} {i j : Nat} {a b : NodeId} {o : Option Path}
    (ha : nodes[i]? = some a) (hb : nodes[j]? = some b) (h : cableTo t set nodes i (some j) = .ok o) :
    ∃ p, o = some p ∧ t.path a b set.link true = some p := by
  unfold cableTo at h
  simp only [List.getD_eq_getElem?_getD, ha, hb, Option.getD_some] at h
  split at h
  · next p hp =>
    cases h
    exact ⟨p, rfl, hp⟩
  · cases h

/-- Two neighbours agree exactly when one cable comes first from both ends. -/
theorem agreeOnCable_iff {nodes : List NodeId} (h : membersOf t set nodes = .ok members) {i j : Nat}
    {a b : Member} (hij : (neighbourIdx set.layout nodes.length i).2 = some j)
    (ha : members[i]? = some a) (hb : members[j]? = some b) : AgreeOnCable a b ↔
      ∃ x y, t.First set.link a.node b.node x y ∧ t.First set.link b.node a.node y x := by
  have hi : i < nodes.length := membersOf_length h ▸ (List.getElem?_eq_some_iff.mp ha).1
  obtain ⟨hna, -, hnext⟩ := membersOf_get h ha
  obtain ⟨hnb, hprev, -⟩ := membersOf_get h hb
  rw [hij] at hnext
  rw [prev_of_next hi hij] at hprev
  obtain ⟨p, hp, hpath⟩ := cableTo_path hna hnb hnext
  obtain ⟨q, hq, hback⟩ := cableTo_path hnb hna hprev
  have hfirst := Topology.path_first hpath
  have hlast := Topology.path_first hback
  constructor
  · rintro ⟨p', q', hp', hq', hnear, hfar⟩
    cases hp.symm.trans hp'
    cases hq.symm.trans hq'
    exact ⟨p.near, p.far, hfirst, hlast.congr hfirst.1.symm hfar hnear⟩
  · rintro ⟨x, y, hxy, hyx⟩
    obtain ⟨hpx, hpy⟩ := hfirst.addr_eq hxy
    obtain ⟨hqy, hqx⟩ := hlast.addr_eq hyx
    exact ⟨p, q, hp, hq, hpx.trans hqx.symm, hpy.trans hqy.symm⟩

/-- The members of a solved set agree on the cables between them exactly when, for each two
neighbours, one of their cables comes first from both ends. -/
theorem cables_agree_iff (h : solve t req = .ok sol) (hs : set ∈ req.sets)
    (hm : sol.sets.get set.name = some members) : NeighboursAgree set.layout members ↔
      OneCableFirst t set (members.map (·.node)) := by
  obtain ⟨-, hall, -⟩ := solve_sound h
  obtain ⟨-, nodes, members', -, hmembers, hget⟩ := hall set hs
  cases hm.symm.trans hget
  have hlen := membersOf_length hmembers
  rw [NeighboursAgree, OneCableFirst, List.length_map]
  constructor
  · intro hagree i j n m hij hn hm
    simp only [List.getElem?_map, Option.map_eq_some_iff] at hn hm
    obtain ⟨a, ha, rfl⟩ := hn
    obtain ⟨b, hb, rfl⟩ := hm
    exact (agreeOnCable_iff hmembers (hlen ▸ hij) ha hb).mp (hagree i j a b hij ha hb)
  · intro hfirst i j a b hij ha hb
    refine (agreeOnCable_iff hmembers (hlen ▸ hij) ha hb).mpr (hfirst i j _ _ hij ?_ ?_)
    · rw [List.getElem?_map, ha, Option.map_some]
    · rw [List.getElem?_map, hb, Option.map_some]

theorem cables_agree_iff_kite : ∃ sol members, solve Sample.kite Sample.ringAndOne = .ok sol ∧
    (NeighboursAgree .ring members ↔
      OneCableFirst Sample.kite ⟨"ring", [1, 1, 2], .rdma, .ring, ""⟩ (members.map (·.node))) := by
  obtain ⟨sol, h⟩ : ∃ sol, solve Sample.kite Sample.ringAndOne = .ok sol :=
    exists_of_isOk (by decide +kernel)
  obtain ⟨-, hall, -⟩ := solve_sound h
  obtain ⟨-, -, members, -, -, hget⟩ := hall ⟨"ring", [1, 1, 2], .rdma, .ring, ""⟩ List.mem_cons_self
  exact ⟨sol, members, h, cables_agree_iff h List.mem_cons_self hget⟩

/-- Two boxes with two ports each, cabled crosswise. -/
def Sample.crossedCables : Topology where
  islands := []
  ports := ((∅ : Table NodeId (List Port)).set "a" [⟨"a1", none, []⟩, ⟨"a2", none, []⟩]).set "b"
    [⟨"b1", none, []⟩, ⟨"b2", none, []⟩]
  links := [("a1", "b2"), ("b2", "a1"), ("a2", "b1"), ("b1", "a2")].foldl (fun t p => t.set p 0) ∅
  forwarded := []
  freeGpus := ((∅ : Table NodeId Nat).set "a" 1).set "b" 1
  hosts := ∅
  vendors := ∅

/-- The first node is told the far end of one cable, and the second binds the near end of the
other. -/
theorem crossed_cables : ¬∀ t req sol, solve t req = .ok sol → ∀ set ∈ req.sets, ∀ members,
    sol.sets.get set.name = some members → NeighboursAgree set.layout members := by
  intro hagree
  let req : Request := ⟨[⟨"s", [1, 1], .any, .line, ""⟩], []⟩
  obtain ⟨sol, h⟩ : ∃ sol, solve Sample.crossedCables req = .ok sol := exists_of_isOk (by decide +kernel)
  have hcables : (solve Sample.crossedCables req).toOption.map (fun sol => (sol.sets.get "s").map
      (·.map fun m => (m.next.map (·.far.addr), m.prev.map (·.near.addr)))) =
      some (some [(some "b2", none), (none, some "b1")]) := by decide +kernel
  rw [h] at hcables
  obtain ⟨members, hm, hcables⟩ := Option.map_eq_some_iff.mp (Option.some.inj hcables)
  obtain ⟨a, rest, rfl, ha, hrest⟩ := List.map_eq_cons_iff.mp hcables
  obtain ⟨b, rest, rfl, hb, hrest⟩ := List.map_eq_cons_iff.mp hrest
  cases List.map_eq_nil_iff.mp hrest
  obtain ⟨p, q, hp, hq, -, hfar⟩ := hagree _ req sol h _ List.mem_cons_self _ hm 0 1 a b rfl rfl rfl
  simp only [hp, Option.map_some, Prod.mk.injEq, Option.some.injEq] at ha
  simp only [hq, Option.map_some, Prod.mk.injEq, Option.some.injEq] at hb
  rw [ha.1, hb.2] at hfar
  exact absurd hfar (by decide)

end Mentat
