import Mentat.Claim.Topology

/-!
# Links between nodes

What `Topology::path` returns: a pair of ports, one on each node, that answered a probe and meets
the link asked for (`path_joins`). There is a path when there is such a pair (`path_isSome`), and a
pair that joins two nodes joins them in either direction, since a probe counts both ways.
-/

namespace Mentat

namespace Topology

variable {t : Topology} {a b : NodeId} {link : Link} {cable : Bool} {p : Path}

/-- The node listens on the port. -/
def Listens (t : Topology) (n : NodeId) (p : Port) : Prop :=
  ∃ ports, t.ports.get n = some ports ∧ p ∈ ports

/-- The path is a probed pair of addresses of the two nodes, tagged at both ends for an `rdma` link.
As a cable, no third box forwards it. -/
structure Joins (t : Topology) (a b : NodeId) (link : Link) (cable : Bool) (p : Path) : Prop where
  src : p.src = a
  dst : p.dst = b
  near : t.Listens a p.near
  far : t.Listens b p.far
  probed : t.rtt p.near.addr p.far.addr = some p.rttMs
  tagged : link = .rdma → p.near.rdma = true ∧ p.far.rdma = true
  direct : cable = true → t.isForwarded p.near.addr p.far.addr = false

/-- The two nodes are joined by a probed pair that meets the link. -/
def Joined (t : Topology) (link : Link) (cable : Bool) (a b : NodeId) : Prop :=
  ∃ p, t.Joins a b link cable p

theorem link?_eq_some {x y : Port} : t.link? a b link cable x y = some p ↔
    p.src = a ∧ p.dst = b ∧ p.near = x ∧ p.far = y ∧ t.rtt x.addr y.addr = some p.rttMs ∧
      (link = .rdma → x.rdma = true ∧ y.rdma = true) ∧
      (cable = true → t.isForwarded x.addr y.addr = false) := by
  unfold link?
  split
  · next h =>
    simp only [reduceCtorEq, false_iff]
    rintro ⟨-, -, -, -, -, htag, -⟩
    simp [htag h.1] at h
  · next htag =>
    simp only [Bool.and_eq_false_iff, not_and, not_or, Bool.not_eq_false] at htag
    split
    · next hr => simp [hr]
    · next rtt hr =>
      split
      · next hf =>
        simp only [Bool.and_eq_true] at hf
        simp only [reduceCtorEq, false_iff]
        rintro ⟨-, -, -, -, -, -, hd⟩
        rw [hd hf.1] at hf
        cases hf.2
      · next hf =>
        constructor
        · rintro ⟨⟩
          refine ⟨rfl, rfl, rfl, rfl, hr, htag, fun hc => ?_⟩
          simpa [hc] using hf
        · obtain ⟨src, dst, near, far, rttMs⟩ := p
          rintro ⟨rfl, rfl, rfl, rfl, hr', -, -⟩
          cases hr.symm.trans hr'
          rfl

end Topology

theorem pickBest_mem {α : Type} {lt : α → α → Bool} {l : List α} {x : α}
    (h : pickBest lt l = some x) : x ∈ l := by
  have hall : ∀ y, pickBest lt l = some y → y ∈ l := by
    refine List.foldlRecOn l _ (motive := fun best => ∀ y, best = some y → y ∈ l)
      (fun y hy => by cases hy) ?_
    intro best hbest z hz y hy
    split at hy
    · cases hy
      exact hz
    · split at hy
      · cases hy
        exact hz
      · exact hbest y hy
  exact hall x h

/-- The best of a list is there when the list has elements. -/
theorem pickBest_isSome {α : Type} {lt : α → α → Bool} {l : List α} (h : l ≠ []) :
    (pickBest lt l).isSome = true := by
  cases l with
  | nil => exact absurd rfl h
  | cons x l =>
    refine List.foldlRecOn l _ (motive := fun best : Option α => best.isSome = true) rfl ?_
    intro best _ y _
    split
    · rfl
    · split <;> rfl

namespace Topology

variable {t : Topology} {a b : NodeId} {link : Link} {cable : Bool} {p : Path}

theorem path_joins (h : t.path a b link cable = some p) : t.Joins a b link cable p := by
  unfold path at h
  split at h
  · next pa pb hpa hpb =>
    have hmem := pickBest_mem h
    simp only [List.mem_flatMap, List.mem_filterMap] at hmem
    obtain ⟨x, hx, y, hy, hlink⟩ := hmem
    obtain ⟨hsrc, hdst, rfl, rfl, hr, htag, hd⟩ := link?_eq_some.mp hlink
    exact ⟨hsrc, hdst, ⟨pa, hpa, hx⟩, ⟨pb, hpb, hy⟩, hr, htag, hd⟩
  · cases h

theorem path_isSome : (t.path a b link cable).isSome = true ↔ t.Joined link cable a b := by
  constructor
  · intro h
    obtain ⟨p, hp⟩ := Option.isSome_iff_exists.mp h
    exact ⟨p, path_joins hp⟩
  · rintro ⟨p, hp⟩
    obtain ⟨pa, hpa, hx⟩ := hp.near
    obtain ⟨pb, hpb, hy⟩ := hp.far
    unfold path
    rw [hpa, hpb]
    refine pickBest_isSome (List.ne_nil_of_mem (a := p) ?_)
    simp only [List.mem_flatMap, List.mem_filterMap]
    exact ⟨p.near, hx, p.far, hy,
      link?_eq_some.mpr ⟨hp.src, hp.dst, rfl, rfl, hp.probed, hp.tagged, hp.direct⟩⟩

/-- A probe of either direction joins both. -/
theorem rtt_isSome_symm {x y : String} (h : (t.rtt x y).isSome = true) :
    (t.rtt y x).isSome = true := by
  unfold rtt at h ⊢
  rw [Option.isSome_or, Bool.or_comm, ← Option.isSome_or]
  exact h

theorem Joined.symm (h : t.Joined link cable a b) : t.Joined link cable b a := by
  obtain ⟨p, hp⟩ := h
  have hr : (t.rtt p.far.addr p.near.addr).isSome = true :=
    rtt_isSome_symm (by rw [hp.probed]; rfl)
  obtain ⟨rtt, hr⟩ := Option.isSome_iff_exists.mp hr
  refine ⟨⟨b, a, p.far, p.near, rtt⟩, rfl, rfl, hp.far, hp.near, hr,
    fun hl => (hp.tagged hl).symm, fun hc => ?_⟩
  have := hp.direct hc
  unfold isForwarded at this ⊢
  rw [Bool.or_comm]
  exact this

end Topology

end Mentat
