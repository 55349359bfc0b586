import Mentat.Claim.Solved
import Mentat.Ground

/-!
# The order of the ranks

A claim of one ring or line set is kept in four forms: the solver's members, with the cable from
each to its neighbours, the view, the order `claim_order` makes of it for a driver, and the
environment of each bundle. `rankedMembers` is the order in terms of the members. Rotating a ring or
reversing a line keeps the cables between neighbours (`rankedMembers_linked`), so the addresses a
bundle is given are those of the bundles next to it.

* `claimOrder_solved`: `claim_order` on a solved claim is `rankedMembers` written out.
* `placementOf_ranked`: how a group placed in such a claim is wired.
* `claim_fence`: the same over runs, and that every bundle of a group inside a claim is on a node of
  the claim.
-/

namespace Mentat

/-! ## Members and their neighbours -/

/-- Each of the two members has a cable to the other: `a` as its next, `b` as its previous one. -/
def Cabled (t : Topology) (a b : Member) : Prop :=
  (∃ p, a.next = some p ∧ t.Listens b.node p.far) ∧ ∃ q, b.prev = some q ∧ t.Listens a.node q.far

/-- The members of a ring, or of a line with nothing past its ends. -/
def Linked (t : Topology) (layout : Layout) (members : List Member) : Prop :=
  if layout = .line then Lined (Cabled t) (·.prev = none) (·.next = none) members
  else Cyclic (Cabled t) members

theorem CabledOver.cabled {t : Topology} {link : Link} {a b : Member} (h : CabledOver t link a b) :
    Cabled t a b := by
  obtain ⟨⟨p, hp, hpj⟩, q, hq, hqj⟩ := h
  exact ⟨⟨p, hp, hpj.far⟩, q, hq, hqj.far⟩

/-- The members of a set placed on nodes in a ring or a line are linked. -/
theorem membersOf_linked {t : Topology} {set : SetReq} {nodes : List NodeId} {members : List Member}
    (h : membersOf t set nodes = .ok members) (ho : set.layout.ordered = true)
    (hk : 2 ≤ members.length) : Linked t set.layout members := by
  cases hlay : set.layout with
  | mesh =>
    rw [hlay] at ho
    cases ho
  | ring => exact (membersOf_ring h hlay hk).imp fun _ _ => CabledOver.cabled
  | line => exact (membersOf_line h hlay).imp fun _ _ => CabledOver.cabled

/-! ## The order for a driver -/

/-- The member with its two neighbours exchanged. -/
def Member.turned (m : Member) : Member := { m with prev := m.next, next := m.prev }

/-- The order `claim_order` gives the members, none when the driver is inside a line. -/
def rankedMembers (layout : Layout) (members : List Member) (driver : NodeId) : Option (List Member) :=
  match layout, members.findIdx? (fun m => m.node == driver) with
  | .ring, some i => some (members.rotate i)
  | .line, some i =>
    if i = members.length - 1 ∧ 0 < i then some (members.reverse.map Member.turned)
    else if 0 < i then none
    else some members
  | _, _ => some members

theorem Lined.turned {t : Topology} {members : List Member}
    (h : Lined (Cabled t) (·.prev = none) (·.next = none) members) :
    Lined (Cabled t) (·.prev = none) (·.next = none) (members.reverse.map Member.turned) :=
  h.reverse.map (fun _ _ hab => ⟨hab.2, hab.1⟩) (fun _ ha => ha) fun _ ha => ha

/-- Whoever the driver is, its order links the members. -/
theorem rankedMembers_linked {t : Topology} {layout : Layout} {members l : List Member}
    {driver : NodeId} (hl : Linked t layout members)
    (h : rankedMembers layout members driver = some l) : Linked t layout l := by
  unfold rankedMembers at h
  split at h
  · cases h
    exact hl.rotate _
  · split at h
    · cases h
      exact hl.turned
    · split at h
      · cases h
      · cases h
        exact hl
  · cases h
    exact hl

theorem rankedMembers_perm {layout : Layout} {members l : List Member} {driver : NodeId}
    (h : rankedMembers layout members driver = some l) :
    (l.map (·.node)).Perm (members.map (·.node)) := by
  unfold rankedMembers at h
  split at h
  · cases h
    exact (List.rotate_perm _ _).map _
  · split at h
    · cases h
      rw [List.map_map]
      exact (List.reverse_perm members).map (·.node)
    · split at h
      · cases h
      · cases h
        exact .refl _
  · cases h
    exact .refl _

/-- The driver's member comes first, when it is one of them. -/
theorem rankedMembers_head {layout : Layout} {members l : List Member} {driver : NodeId}
    (ho : layout.ordered = true) (h : rankedMembers layout members driver = some l)
    (hd : ∃ m ∈ members, m.node = driver) : ∃ m, l[0]? = some m ∧ m.node = driver := by
  obtain ⟨m, hm, hmd⟩ := hd
  cases hf : members.findIdx? (fun m => m.node == driver) with
  | none =>
    have := List.findIdx?_eq_none_iff.mp hf m hm
    simp [hmd] at this
  | some i =>
    obtain ⟨hi, hnode, -⟩ := List.findIdx?_eq_some_iff_getElem.mp hf
    rw [beq_iff_eq] at hnode
    unfold rankedMembers at h
    rw [hf] at h
    cases layout with
    | mesh => cases ho
    | ring =>
      cases h
      refine ⟨members[i], ?_, hnode⟩
      rw [List.getElem?_rotate (by omega), Nat.zero_add, Nat.mod_eq_of_lt hi]
      exact List.getElem?_eq_getElem hi
    | line =>
      simp only at h
      split at h
      · next hlast =>
        cases h
        refine ⟨members[i].turned, ?_, hnode⟩
        rw [List.getElem?_map, List.getElem?_reverse (by omega), Nat.sub_zero, ← hlast.1,
          List.getElem?_eq_getElem hi]
        rfl
      · split at h
        · cases h
        · next hzero =>
          cases h
          obtain rfl : i = 0 := by omega
          exact ⟨_, List.getElem?_eq_getElem hi, hnode⟩

/-- No order has a driver first that is inside a line. -/
theorem rankedMembers_inside {members : List Member} {driver : NodeId} {i : Nat}
    (hnd : (members.map (·.node)).Nodup) (hd : (members.map (·.node))[i]? = some driver) (hpos : 0 < i)
    (hlt : i + 1 < members.length) : rankedMembers .line members driver = none := by
  have hidx : members.findIdx? (fun m => m.node == driver) = some i := by
    rw [List.getElem?_map, Option.map_eq_some_iff] at hd
    obtain ⟨m, hm, hmd⟩ := hd
    obtain ⟨hi, rfl⟩ := List.getElem?_eq_some_iff.mp hm
    refine List.findIdx?_eq_some_iff_getElem.mpr ⟨hi, by simp [hmd], fun j hj => ?_⟩
    have hne := (List.nodup_iff_getElem?_ne_getElem?.mp hnd) j i hj (by simpa using hi)
    simp only [List.getElem?_map, List.getElem?_eq_getElem (Nat.lt_trans hj hi),
      List.getElem?_eq_getElem hi, Option.map_some, ne_eq, Option.some.injEq, hmd] at hne
    simpa using hne
  simp only [rankedMembers, hidx]
  rw [if_neg (by omega), if_pos hpos]

/-- Only a driver inside a line has no order. -/
theorem rankedMembers_none {layout : Layout} {members : List Member} {driver : NodeId}
    (h : rankedMembers layout members driver = none) :
    layout = .line ∧ ∃ i, 0 < i ∧ i + 1 < members.length ∧
      (members.map (·.node))[i]? = some driver := by
  unfold rankedMembers at h
  split at h
  · cases h
  · next i hf =>
    obtain ⟨hi, hnode, -⟩ := List.findIdx?_eq_some_iff_getElem.mp hf
    split at h
    · cases h
    · next hend =>
      split at h
      · next hpos =>
        refine ⟨rfl, i, hpos, by omega, ?_⟩
        rw [List.getElem?_map, List.getElem?_eq_getElem hi, Option.map_some, beq_iff_eq.mp hnode]
      · cases h
  · cases h

/-! ## The environment of a rank -/

/-- What one neighbour adds to the variables and the interfaces. -/
def noteNeighbour (key : String) (p : Value) (x : Table String String × List String) :
    Table String String × List String :=
  let env := match (p.idx "addr").asStr with
    | some addr => x.1.set ("MENTAT_FABRIC_" ++ key) addr
    | none => x.1
  match (p.idx "iface").asStr with
  | some iface => (env.set ("MENTAT_FABRIC_" ++ key ++ "_IFACE") iface,
      if iface ∈ x.2 then x.2 else x.2 ++ [iface])
  | none => (env, x.2)

theorem noteNeighbour_get {key k : String} {p : Value} {x : Table String String × List String}
    (hk : k ≠ "MENTAT_FABRIC_" ++ key ++ "_IFACE") :
    (noteNeighbour key p x).1.get k =
      if k = "MENTAT_FABRIC_" ++ key then (p.idx "addr").asStr.or (x.1.get k) else x.1.get k := by
  unfold noteNeighbour
  cases (p.idx "addr").asStr <;> cases (p.idx "iface").asStr <;>
    simp [Table.get_set, hk]

/-- The variables that name an address. The others have names of their own. -/
theorem rankEnv_get (layout : Layout) (prev next : Value) {k : String}
    (hlayout : k ≠ "MENTAT_FABRIC_LAYOUT") (hprev : k ≠ "MENTAT_FABRIC_PREV_IFACE")
    (hnext : k ≠ "MENTAT_FABRIC_NEXT_IFACE") (hifaces : k ≠ "MENTAT_FABRIC_IFACES") :
    (rankEnv layout prev next).get k =
      if k = "MENTAT_FABRIC_NEXT" then (next.idx "addr").asStr.or
        (if k = "MENTAT_FABRIC_PREV" then (prev.idx "addr").asStr else none)
      else if k = "MENTAT_FABRIC_PREV" then (prev.idx "addr").asStr else none := by
  have heq : rankEnv layout prev next =
      let x := noteNeighbour "NEXT" next (noteNeighbour "PREV" prev
        ((∅ : Table String String).set "MENTAT_FABRIC_LAYOUT"
          (if layout = .ring then "ring" else "line"), []))
      if x.2.isEmpty then x.1 else x.1.set "MENTAT_FABRIC_IFACES" (",".intercalate x.2) := rfl
  have hset : ∀ x : Table String String × List String,
      (if x.2.isEmpty then x.1 else x.1.set "MENTAT_FABRIC_IFACES" (",".intercalate x.2)).get k =
        x.1.get k := by
    intro x
    split
    · rfl
    · exact Table.get_set_of_ne hifaces
  have hbase : ((∅ : Table String String).set "MENTAT_FABRIC_LAYOUT"
      (if layout = .ring then "ring" else "line")).get k = none := Table.get_set_of_ne hlayout
  rw [heq, hset, noteNeighbour_get hnext, noteNeighbour_get hprev, hbase, Option.or_none]
  rfl

theorem rankEnv_next (layout : Layout) (prev next : Value) :
    (rankEnv layout prev next).get "MENTAT_FABRIC_NEXT" = (next.idx "addr").asStr := by
  rw [rankEnv_get layout prev next (by decide) (by decide) (by decide) (by decide), if_pos rfl,
    if_neg (by decide), Option.or_none]

theorem rankEnv_prev (layout : Layout) (prev next : Value) :
    (rankEnv layout prev next).get "MENTAT_FABRIC_PREV" = (prev.idx "addr").asStr := by
  rw [rankEnv_get layout prev next (by decide) (by decide) (by decide) (by decide),
    if_neg (by decide), if_pos rfl]

/-- One rank as `claim_order` writes it. -/
def rankOf (t : Topology) (layout : Layout) (m : Member) : NodeId × Table String String :=
  (m.node, rankEnv layout ((m.prev.map (neighbourJson t.hosts)).getD .null)
    ((m.next.map (neighbourJson t.hosts)).getD .null))

theorem neighbourJson_addr (hosts : Table NodeId String) (o : Option Path) :
    (((o.map (neighbourJson hosts)).getD .null).idx "addr").asStr = o.map (·.far.addr) := by
  cases o with
  | none => rfl
  | some p => simp [neighbourJson, Value.idx, Value.asStr, List.lookup]

theorem rankOf_next (t : Topology) (layout : Layout) (m : Member) :
    (rankOf t layout m).2.get "MENTAT_FABRIC_NEXT" = m.next.map (·.far.addr) := by
  rw [rankOf, rankEnv_next, neighbourJson_addr]

theorem rankOf_prev (t : Topology) (layout : Layout) (m : Member) :
    (rankOf t layout m).2.get "MENTAT_FABRIC_PREV" = m.prev.map (·.far.addr) := by
  rw [rankOf, rankEnv_prev, neighbourJson_addr]

/-! ## `claim_order` on a solved claim -/

/-- A member as `claim_order` reads it out of the view. -/
def seat (t : Topology) (m : Member) : NodeId × Value × Value :=
  (m.node, (m.prev.map (neighbourJson t.hosts)).getD .null,
    (m.next.map (neighbourJson t.hosts)).getD .null)

/-- The stored claim is what the solver found for its shape on the topology. -/
structure SolvedOn (t : Topology) (c : ClaimInfo) (req : Request) (sol : Solution) : Prop where
  parsed : parse c.shape = .ok req
  solved : solve t req = .ok sol
  view : c.view = sol.toJson t

/-- `claim_order` on a solved claim gives the ranked members, and refuses a driver for which there is
no order. -/
theorem claimOrder_solved {ops : ClaimOps} {st : State} {group claim : String} (driver : NodeId)
    {t : Topology} {c : ClaimInfo} {req : Request} {sol : Solution} {set : SetReq}
    {members : List Member} (hparse : ops.parse = parse)
    (hget : st.claims.get (group, claim) = some c) (hs : SolvedOn t c req sol)
    (hset : req.sets = [set]) (ho : set.layout.ordered = true)
    (hm : sol.sets.get set.name = some members) :
    (∀ l, rankedMembers set.layout members driver = some l →
      claimOrder ops st group claim driver = some (.ok (l.map (rankOf t set.layout)))) ∧
    (rankedMembers set.layout members driver = none →
      ∃ why, claimOrder ops st group claim driver = some (.error why)) := by
  have horder : (members.map (·.toJson t.hosts)).map (fun m =>
      (((m.idx "node").asStr).getD "", m.idx "prev", m.idx "next")) = members.map (seat t) := by
    simp [Function.comp_def, Value.asStr, seat]
  have hfind : (members.map (seat t)).findIdx? (fun m => m.1 == driver) =
      members.findIdx? (fun m => m.node == driver) := by
    rw [List.findIdx?_map]
    rfl
  unfold claimOrder
  simp only [hget, hparse, hs.parsed, Except.toOption, Option.bind_eq_bind, Option.bind_some, hset,
    ho, Bool.true_eq_false, if_false, hs.view, toJson_set hm, Value.asArray, horder, hfind,
    List.length_map, rankedMembers]
  cases hlay : set.layout with
  | mesh =>
    rw [hlay] at ho
    cases ho
  | ring =>
    cases members.findIdx? fun m => m.node == driver with
    | none => simp [Except.map, seat, rankOf]
    | some i => simp [Except.map, seat, rankOf, List.map_rotate]
  | line =>
    cases members.findIdx? fun m => m.node == driver with
    | none => simp [Except.map, seat, rankOf]
    | some i =>
      simp only
      split
      · simp [Except.map, seat, rankOf, Member.turned]
      · split
        · simp [Except.map]
        · simp [Except.map, seat, rankOf]

/-- Any other solved claim has no order. -/
theorem claimOrder_unordered {ops : ClaimOps} {st : State} {group claim : String} (driver : NodeId)
    {t : Topology} {c : ClaimInfo} {req : Request} {sol : Solution} (hparse : ops.parse = parse)
    (hget : st.claims.get (group, claim) = some c) (hs : SolvedOn t c req sol)
    (hno : ∀ set, req.sets = [set] → set.layout.ordered = false) :
    claimOrder ops st group claim driver = none := by
  unfold claimOrder
  simp only [hget, hparse, hs.parsed, Except.toOption, Option.bind_eq_bind, Option.bind_some]
  split
  · next set hset => rw [if_pos (hno set hset)]
  · rfl

/-! ## What a group in the claim is given -/

/-- The rank after `i` of `k`, cyclically in a ring. -/
def rankAfter (layout : Layout) (k i : Nat) : Option Nat :=
  if i + 1 < k then some (i + 1) else if layout = .ring then some 0 else none

/-- The rank before `i` of `k`, cyclically in a ring. -/
def rankBefore (layout : Layout) (k i : Nat) : Option Nat :=
  if 0 < i then some (i - 1) else if layout = .ring then some (k - 1) else none

/-- The variable holds an address of the rank's node, and is absent when there is no such rank. -/
def NamesRank (t : Topology) (bundles : List BundleAssignment) (var : Option String) :
    Option Nat → Prop
  | some j => ∃ b port, bundles[j]? = some b ∧ t.Listens b.nodeId port ∧ var = some port.addr
  | none => var = none

/-- Every bundle's variables name the bundles next to it. -/
structure Wired (t : Topology) (layout : Layout) (bundles : List BundleAssignment) : Prop where
  next {i : Nat} {b : BundleAssignment} : bundles[i]? = some b →
    NamesRank t bundles (b.env.get "MENTAT_FABRIC_NEXT") (rankAfter layout bundles.length i)
  prev {i : Nat} {b : BundleAssignment} : bundles[i]? = some b →
    NamesRank t bundles (b.env.get "MENTAT_FABRIC_PREV") (rankBefore layout bundles.length i)

/-- The bundles are the members, rank by rank. -/
def Seated (t : Topology) (layout : Layout) (bundles : List BundleAssignment) (l : List Member) :
    Prop :=
  bundles.map (fun b => (b.nodeId, b.env)) = l.map (rankOf t layout)

namespace Seated

variable {t : Topology} {layout : Layout} {bundles : List BundleAssignment} {l : List Member}
  {i : Nat}

theorem length_eq (h : Seated t layout bundles l) : bundles.length = l.length := by
  have := congrArg List.length h
  rwa [List.length_map, List.length_map] at this

theorem member (h : Seated t layout bundles l) {b : BundleAssignment} (hb : bundles[i]? = some b) :
    ∃ m, l[i]? = some m ∧ b.nodeId = m.node ∧ b.env = (rankOf t layout m).2 := by
  have hi := congrArg (·[i]?) h
  simp only [List.getElem?_map, hb, Option.map_some] at hi
  obtain ⟨m, hm, heq⟩ := Option.map_eq_some_iff.mp hi.symm
  exact ⟨m, hm, (congrArg Prod.fst heq).symm, (congrArg Prod.snd heq).symm⟩

theorem bundle (h : Seated t layout bundles l) {m : Member} (hm : l[i]? = some m) :
    ∃ b, bundles[i]? = some b ∧ b.nodeId = m.node := by
  have hi := congrArg (·[i]?) h
  simp only [List.getElem?_map, hm, Option.map_some] at hi
  obtain ⟨b, hb, heq⟩ := Option.map_eq_some_iff.mp hi
  exact ⟨b, hb, congrArg Prod.fst heq⟩

theorem names (h : Seated t layout bundles l) {m : Member} {p : Path} (hm : l[i]? = some m)
    (hp : t.Listens m.node p.far) : NamesRank t bundles (some p.far.addr) (some i) := by
  obtain ⟨b, hb, hn⟩ := h.bundle hm
  exact ⟨b, p.far, hb, hn ▸ hp, rfl⟩

theorem wired_ring (h : Seated t layout bundles l) (hl : Cyclic (Cabled t) l) :
    Wired t .ring bundles where
  next {i b} hb := by
    obtain ⟨m, hm, -, henv⟩ := h.member hb
    have hi := (List.getElem?_eq_some_iff.mp hm).1
    have hj := Nat.mod_lt (i + 1) (Nat.zero_lt_of_lt hi)
    have hafter : rankAfter .ring l.length i = some ((i + 1) % l.length) := by
      unfold rankAfter
      split
      · next hlt => rw [Nat.mod_eq_of_lt hlt]
      · rw [if_pos rfl, show i + 1 = l.length by omega, Nat.mod_self]
    obtain ⟨⟨p, hp, hfar⟩, -⟩ := hl i m _ hm (List.getElem?_eq_getElem hj)
    rw [h.length_eq, hafter, henv, rankOf_next, hp, Option.map_some]
    exact h.names (List.getElem?_eq_getElem hj) hfar
  prev {i b} hb := by
    obtain ⟨m, hm, -, henv⟩ := h.member hb
    have hi := (List.getElem?_eq_some_iff.mp hm).1
    -- The rank before `i` is the one `i` comes after.
    obtain ⟨j, hbefore, hj, hji⟩ : ∃ j, rankBefore .ring l.length i = some j ∧ j < l.length ∧
        (j + 1) % l.length = i := by
      unfold rankBefore
      split
      · next hpos =>
        refine ⟨i - 1, rfl, by omega, ?_⟩
        rw [show i - 1 + 1 = i by omega, Nat.mod_eq_of_lt hi]
      · refine ⟨l.length - 1, if_pos rfl, by omega, ?_⟩
        rw [show l.length - 1 + 1 = l.length by omega, Nat.mod_self]
        omega
    obtain ⟨-, q, hq, hfar⟩ := hl j _ m (List.getElem?_eq_getElem hj) (by rw [hji, hm])
    rw [h.length_eq, hbefore, henv, rankOf_prev, hq, Option.map_some]
    exact h.names (List.getElem?_eq_getElem hj) hfar

theorem wired_line (h : Seated t layout bundles l)
    (hl : Lined (Cabled t) (·.prev = none) (·.next = none) l) : Wired t .line bundles where
  next {i b} hb := by
    obtain ⟨m, hm, -, henv⟩ := h.member hb
    have hi := (List.getElem?_eq_some_iff.mp hm).1
    rw [h.length_eq, henv, rankOf_next, rankAfter]
    split
    · next hlt =>
      have hm' := List.getElem?_eq_getElem hlt
      obtain ⟨⟨p, hp, hfar⟩, -⟩ := hl.get hm hm'
      rw [hp, Option.map_some]
      exact h.names hm' hfar
    · rw [if_neg (by simp)]
      have hlast : m.next = none := by
        refine hl.last m ?_
        rw [List.getLast?_eq_getElem?, show l.length - 1 = i by omega]
        exact hm
      rw [hlast]
      rfl
  prev {i b} hb := by
    obtain ⟨m, hm, -, henv⟩ := h.member hb
    have hi := (List.getElem?_eq_some_iff.mp hm).1
    rw [h.length_eq, henv, rankOf_prev, rankBefore]
    split
    · next hpos =>
      have hj : i - 1 < l.length := by omega
      have hm' := List.getElem?_eq_getElem hj
      obtain ⟨-, q, hq, hfar⟩ := hl.get hm' (by rw [show i - 1 + 1 = i by omega, hm])
      rw [hq, Option.map_some]
      exact h.names hm' hfar
    · rw [if_neg (by simp)]
      have hfirst : m.prev = none := by
        refine hl.first m ?_
        rw [List.head?_eq_getElem?, show 0 = i by omega]
        exact hm
      rw [hfirst]
      rfl

theorem wired (h : Seated t layout bundles l) (ho : layout.ordered = true) (hl : Linked t layout l) :
    Wired t layout bundles := by
  cases layout with
  | mesh => cases ho
  | ring => exact h.wired_ring hl
  | line => exact h.wired_line hl

end Seated

theorem fitOrdered_seats {ops : ClaimOps} {st : State} {group : String} {bundles : List Nat}
    {order : RankOrder} {a : List (Option BundleAssignment)}
    (h : fitOrdered ops st group bundles order = .ok a) :
    ∃ bs : List BundleAssignment, a = bs.map some ∧ bs.map (fun b => (b.nodeId, b.env)) = order := by
  unfold fitOrdered at h
  split at h
  · cases h
  · next hlen =>
    simp only at h
    split at h
    · cases h
    · next got hgot =>
      cases h
      have hgot := (drain_served hgot).length_eq
      refine ⟨((bundles.zip order).zip got).map fun x => ⟨x.2.1, x.1.2.1, x.2.2, x.1.2.2⟩,
        by rw [List.map_map]; rfl, ?_⟩
      rw [List.map_map]
      have hfst : (fun x : (Nat × NodeId × Table String String) × AgentId × List Nat => x.1.2) =
          Prod.snd ∘ Prod.fst := rfl
      calc ((bundles.zip order).zip got).map (fun x => x.1.2)
        _ = (((bundles.zip order).zip got).map Prod.fst).map Prod.snd := by rw [hfst, List.map_map]
        _ = (bundles.zip order).map Prod.snd := by rw [List.map_fst_zip (Nat.le_of_eq hgot)]
        _ = order := List.map_snd_zip (Nat.le_of_eq (not_not.mp hlen).symm)

theorem fit_inside {st : State} {group : String} {bundles : List Nat} {driver : NodeId}
    {nodes : List NodeId} {a : List (Option BundleAssignment)}
    (h : fit st group bundles driver (some nodes) = some a) :
    ∃ bs : List BundleAssignment, a = bs.map some ∧ ∀ b ∈ bs, b.nodeId ∈ nodes := by
  obtain ⟨bs, rfl, hhosts⟩ := fit_hosts h
  refine ⟨bs, rfl, fun b hb => ?_⟩
  obtain ⟨row, -, -, -, hin, hnode⟩ := hhosts b hb
  simpa [hnode] using hin

section Placement

variable {cfg : Cfg} {ops : ClaimOps} {st : State} {pg : PgInfo} {island : Option Island}
  {a : List (Option BundleAssignment)}

theorem placementOf_of_refused {why : String} (hclaim : pg.claim ≠ "")
    (ho : claimOrder ops st pg.group pg.claim (driverNodeOf st pg) = some (.error why)) :
    placementOf cfg ops st pg = .error why := by
  unfold driverNodeOf at ho
  simp only [placementOf, if_neg hclaim, ho]

theorem placementOf_of_order {order : RankOrder} (hclaim : pg.claim ≠ "")
    (ho : claimOrder ops st pg.group pg.claim (driverNodeOf st pg) = some (.ok order)) :
    placementOf cfg ops st pg = (fitOrdered ops st pg.group pg.bundles order).map (none, ·) := by
  unfold driverNodeOf at ho
  simp only [placementOf, if_neg hclaim, ho]

/-- A group inside a claim without an order has the claim's nodes for its one scope. -/
theorem placementOf_of_scope {c : ClaimInfo} (hclaim : pg.claim ≠ "")
    (hget : st.claims.get (pg.group, pg.claim) = some c)
    (ho : claimOrder ops st pg.group pg.claim (driverNodeOf st pg) = none)
    (h : placementOf cfg ops st pg = .ok (island, a)) :
    fit st pg.group pg.bundles (driverNodeOf st pg) (some (claimedNodes c.view)) = some a := by
  unfold driverNodeOf at ho
  simp only [placementOf, ho, placementScopes, ne_eq, hclaim, not_false_eq_true,
    if_true] at h
  have hscopes : ∀ scopes, claimScope st pg.group pg.claim = .ok scopes →
      scopes = [(none, some (claimedNodes c.view))] := by
    intro scopes hs
    simp only [claimScope, hget] at hs
    split at hs
    · cases hs
    · split at hs
      · cases hs
      · cases hs
        rfl
  cases hs : claimScope st pg.group pg.claim with
  | error why =>
    rw [hs] at h
    cases h
  | ok scopes =>
    simp only [hs, hscopes scopes hs, List.findSome?_cons, List.findSome?_nil] at h
    rw [driverNodeOf]
    cases hf : fit st pg.group pg.bundles (((st.clients.get pg.owner).map (·.nodeId)).getD "")
        (some (claimedNodes c.view)) with
    | none =>
      rw [hf] at h
      cases h
    | some a' =>
      rw [hf] at h
      cases h
      rfl

/-- What a group inside a solved claim is given: bundles on nodes of the claim, and in the members'
order when the claim has one. -/
theorem placementOf_fenced {t : Topology} {c : ClaimInfo} {req : Request} {sol : Solution}
    (hparse : ops.parse = parse) (hclaim : pg.claim ≠ "")
    (hget : st.claims.get (pg.group, pg.claim) = some c) (hs : SolvedOn t c req sol)
    (h : placementOf cfg ops st pg = .ok (island, a)) :
    ∃ bs : List BundleAssignment, a = bs.map some ∧ (∀ b ∈ bs, b.nodeId ∈ claimedNodes c.view) ∧
      ∀ set members, req.sets = [set] → set.layout.ordered = true →
        sol.sets.get set.name = some members →
        ∃ l, rankedMembers set.layout members (driverNodeOf st pg) = some l ∧
          Seated t set.layout bs l := by
  by_cases hone : ∃ set, req.sets = [set] ∧ set.layout.ordered = true
  · obtain ⟨set, hset, ho⟩ := hone
    obtain ⟨-, hsets, -⟩ := solve_sound hs.solved
    obtain ⟨-, -, members, -, -, hm⟩ := hsets set (by simp [hset])
    obtain ⟨hsome, hnone⟩ := claimOrder_solved (driverNodeOf st pg) hparse hget hs hset ho hm
    cases hr : rankedMembers set.layout members (driverNodeOf st pg) with
    | none =>
      obtain ⟨why, herr⟩ := hnone hr
      rw [placementOf_of_refused hclaim herr] at h
      cases h
    | some l =>
      rw [placementOf_of_order hclaim (hsome l hr)] at h
      cases hf : fitOrdered ops st pg.group pg.bundles (l.map (rankOf t set.layout)) with
      | error why =>
        rw [hf] at h
        cases h
      | ok a' =>
        rw [hf] at h
        cases h
        obtain ⟨bs, rfl, hseated⟩ := fitOrdered_seats hf
        refine ⟨bs, rfl, fun b hb => ?_, fun set' members' hset' _ hm' => ?_⟩
        · obtain ⟨i, hi, rfl⟩ := List.mem_iff_getElem.mp hb
          obtain ⟨m, hmem, hnode, -⟩ := Seated.member hseated (List.getElem?_eq_getElem hi)
          obtain ⟨m', hm', hsame⟩ := List.mem_map.mp ((rankedMembers_perm hr).subset
            (List.mem_map_of_mem (List.mem_of_getElem? hmem)))
          rw [hs.view, mem_claimedNodes]
          exact ⟨set.name, members, m', hm, hm', hsame.trans hnode.symm⟩
        · cases hset.symm.trans hset'
          cases hm.symm.trans hm'
          exact ⟨l, hr, hseated⟩
  · have hun := claimOrder_unordered (driverNodeOf st pg) hparse hget hs fun set hset =>
      Bool.eq_false_iff.mpr fun ho => hone ⟨set, hset, ho⟩
    obtain ⟨bs, rfl, hin⟩ := fit_inside (placementOf_of_scope hclaim hget hun h)
    exact ⟨bs, rfl, hin, fun set _ hset ho => absurd ⟨set, hset, ho⟩ hone⟩

end Placement

end Mentat
