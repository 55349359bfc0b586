import Mentat.Lib.Transition
import Mentat.Mesh.Election

/-!
# Agreement on a head

Daemons that are all linked to each other and know which head each of them follows have one
candidate between them. They commit it one at a time, in any order, and hear of each other's commits
late and in any order too. The candidate stays what it was for all of them (`mesh_agrees`), so the
heads come to rest at it.
-/

namespace Mentat

/-- Daemons that are all linked to each other, each with the head every other one follows. -/
structure Meshed (S : Finset NodeId) (views : NodeId → State) : Prop where
  self : ∀ d ∈ S, (views d).nodeId = d
  linked : ∀ d ∈ S, ∀ e, (∃ p, (views d).peers.get e = some p ∧ p.alive = true) ↔ e ∈ S ∧ e ≠ d
  knows : ∀ d ∈ S, ∀ e p, (views d).peers.get e = some p → p.alive = true →
    p.published = some (views e).headNodeId

/-- The daemons' states, and every head each has followed so far. A status push carries one of
them. -/
structure Commits where
  views : NodeId → State
  said : NodeId → List NodeId

inductive CommitStep where
  /-- The elector of a daemon commits its candidate. -/
  | commit (d : NodeId) (env : Env)
  /-- A daemon receives a status push of another, which may have been on its way for a while. -/
  | learn (d e : NodeId) (env : MeshEnv) (data : Value)

def commits (S : Finset NodeId) : System Commits CommitStep where
  init m := Meshed S m.views ∧ ∀ d ∈ S, m.said d = [(m.views d).headNodeId]
  next m
    | .commit d env =>
      let st := m.views d
      if d ∈ S ∧ headCandidate st ≠ st.headNodeId then
        some ⟨Function.update m.views d (elect env st (headCandidate st)),
          Function.update m.said d (headCandidate st :: m.said d)⟩
      else none
    | .learn d e env data =>
      if d ∈ S ∧ e ∈ S ∧ ((data.idx "head_node_id").asStr.any fun h => (m.said e).contains h) then
        let st := m.views d
        some ⟨Function.update m.views d { st with peers := peerStatus env st.peers e data }, m.said⟩
      else none

section Agreement

variable {S : Finset NodeId} {old : NodeId → NodeId} {h : NodeId}

/-- What singles `h` out among daemons that follow the heads `old`: the lowest live head that one of
them follows, or the lowest of them where none follows a live one. -/
def Chosen (S : Finset NodeId) (old : NodeId → NodeId) (h : NodeId) : Prop :=
  h ∈ S ∧ (∀ e ∈ S, old e ≠ "" → old e ∈ S → h ≤ old e) ∧
    ((h ≠ "" ∧ ∃ e ∈ S, old e = h) ∨
      (∀ e ∈ S, old e ≠ "" → old e ∉ S) ∧ ∀ e ∈ S, h ≤ e)

theorem exists_chosen (hS : S.Nonempty) (old : NodeId → NodeId) : ∃ h, Chosen S old h := by
  by_cases hlive : (S.filter fun e => old e ≠ "" ∧ old e ∈ S).Nonempty
  · obtain ⟨e, he, hmin⟩ := Finset.exists_min_image _ old hlive
    obtain ⟨heS, hne, hin⟩ := Finset.mem_filter.mp he
    refine ⟨old e, hin, fun x hx hxne hxS => ?_, .inl ⟨hne, e, heS, rfl⟩⟩
    exact hmin x (Finset.mem_filter.mpr ⟨hx, hxne, hxS⟩)
  · have hnone : ∀ e ∈ S, old e ≠ "" → old e ∉ S := fun e he hne hin =>
      hlive ⟨e, Finset.mem_filter.mpr ⟨he, hne, hin⟩⟩
    obtain ⟨h, hh, hmin⟩ := Finset.exists_min_image S id hS
    exact ⟨h, hh, fun e he hne hin => absurd hin (hnone e he hne), .inr ⟨hnone, hmin⟩⟩

/-- One of the daemons while they commit: it follows the head it began with or `h`, and that is what
it knows of each of the others. -/
structure Committing (S : Finset NodeId) (old : NodeId → NodeId) (h d : NodeId) (st : State)
    (said : List NodeId) : Prop where
  self : st.nodeId = d
  linked : ∀ e, (∃ p, st.peers.get e = some p ∧ p.alive = true) ↔ e ∈ S ∧ e ≠ d
  knows : ∀ e p, st.peers.get e = some p → p.alive = true →
    p.published = some (old e) ∨ p.published = some h
  head : st.headNodeId = old d ∨ st.headNodeId = h
  said : ∀ x ∈ said, x = old d ∨ x = h

namespace Committing

variable {d : NodeId} {st : State} {said : List NodeId}

theorem counts (hm : Committing S old h d st said) (hd : d ∈ S) {e : NodeId} :
    st.counts e = true ↔ e ∈ S := by
  rw [counts_iff, hm.self, hm.linked e]
  by_cases he : e = d
  · simp [he, hd]
  · simp [he]

/-- A head a daemon hears of is `h`, or a live one that some daemon began with. -/
theorem claimed (hm : Committing S old h d st said) (hd : d ∈ S) {x : NodeId}
    (hx : x ∈ st.claimed) : x ≠ "" ∧ x ∈ S ∧ (x = h ∨ ∃ e ∈ S, old e = x) := by
  obtain ⟨hne, hc, hof⟩ := mem_claimed.mp hx
  refine ⟨hne, (hm.counts hd).mp hc, ?_⟩
  rcases hof with rfl | ⟨e, p, hp, hl, hpub⟩
  · rcases hm.head with he | he
    · exact .inr ⟨d, hd, he.symm⟩
    · exact .inl he
  · rcases hm.knows e p hp hl with he | he
    · exact .inr ⟨e, ((hm.linked e).mp ⟨p, hp, hl⟩).1, Option.some.inj (he.symm.trans hpub)⟩
    · exact .inl (Option.some.inj (hpub.symm.trans he))

/-- Its candidate is the chosen head. -/
theorem candidate (hm : Committing S old h d st said) (hch : Chosen S old h) (hd : d ∈ S) :
    headCandidate st = h := by
  obtain ⟨hS, hlow, hcase⟩ := hch
  have hle : ∀ x ∈ st.claimed, h ≤ x := by
    intro x hx
    obtain ⟨hne, hxS, rfl | ⟨e, he, rfl⟩⟩ := hm.claimed hd hx
    · exact le_rfl
    · exact hlow e he hne hxS
  rcases hcase with ⟨hne, e, he, hold⟩ | ⟨hnone, hlowest⟩
  · -- The daemon that began with `h` names it still.
    refine headCandidate_eq_of_claimed (mem_claimed.mpr ⟨hne, (hm.counts hd).mpr hS, ?_⟩) hle
    by_cases hed : e = d
    · subst hed
      rcases hm.head with hh | hh
      · exact .inl (hold.symm.trans hh.symm)
      · exact .inl hh.symm
    · obtain ⟨p, hp, hl⟩ := (hm.linked e).mpr ⟨he, hed⟩
      refine .inr ⟨e, p, hp, hl, ?_⟩
      rcases hm.knows e p hp hl with hk | hk
      · rw [hk, hold]
      · exact hk
  · -- No head is claimed but `h` itself, once it has been committed.
    by_cases hnil : st.claimed = []
    · refine headCandidate_eq_of_lowest hnil ((hm.counts hd).mpr hS) fun x hx => ?_
      exact hlowest x ((hm.counts hd).mp hx)
    · obtain ⟨x, hx⟩ := List.exists_mem_of_ne_nil _ hnil
      obtain ⟨hne, hxS, rfl | ⟨e, he, rfl⟩⟩ := hm.claimed hd hx
      · exact headCandidate_eq_of_claimed hx hle
      · exact absurd hxS (hnone e he hne)

theorem commit (hm : Committing S old h d st said) (env : Env) :
    Committing S old h d (elect env st h) (h :: said) := by
  obtain ⟨hnode, hpeers, hhead⟩ := elect_mesh env st h
  refine ⟨by rw [hnode, hm.self], ?_, ?_, .inr hhead, fun x hx => ?_⟩
  · rw [hpeers]
    exact hm.linked
  · rw [hpeers]
    exact hm.knows
  · rcases List.mem_cons.mp hx with rfl | hx
    · exact .inr rfl
    · exact hm.said x hx

theorem learn (hm : Committing S old h d st said) (env : MeshEnv) {e : NodeId} {data : Value}
    (hdata : (data.idx "head_node_id").asStr = some (old e) ∨
      (data.idx "head_node_id").asStr = some h) :
    Committing S old h d { st with peers := peerStatus env st.peers e data } said := by
  -- The push replaces what is known of its sender, and leaves every link as it is.
  refine ⟨hm.self, fun x => ?_, fun x p' hp' hl => ?_, hm.head, hm.said⟩
  · rw [← hm.linked x]
    exact peerStatus_alive
  · obtain ⟨p, hp, hal, -, ⟨rfl, hst⟩ | ⟨-, rfl⟩⟩ := peerStatus_get hp'
    · rw [PeerInfo.published, hst]
      exact hdata
    · exact hm.knows x p' hp hl

end Committing

/-- What one step does to the daemons. -/
theorem commits_step (hch : Chosen S old h) {m m' : Commits} {a : CommitStep}
    (hm : ∀ d ∈ S, Committing S old h d (m.views d) (m.said d)) (hs : (commits S).next m a = some m') :
    ∀ d ∈ S, Committing S old h d (m'.views d) (m'.said d) := by
  cases a with
  | commit d env =>
    simp only [commits] at hs
    split at hs
    · next hd =>
      cases hs
      intro e he
      by_cases hed : e = d
      · subst hed
        rw [(hm e he).candidate hch he]
        simpa using (hm e he).commit env
      · simpa [Function.update_of_ne hed] using hm e he
    · cases hs
  | learn d e env data =>
    simp only [commits] at hs
    split at hs
    · next hd =>
      cases hs
      intro x hx
      by_cases hxd : x = d
      · subst hxd
        simp only [Function.update_self]
        refine (hm x hx).learn env ?_
        obtain ⟨y, hy, hsaid⟩ := (Option.any_eq_true _ _).mp hd.2.2
        rw [hy]
        rcases (hm e hd.2.1).said y (by simpa using hsaid) with rfl | rfl
        · exact .inl rfl
        · exact .inr rfl
      · simpa [Function.update_of_ne hxd] using hm x hx
    · cases hs

/-- Daemons that are all linked to each other and know each other's heads agree on a live head. While
they commit it, whatever the order and however late they hear of it, it stays the candidate of all of
them, and no daemon turns to another head. Once all follow it nothing is left to commit. -/
theorem mesh_agrees (hS : S.Nonempty) {m0 : Commits} (h0 : (commits S).init m0) :
    ∃ h ∈ S, (∀ d ∈ S, headCandidate (m0.views d) = h) ∧
      ∀ trace m, (commits S).run System.Free m0 trace = some m →
        (∀ d ∈ S, headCandidate (m.views d) = h ∧
          ((m.views d).headNodeId = h ∨ (m.views d).headNodeId = (m0.views d).headNodeId)) ∧
        ((∀ d ∈ S, (m.views d).headNodeId = h) →
          ∀ d env, (commits S).next m (.commit d env) = none) := by
  obtain ⟨hmesh, hsaid⟩ := h0
  obtain ⟨h, hch⟩ := exists_chosen hS fun d => (m0.views d).headNodeId
  have hinit : ∀ d ∈ S, Committing S (fun d => (m0.views d).headNodeId) h d (m0.views d)
      (m0.said d) := by
    intro d hd
    refine ⟨hmesh.self d hd, hmesh.linked d hd, fun e p hp hl => .inl (hmesh.knows d hd e p hp hl),
      .inl rfl, fun x hx => .inl ?_⟩
    rw [hsaid d hd] at hx
    exact List.mem_singleton.mp hx
  refine ⟨h, hch.1, fun d hd => (hinit d hd).candidate hch hd, fun trace m hrun => ?_⟩
  have hm := System.run_keeps (I := fun m : Commits => ∀ d ∈ S, Committing S
    (fun d => (m0.views d).headNodeId) h d (m.views d) (m.said d)) hrun hinit
    fun _ _ _ hm _ hs => commits_step hch hm hs
  refine ⟨fun d hd => ⟨(hm d hd).candidate hch hd, (hm d hd).head.symm⟩, fun hall d env => ?_⟩
  simp only [commits]
  rw [if_neg]
  rintro ⟨hd, hne⟩
  exact hne (((hm d hd).candidate hch hd).trans (hall d hd).symm)

end Agreement

namespace Sample

/-- A live peer whose last status named a head. -/
def peerNaming (head : NodeId) : PeerInfo where
  nodeIp := "10.0.0.2"
  controlPort := 7070
  alive := true
  addrs := []
  addrTags := ∅
  addrIfaces := ∅
  probePairs := ∅
  lastStatus := .obj [("head_node_id", .str head)]
  outbound := true
  linkIp := "10.0.0.2"
  addrMacs := ∅
  httpPort := 8080
  writer := 0
  lastSeenMs := 0
  deadSinceMs := none
  stale := false

/-- A daemon with one peer. -/
def oneOfTwo (id head other otherHead : NodeId) : State :=
  { State.new id "10.0.0.1" "10.0.0.1:7070" with
    headNodeId := head
    peers := (∅ : Peers).set other (peerNaming otherHead) }

/-- Two daemons that follow each other. -/
def crossed : Commits where
  views d := if d = "a" then oneOfTwo "a" "b" "b" "a" else oneOfTwo "b" "a" "a" "b"
  said d := if d = "a" then ["b"] else ["a"]

end Sample

/-- Two daemons that follow each other settle on one of them. -/
theorem mesh_agrees_crossed : ∃ h ∈ ({"a", "b"} : Finset NodeId),
    headCandidate (Sample.crossed.views "a") = h ∧ headCandidate (Sample.crossed.views "b") = h := by
  have hget : ∀ (id head other otherHead e : NodeId),
      (Sample.oneOfTwo id head other otherHead).peers.get e =
        if e = other then some (Sample.peerNaming otherHead) else none := by
    intro id head other otherHead e
    exact Table.get_set _ _ _ _
  have hinit : (commits {"a", "b"}).init Sample.crossed := by
    refine ⟨⟨by decide, fun d hd e => ?_, fun d hd e p hp _ => ?_⟩, by decide⟩ <;>
      rcases (by simpa using hd : d = "a" ∨ d = "b") with rfl | rfl
    · change (∃ p, (Sample.oneOfTwo "a" "b" "b" "a").peers.get e = some p ∧ _) ↔ _
      rw [hget]
      by_cases he : e = "b" <;> simp [he, Sample.peerNaming]
    · change (∃ p, (Sample.oneOfTwo "b" "a" "a" "b").peers.get e = some p ∧ _) ↔ _
      rw [hget]
      by_cases he : e = "a" <;> simp [he, Sample.peerNaming]
    · change (Sample.oneOfTwo "a" "b" "b" "a").peers.get e = some p at hp
      rw [hget] at hp
      by_cases he : e = "b"
      · subst he
        cases hp
        rfl
      · simp [he] at hp
    · change (Sample.oneOfTwo "b" "a" "a" "b").peers.get e = some p at hp
      rw [hget] at hp
      by_cases he : e = "a"
      · subst he
        cases hp
        rfl
      · simp [he] at hp
  obtain ⟨h, hh, hall, -⟩ := mesh_agrees ⟨"a", by simp⟩ hinit
  exact ⟨h, hh, hall "a" (by simp), hall "b" (by simp)⟩

end Mentat
