import Mentat.Daemon.Lifecycle
import Mentat.Mesh.Peers

/-!
# Head election

`mesh.rs`, `head_candidate` and `elector`. A daemon follows the lowest head that it or a live peer
names and that is alive, and the lowest live id where there is none. `headCandidate_spec` is that
rule. The elector commits the candidate after a hold-down (`electorTick_cases`).
-/

namespace Mentat

/-! ## The rule -/

/-- Whether a daemon takes a node for alive. -/
def State.counts (st : State) (id : NodeId) : Bool :=
  id == st.nodeId || (st.peers.get id).any (·.alive)

/-- The heads a daemon hears of that are alive: those its live peers name, and its own. -/
def State.claimed (st : State) : List NodeId :=
  ((st.peers.values.filter (·.alive)).filterMap (·.published)).filter
      (fun h => h != "" && st.counts h) ++
    if st.headNodeId != "" && st.counts st.headNodeId then [st.headNodeId] else []

/-- The head this daemon should follow. -/
def headCandidate (st : State) : NodeId :=
  match st.claimed.min? with
  | some h => h
  | none => (((st.peers.rows.filter fun r => r.2.alive).map (·.1) ++ [st.nodeId]).min?).getD ""

section Candidate

variable {st : State} {h : NodeId}

theorem counts_iff : st.counts h = true ↔
    h = st.nodeId ∨ ∃ p, st.peers.get h = some p ∧ p.alive = true := by
  simp [State.counts, Option.any_eq_true]

theorem mem_claimed : h ∈ st.claimed ↔ h ≠ "" ∧ st.counts h = true ∧
    (h = st.headNodeId ∨
      ∃ id p, st.peers.get id = some p ∧ p.alive = true ∧ p.published = some h) := by
  simp only [State.claimed, List.mem_append, List.mem_filter, List.mem_filterMap, Table.mem_values,
    Bool.and_eq_true, bne_iff_ne]
  constructor
  · rintro (⟨⟨p, ⟨⟨id, hp⟩, hl⟩, hpub⟩, hne, hc⟩ | hown)
    · exact ⟨hne, hc, .inr ⟨id, p, hp, hl, hpub⟩⟩
    · split at hown
      · next hc =>
        cases List.mem_singleton.mp hown
        exact ⟨hc.1, hc.2, .inl rfl⟩
      · cases hown
  · rintro ⟨hne, hc, rfl | ⟨id, p, hp, hl, hpub⟩⟩
    · right
      rw [if_pos ⟨hne, hc⟩]
      exact List.mem_singleton_self _
    · exact .inl ⟨⟨p, ⟨⟨id, hp⟩, hl⟩, hpub⟩, hne, hc⟩

/-- The candidate is the lowest head that is claimed, or the lowest node that is alive where none
is. -/
theorem headCandidate_spec (st : State) :
    (st.claimed ≠ [] → headCandidate st ∈ st.claimed ∧ ∀ h ∈ st.claimed, headCandidate st ≤ h) ∧
    (st.claimed = [] → st.counts (headCandidate st) = true ∧
      ∀ h, st.counts h = true → headCandidate st ≤ h) := by
  unfold headCandidate
  constructor
  · intro hne
    cases hmin : st.claimed.min? with
    | none => exact absurd (List.min?_eq_none_iff.mp hmin) hne
    | some h => exact List.min?_eq_some_iff.mp hmin
  · intro hnil
    have hmem : ∀ h, h ∈ (st.peers.rows.filter fun r => r.2.alive).map (·.1) ++ [st.nodeId] ↔
        st.counts h = true := by
      intro h
      rw [counts_iff]
      simp only [List.mem_append, List.mem_map, List.mem_filter, Prod.exists, Table.mem_rows,
        List.mem_singleton]
      constructor
      · rintro (⟨id, p, ⟨hp, hl⟩, rfl⟩ | rfl)
        · exact .inr ⟨p, hp, hl⟩
        · exact .inl rfl
      · rintro (rfl | ⟨p, hp, hl⟩)
        · exact .inr rfl
        · exact .inl ⟨h, p, ⟨hp, hl⟩, rfl⟩
    rw [hnil]
    simp only [List.min?_nil]
    cases hmin : ((st.peers.rows.filter fun r => r.2.alive).map (·.1) ++ [st.nodeId]).min? with
    | none =>
      rw [List.min?_eq_none_iff] at hmin
      simp at hmin
    | some h =>
      obtain ⟨hin, hle⟩ := List.min?_eq_some_iff.mp hmin
      exact ⟨(hmem h).mp hin, fun x hx => hle x ((hmem x).mpr hx)⟩

/-- What makes a node the candidate where heads are claimed. -/
theorem headCandidate_eq_of_claimed (hin : h ∈ st.claimed) (hle : ∀ x ∈ st.claimed, h ≤ x) :
    headCandidate st = h := by
  obtain ⟨hmem, hmin⟩ := (headCandidate_spec st).1 (List.ne_nil_of_mem hin)
  exact le_antisymm (hmin h hin) (hle _ hmem)

/-- And where none is. -/
theorem headCandidate_eq_of_lowest (hnil : st.claimed = []) (hc : st.counts h = true)
    (hle : ∀ x, st.counts x = true → h ≤ x) : headCandidate st = h := by
  obtain ⟨hmem, hmin⟩ := (headCandidate_spec st).2 hnil
  exact le_antisymm (hmin h hc) (hle _ hmem)

end Candidate

/-! ## The elector -/

/-- What the elector remembers between ticks: whether it has heard a peer or stopped waiting to, and
since when the candidate has stood. -/
structure Elector where
  heard : Bool
  candidateSince : Option (NodeId × Nat)

/-- One tick. `boot` is when the elector started. -/
def electorTick (cfg : MeshCfg) (boot : Nat) (env : Env) (e : Elector) (st : State) :
    Elector × State :=
  let hears := st.peers.values.any fun p => p.alive && p.lastStatus != .null
  if !e.heard && !hears && env.now - boot < cfg.electionBootWaitMs then (e, st)
  else
    let e := { e with heard := true }
    let candidate := headCandidate st
    if candidate = st.headNodeId then ({ e with candidateSince := none }, st)
    else match e.candidateSince with
    | some (c, since) =>
      if c = candidate then
        if cfg.electionHoldDownMs ≤ env.now - since then
          ({ e with candidateSince := none }, elect env st candidate)
        else (e, st)
      else ({ e with candidateSince := some (candidate, env.now) }, st)
    | none => ({ e with candidateSince := some (candidate, env.now) }, st)

/-- A tick leaves the state alone or commits the candidate, which is then another head. -/
theorem electorTick_cases (cfg : MeshCfg) (boot : Nat) (env : Env) (e : Elector) (st : State) :
    (electorTick cfg boot env e st).2 = st ∨
      (headCandidate st ≠ st.headNodeId ∧
        (electorTick cfg boot env e st).2 = elect env st (headCandidate st)) := by
  unfold electorTick
  simp only
  split
  · exact .inl rfl
  · split
    · exact .inl rfl
    · next hne =>
      split
      · split
        · split
          · exact .inr ⟨hne, rfl⟩
          · exact .inl rfl
        · exact .inl rfl
      · exact .inl rfl

/-- What the election reads of a state after a commit. -/
theorem elect_mesh (env : Env) (st : State) (candidate : NodeId) :
    (elect env st candidate).nodeId = st.nodeId ∧ (elect env st candidate).peers = st.peers ∧
      (elect env st candidate).headNodeId = candidate := by
  rcases elect_frame env st candidate with ⟨_, _, _, _, h⟩ | ⟨_, _, _, _, h⟩ <;>
    rw [h] <;> exact ⟨rfl, rfl, rfl⟩

end Mentat
