import Mentat.Daemon.Section
import Mentat.Claim.Panics

/-!
# A claim request and the daemon's mutex

`daemon.rs` answers a claim with the state locked. A panic there leaves the mutex poisoned, and every
other thread unwraps it. `claim_returns_iff` says which requests are answered.
-/

namespace Mentat

namespace Checked

variable (host : State → LocalHost) (ord : HashOrder) (nodeIpOf : NodeId → Option String) (size : Nat)

/-- `claim`, with the panics of what it calls. -/
def claim (st : State) (client : ClientId) (name : String) (shape : Value) :
    Except Crash (State × Reply) :=
  let group := clientGroup st client
  if name.toList.all isWhiteSpace then
    .ok (st, .refused "bad_claim_name" "a claim needs a name")
  else if st.headNodeId ≠ st.nodeId then
    let addr := ((st.peers.get st.headNodeId).map fun p =>
      p.nodeIp ++ ":" ++ toString p.controlPort).getD ""
    .ok (st, .refused "not_head"
      ("this node is not the head. Send claims to " ++ st.headNodeId ++ " at " ++ addr))
  else match st.claims.get (group, name) with
  | some c => do
    let shape ← canonical size shape
    if c.shape ≠ shape then
      .ok (st, .refused "shape_conflict"
        ("claim " ++ debugStr name ++ " is held for a different shape. Use another name"))
    else
      .ok ({ st with claims := st.claims.modify (group, name) fun c =>
          { c with holders := insert client c.holders } }, .claimOk c.generation c.view)
  | none => do
    match ← (parse shape).run with
    | .error e => .ok (st, .refused "bad_shape" e)
    | .ok req =>
      let topo := topology (host st) ord st
      match ← (solve topo req).run with
      | .error e => .ok (st, .refused "unsolvable_claim" e)
      | .ok solution =>
        let generation := st.claimGeneration + 1
        let view := solution.toJson topo
        let shape ← canonical size shape
        let info : ClaimInfo := ⟨shape, view, generation, {client}⟩
        let st := { st with
          claimGeneration := generation
          claims := st.claims.set (group, name) info }
        .ok (st.emitPatch "claim_solved" [.set (claimPath group name) (.claim (claimRow info))] "",
          .claimOk generation view)

end Checked

/-- The request is refused before its shape is expanded, or its counts fit. A shape is parsed on a
name that is not held, and made canonical where a claim is compared or kept. -/
def FitsInMemory (host : State → LocalHost) (ord : HashOrder) (size : Nat) (st : State)
    (client : ClientId) (name : String) (shape : Value) : Prop :=
  name.toList.all isWhiteSpace = true ∨ st.headNodeId ≠ st.nodeId ∨
    if st.claims.has (clientGroup st client, name) then shape.overCount size false = false
    else parseOver shape = false ∧
      (shape.overCount size false = false ∨ ∀ req sol, parse shape = .ok req →
        solve (topology (host st) ord st) req ≠ .ok sol)

variable {host : State → LocalHost} {ord : HashOrder} {nodeIpOf : NodeId → Option String} {size : Nat}
  {st : State} {client : ClientId} {name : String} {shape : Value}

/-- A request whose counts fit is answered as `claim` has it. -/
theorem Checked.claim_eq (h : FitsInMemory host ord size st client name shape) :
    Checked.claim host ord size st client name shape =
      .ok (Mentat.claim (claimOps host ord nodeIpOf) st client name shape) := by
  unfold Checked.claim Mentat.claim
  by_cases hblank : name.toList.all isWhiteSpace = true
  · simp only [if_pos hblank]
  · by_cases hhead : st.headNodeId ≠ st.nodeId
    · simp only [if_neg hblank, if_pos hhead]
    · have hfits := (h.resolve_left hblank).resolve_left hhead
      simp only [if_neg hblank, if_neg hhead]
      cases hget : st.claims.get (clientGroup st client, name) with
      | some c =>
        rw [Table.has, hget, Option.isSome_some, if_pos rfl] at hfits
        simp only [canonical_eq, hfits, bind, Except.bind]
        show (if c.shape ≠ Mentat.canonical shape then _ else _) =
          Except.ok (if c.shape ≠ Mentat.canonical shape then _ else _)
        split <;> rfl
      | none =>
        rw [Table.has, hget, Option.isSome_none, if_neg Bool.false_ne_true] at hfits
        have hread : (Checked.parse shape).run = .ok (Mentat.parse shape) := by
          rw [parse_eq, hfits.1]
          rfl
        simp only [hread, claimOps]
        cases hparse : Mentat.parse shape with
        | error e => rfl
        | ok req =>
          have hsolved : (Checked.solve (topology (host st) ord st) req).run =
              .ok (Mentat.solve (topology (host st) ord st) req) := by
            rw [solve_eq]
            rfl
          simp only [bind, Except.bind, hsolved]
          cases hsolve : Mentat.solve (topology (host st) ord st) req with
          | error e => rfl
          | ok sol =>
            have hcount := hfits.2.resolve_right fun hno => hno req sol hparse hsolve
            simp only [canonical_eq, hcount]
            rfl

/-- Any other request panics. -/
theorem Checked.claim_panics (h : ¬FitsInMemory host ord size st client name shape) :
    Checked.claim host ord size st client name shape = .error .capacity := by
  simp only [FitsInMemory, not_or, not_not] at h
  obtain ⟨hblank, hhead, hover⟩ := h
  unfold Checked.claim
  simp only [if_neg hblank, ne_eq, not_true, hhead, if_false]
  cases hget : st.claims.get (clientGroup st client, name) with
  | some c =>
    rw [Table.has, hget, Option.isSome_some, if_pos rfl, Bool.not_eq_false] at hover
    simp only [canonical_eq, hover, if_true, bind, Except.bind]
  | none =>
    rw [Table.has, hget, Option.isSome_none, if_neg Bool.false_ne_true] at hover
    cases hparseOver : parseOver shape with
    | true =>
      simp only [parse_eq, hparseOver, if_true]
      rfl
    | false =>
      simp only [hparseOver, true_and, not_or, Bool.not_eq_false, not_forall, not_not] at hover
      obtain ⟨hcount, req, sol, hparse, hsolve⟩ := hover
      have hread : (Checked.parse shape).run = .ok (.ok req) := by
        rw [parse_eq, hparseOver, hparse]
        rfl
      have hsolved : (Checked.solve (topology (host st) ord st) req).run = .ok (.ok sol) := by
        rw [solve_eq, hsolve]
        rfl
      simp only [hread, hsolved, canonical_eq, hcount, if_true, bind, Except.bind]

/-- A claim request is answered exactly when its counts fit where they are expanded. -/
theorem claim_returns_iff (host : State → LocalHost) (ord : HashOrder) (size : Nat) (st : State)
    (client : ClientId) (name : String) (shape : Value) :
    (∃ r, Checked.claim host ord size st client name shape = .ok r) ↔
      FitsInMemory host ord size st client name shape := by
  constructor
  · rintro ⟨r, hr⟩
    by_contra h
    rw [Checked.claim_panics h] at hr
    cases hr
  · exact fun h => ⟨_, @Checked.claim_eq _ _ (fun _ => none) _ _ _ _ _ h⟩

/-- A count that no vector holds, asked of a daemon that is the head. -/
theorem huge_claim_panics : Checked.claim (fun _ => ⟨"", [], ∅, ∅⟩) .insertion 32
    { Sample.boot with headNodeId := "n:1" } "d" "tp"
    (setOfBundles (.num (.uint (2 ^ 64 - 1)))) = .error .capacity := by
  refine Checked.claim_panics ?_
  have hover : parseOver (setOfBundles (.num (.uint (2 ^ 64 - 1)))) = true := by decide +kernel
  rintro (hblank | hhead | hfits)
  · exact absurd hblank (by decide +kernel)
  · exact hhead rfl
  · rw [if_neg (by decide +kernel), hover] at hfits
    exact Bool.false_ne_true hfits.1.symm

end Mentat
