import Mentat.Lib.Transition
import Mentat.Mesh.Peers

/-!
# One link between two daemons

Two daemons and the links that either of them has dialed to the other. Each end registers each link
once, in an order of its own. An end that refuses a link, or replaces one, closes it, and the other
end learns of that when it comes to read there.

The rule is that the link the lower node id dialed wins. It says nothing of two links dialed by the
same side: each end keeps the one it registered first. `pair_agrees_iff`: the two ends come to hold
the same link, whatever the orders, exactly when the side that wins has dialed one link. With two,
each end may keep a link that the other has closed, and then neither has one left.
-/

namespace Mentat

inductive End where
  | lower
  | upper
deriving DecidableEq, Repr

def End.other : End → End
  | .lower => .upper
  | .upper => .lower

/-- The node ids of two daemons, in order. -/
structure Ids where
  lo : NodeId
  hi : NodeId
  lt : lo < hi

def Ids.of (ids : Ids) : End → NodeId
  | .lower => ids.lo
  | .upper => ids.hi

/-- The links there are, and which end dialed each. -/
structure Dialed where
  links : Finset FrameWriter
  by_ : FrameWriter → End

structure Pair where
  peers : End → Peers
  registered : End → List FrameWriter
  /-- The links an end has taken and reads from. -/
  reading : End → List FrameWriter
  /-- The links that an end has closed. -/
  closed : List FrameWriter

inductive PairStep where
  /-- `p` is what the hello of the other end and the link say. -/
  | register (e : End) (env : MeshEnv) (w : FrameWriter) (p : PeerIdent)
  /-- The end reads that a link has been closed. -/
  | eof (e : End) (env : MeshEnv) (w : FrameWriter)

def pair (ids : Ids) (D : Dialed) : System Pair PairStep where
  init m := ∀ e, m.peers e = ∅ ∧ m.registered e = [] ∧ m.reading e = [] ∧ m.closed = []
  next m
    | .register e env w p =>
      if w ∈ D.links ∧ w ∉ m.registered e ∧ p.nodeId = ids.of e.other ∧
          p.outbound = decide (D.by_ w = e) then
        let registered := Function.update m.registered e (w :: m.registered e)
        match registerPeer env (ids.of e) (m.peers e) p w with
        | none => some { m with registered := registered, closed := w :: m.closed }
        | some (peers, shut) =>
          some ⟨Function.update m.peers e peers, registered,
            Function.update m.reading e (w :: m.reading e), shut.toList ++ m.closed⟩
      else none
    | .eof e env w =>
      if w ∈ m.reading e ∧ w ∈ m.closed then
        some { m with
          peers := Function.update m.peers e (peerClosed env (m.peers e) (ids.of e.other) w)
          reading := Function.update m.reading e ((m.reading e).filter (· ≠ w)) }
      else none

namespace Pair

/-- Every link has been registered at both ends, and every close has been noticed. -/
def Done (D : Dialed) (m : Pair) : Prop :=
  ∀ e, ∀ w ∈ D.links, w ∈ m.registered e ∧ (w ∈ m.reading e → w ∉ m.closed)

/-- The end holds the link. -/
def Holds (ids : Ids) (m : Pair) (e : End) (w : FrameWriter) : Prop :=
  ∃ row, (m.peers e).get (ids.of e.other) = some row ∧ row.alive = true ∧ row.writer = w

/-- Both ends hold one and the same link, one that the lower end dialed if it dialed any. -/
def Agrees (ids : Ids) (D : Dialed) (m : Pair) : Prop :=
  ∃ w ∈ D.links, (∀ e, m.Holds ids e w) ∧
    ((∃ w' ∈ D.links, D.by_ w' = .lower) → D.by_ w = .lower)

end Pair

/-- The link was dialed by the side that wins: the lower one, or the upper where the lower has dialed
none. -/
def Dialed.Best (D : Dialed) (w : FrameWriter) : Prop :=
  D.by_ w = .lower ∨ ∀ w' ∈ D.links, D.by_ w' = .upper

/-- The side that wins has dialed one link at most. -/
def Dialed.OneBest (D : Dialed) : Prop :=
  ∀ w ∈ D.links, ∀ w' ∈ D.links, D.Best w → D.Best w' → w = w'

section Ids

variable {ids : Ids} {D : Dialed}

/-- Who dialed a link, as either end works it out. -/
theorem dialer_eq (ids : Ids) (e x : End) :
    dialer (ids.of e) (ids.of e.other) (decide (x = e)) = ids.of x := by
  cases e <;> cases x <;> rfl

theorem Ids.of_le (ids : Ids) {x y : End} : ids.of x ≤ ids.of y ↔ x = .lower ∨ y = .upper := by
  cases x <;> cases y <;> simp [Ids.of, ids.lt.le, ids.lt.not_ge]

/-- Some link wins, if there is any. -/
theorem Dialed.exists_best (h : D.links.Nonempty) : ∃ w ∈ D.links, D.Best w ∧
    ((∃ w' ∈ D.links, D.by_ w' = .lower) → D.by_ w = .lower) := by
  by_cases hlow : ∃ w ∈ D.links, D.by_ w = .lower
  · obtain ⟨w, hw, hby⟩ := hlow
    exact ⟨w, hw, .inl hby, fun _ => hby⟩
  · obtain ⟨w, hw⟩ := h
    refine ⟨w, hw, .inr fun w' hw' => ?_, fun hl => absurd hl hlow⟩
    cases hby : D.by_ w' with
    | lower => exact absurd ⟨w', hw', hby⟩ hlow
    | upper => rfl

/-- No link beats one that wins. -/
theorem Dialed.Best.le (ids : Ids) {w w' : FrameWriter} (hb : D.Best w) (hw' : w' ∈ D.links) :
    ids.of (D.by_ w) ≤ ids.of (D.by_ w') := by
  rw [Ids.of_le]
  rcases hb with hlow | hup
  · exact .inl hlow
  · exact .inr (hup w' hw')

/-- Only a link that wins is dialed by as low an id. -/
theorem Dialed.Best.of_le {ids : Ids} {w w' : FrameWriter} (hb : D.Best w)
    (hle : ids.of (D.by_ w') ≤ ids.of (D.by_ w)) : D.Best w' := by
  rcases hb with hlow | hup
  · rw [Ids.of_le, hlow] at hle
    exact .inl (hle.resolve_right (by simp))
  · exact .inr hup

end Ids

namespace Pair

variable {ids : Ids} {D : Dialed} {m m' : Pair} {M : FrameWriter}

theorem registers_cases {e : End} {env : MeshEnv} {w : FrameWriter} {p : PeerIdent}
    (h : (pair ids D).next m (.register e env w p) = some m') :
    w ∈ D.links ∧ w ∉ m.registered e ∧ p.nodeId = ids.of e.other ∧
      p.outbound = decide (D.by_ w = e) ∧
      m'.registered = Function.update m.registered e (w :: m.registered e) ∧
      ((registerPeer env (ids.of e) (m.peers e) p w = none ∧ m'.peers = m.peers ∧
          m'.reading = m.reading ∧ m'.closed = w :: m.closed) ∨
        ∃ peers shut, registerPeer env (ids.of e) (m.peers e) p w = some (peers, shut) ∧
          m'.peers = Function.update m.peers e peers ∧
          m'.reading = Function.update m.reading e (w :: m.reading e) ∧
          m'.closed = shut.toList ++ m.closed) := by
  simp only [pair] at h
  split at h
  · next hok =>
    refine ⟨hok.1, hok.2.1, hok.2.2.1, hok.2.2.2, ?_⟩
    split at h <;> cases h
    · next hreg => exact ⟨rfl, .inl ⟨hreg, rfl, rfl, rfl⟩⟩
    · next peers shut hreg => exact ⟨rfl, .inr ⟨peers, shut, hreg, rfl, rfl, rfl⟩⟩
  · cases h

theorem eof_cases {e : End} {env : MeshEnv} {w : FrameWriter}
    (h : (pair ids D).next m (.eof e env w) = some m') :
    w ∈ m.closed ∧ m'.registered = m.registered ∧ m'.closed = m.closed ∧
      m'.peers = Function.update m.peers e (peerClosed env (m.peers e) (ids.of e.other) w) ∧
      m'.reading = Function.update m.reading e ((m.reading e).filter (· ≠ w)) := by
  simp only [pair] at h
  split at h
  · next hok =>
    cases h
    exact ⟨hok.2, rfl, rfl, rfl, rfl⟩
  · cases h

theorem mem_registered {e x : End} {v w : FrameWriter} {reg : End → List FrameWriter}
    (h : v ∈ reg x) : v ∈ Function.update reg e (w :: reg e) x := by
  by_cases hx : x = e
  · subst hx
    simp [h]
  · simpa [hx] using h

theorem mem_of_registered {e x : End} {v w : FrameWriter} {reg : End → List FrameWriter}
    (h : v ∈ Function.update reg e (w :: reg e) x) (hne : x = e → v ≠ w) : v ∈ reg x := by
  by_cases hx : x = e
  · subst hx
    simpa [hne rfl] using h
  · simpa [hx] using h

/-- An end that takes a link holds it from then on. -/
theorem holds_taken {e : End} {env : MeshEnv} {w : FrameWriter} {p : PeerIdent} {peers : Peers}
    {shut : Option FrameWriter} (hid : p.nodeId = ids.of e.other)
    (hreg : registerPeer env (ids.of e) (m.peers e) p w = some (peers, shut))
    (hp : m'.peers = Function.update m.peers e peers) : m'.Holds ids e w := by
  obtain ⟨row, hrow, hal, -, hw, -⟩ := registerPeer_self hreg
  refine ⟨row, ?_, hal, hw⟩
  rw [hp, Function.update_self, ← hid]
  exact hrow

/-- A live row stands for a registered link, and says who dialed it. -/
def Rows (ids : Ids) (D : Dialed) (m : Pair) : Prop :=
  ∀ e row, (m.peers e).get (ids.of e.other) = some row → row.alive = true →
    row.writer ∈ D.links ∧ row.writer ∈ m.registered e ∧
      row.outbound = decide (D.by_ row.writer = e)

theorem rows_step {a : PairStep} (h : m.Rows ids D) (hs : (pair ids D).next m a = some m') :
    m'.Rows ids D := by
  intro x row hrow hal
  cases a with
  | register e env w p =>
    obtain ⟨hw, -, hid, hout, hregs, ⟨-, hp, -⟩ | ⟨peers, shut, hreg, hp, -⟩⟩ := registers_cases hs
    · rw [hp] at hrow
      obtain ⟨hmem, hin, hby⟩ := h x row hrow hal
      exact ⟨hmem, hregs ▸ mem_registered hin, hby⟩
    · by_cases hx : x = e
      · subst hx
        obtain ⟨row', hrow', -, hout', hw', -⟩ := registerPeer_self hreg
        rw [hp, Function.update_self, ← hid, hrow'] at hrow
        cases hrow
        rw [hregs, hw', hout', hout]
        exact ⟨hw, by simp, rfl⟩
      · rw [hp, Function.update_of_ne hx] at hrow
        obtain ⟨hmem, hin, hby⟩ := h x row hrow hal
        exact ⟨hmem, hregs ▸ mem_registered hin, hby⟩
  | eof e env w =>
    obtain ⟨-, hregs, -, hp, -⟩ := eof_cases hs
    rw [hregs]
    by_cases hx : x = e
    · subst hx
      rw [hp, Function.update_self] at hrow
      exact h x row (peerClosed_alive hrow hal).1 hal
    · rw [hp, Function.update_of_ne hx] at hrow
      exact h x row hrow hal

theorem rows (hr : (pair ids D).Reach System.Free m) : m.Rows ids D := by
  refine hr.invariant (fun s h0 e row hrow => ?_) fun _ _ _ h _ hs => rows_step h hs
  rw [(h0 e).1] at hrow
  cases hrow

/-- A link is refused exactly where the end holds one dialed by as low an id. -/
theorem refused_iff (h : m.Rows ids D) {e : End} {env : MeshEnv} {w : FrameWriter}
    {p : PeerIdent} (hid : p.nodeId = ids.of e.other) (hout : p.outbound = decide (D.by_ w = e)) :
    registerPeer env (ids.of e) (m.peers e) p w = none ↔
      ∃ w', m.Holds ids e w' ∧ ids.of (D.by_ w') ≤ ids.of (D.by_ w) := by
  rw [registerPeer_eq_none, hid, hout, dialer_eq]
  constructor
  · rintro ⟨old, hold, hal, hle⟩
    rw [(h e old hold hal).2.2, dialer_eq] at hle
    exact ⟨old.writer, ⟨old, hold, hal, rfl⟩, hle⟩
  · rintro ⟨_, ⟨old, hold, hal, rfl⟩, hle⟩
    refine ⟨old, hold, hal, ?_⟩
    rw [(h e old hold hal).2.2, dialer_eq]
    exact hle

/-- A link taken over another was dialed by a lower id. -/
theorem not_le_of_taken (h : m.Rows ids D) {e : End} {env : MeshEnv} {w w' : FrameWriter}
    {p : PeerIdent} {taken : Peers × Option FrameWriter} (hid : p.nodeId = ids.of e.other)
    (hout : p.outbound = decide (D.by_ w = e))
    (hreg : registerPeer env (ids.of e) (m.peers e) p w = some taken) (hw' : m.Holds ids e w') :
    ¬ ids.of (D.by_ w') ≤ ids.of (D.by_ w) := by
  intro hle
  rw [(refused_iff h hid hout).mpr ⟨w', hw', hle⟩] at hreg
  cases hreg

/-! ## Where the winning side has dialed one link -/

/-- While the links are registered and closed, the one that wins is never closed, and an end that has
registered it holds it. -/
structure Keeps (ids : Ids) (M : FrameWriter) (m : Pair) : Prop where
  open_ : M ∉ m.closed
  held : ∀ e, M ∈ m.registered e → m.Holds ids e M

theorem Keeps.register (h : Keeps ids M m) (hrows : m.Rows ids D) (hM : M ∈ D.links)
    (hbest : D.Best M) (hone : D.OneBest) {e : End} {env : MeshEnv} {w : FrameWriter} {p : PeerIdent}
    (hs : (pair ids D).next m (.register e env w p) = some m') : Keeps ids M m' := by
  obtain ⟨hw, hnew, hid, hout, hregs, ⟨hreg, hp, -, hc⟩ | ⟨peers, shut, hreg, hp, -, hc⟩⟩ :=
    registers_cases hs
  · -- The link is refused. Were it `M`, the end would have registered it before.
    have hne : M ≠ w := by
      rintro rfl
      obtain ⟨_, ⟨old, hold, hal, rfl⟩, hle⟩ := (refused_iff hrows hid hout).mp hreg
      obtain ⟨hmem, hin, -⟩ := hrows e old hold hal
      exact hnew (hone old.writer hmem M hM (hbest.of_le hle) hbest ▸ hin)
    refine ⟨?_, fun x hx => ?_⟩
    · rw [hc]
      exact List.not_mem_cons_of_ne_of_not_mem hne h.open_
    · rw [hregs] at hx
      unfold Holds
      rw [hp]
      exact h.held x (mem_of_registered hx fun _ => hne)
  · -- The link is taken. One it replaces was dialed by a higher id, so it is not `M`.
    refine ⟨?_, fun x hx => ?_⟩
    · rw [hc, List.mem_append, not_or]
      refine ⟨fun hin => ?_, h.open_⟩
      rw [registerPeer_shut hreg, Option.mem_toList, Option.map_eq_some_iff] at hin
      obtain ⟨old, hold, hwM⟩ := hin
      obtain ⟨hold, hal⟩ := Option.filter_eq_some_iff.mp hold
      exact not_le_of_taken hrows hid hout hreg ⟨old, hid ▸ hold, hal, hwM⟩ (hbest.le ids hw)
    · rw [hregs] at hx
      by_cases hx' : x = e
      · subst hx'
        by_cases hwM : M = w
        · rw [hwM]
          exact holds_taken hid hreg hp
        · have hold := h.held x (mem_of_registered hx fun _ => hwM)
          exact absurd (hbest.le ids hw) (not_le_of_taken hrows hid hout hreg hold)
      · obtain ⟨row, hrow, hal, hwM⟩ := h.held x (mem_of_registered hx fun he => absurd he hx')
        exact ⟨row, by rw [hp, Function.update_of_ne hx']; exact hrow, hal, hwM⟩

/-- A close that is read is that of another link. -/
theorem Keeps.eof (h : Keeps ids M m) {e : End} {env : MeshEnv} {w : FrameWriter}
    (hs : (pair ids D).next m (.eof e env w) = some m') : Keeps ids M m' := by
  obtain ⟨hw, hregs, hc, hp, -⟩ := eof_cases hs
  have hne : w ≠ M := fun he => h.open_ (he ▸ hw)
  refine ⟨hc ▸ h.open_, fun x hx => ?_⟩
  rw [hregs] at hx
  obtain ⟨row, hrow, hal, hwM⟩ := h.held x hx
  refine ⟨row, ?_, hal, hwM⟩
  rw [hp]
  by_cases hx : x = e
  · subst hx
    rw [Function.update_self, peerClosed_ne hrow (hwM ▸ hne.symm)]
    exact hrow
  · rw [Function.update_of_ne hx]
    exact hrow

/-- Both ends come to hold the link that wins. -/
theorem agrees_of_oneBest (hone : D.OneBest) (hne : D.links.Nonempty)
    (hr : (pair ids D).Reach System.Free m) (hdone : m.Done D) : m.Agrees ids D := by
  obtain ⟨M, hM, hbest, hlow⟩ := D.exists_best hne
  have hk : Keeps ids M m := by
    refine hr.invariant_with (fun _ => rows) (fun s h0 => ⟨?_, fun e hreg => ?_⟩)
      fun _ a _ hrows hk _ hs => ?_
    · simp [(h0 .lower).2.2.2]
    · simp [(h0 e).2.1] at hreg
    · cases a with
      | register e env w p => exact hk.register hrows hM hbest hone hs
      | eof e env w => exact hk.eof hs
  exact ⟨M, hM, fun e => hk.held e (hdone e M hM).1, hlow⟩

/-! ## Where it has dialed two -/

/-- What the rule reads of the other end's hello. -/
def hello (ids : Ids) (D : Dialed) (e : End) (w : FrameWriter) : PeerIdent :=
  ⟨ids.of e.other, decide (D.by_ w = e), "", "", [], ∅, ∅, 0, 0⟩

def still : MeshEnv := ⟨0, fun _ => false⟩

theorem other_ne (e : End) : e.other ≠ e := by
  cases e <;> simp [End.other]

/-- An end that holds a link that wins refuses any others. -/
theorem refuses_all {e : End} {w : FrameWriter} (hbest : D.Best w) (ws : List FrameWriter)
    (hr : (pair ids D).Reach System.Free m) (hheld : m.Holds ids e w) (hnd : ws.Nodup)
    (hws : ∀ v ∈ ws, v ∈ D.links ∧ v ∉ m.registered e) :
    ∃ m', (pair ids D).Reach System.Free m' ∧ m'.peers = m.peers ∧ m'.reading = m.reading ∧
      (∀ v, v ∈ m'.registered e ↔ v ∈ ws ∨ v ∈ m.registered e) ∧
      m'.registered e.other = m.registered e.other ∧
      ∀ v, v ∈ m'.closed ↔ v ∈ ws ∨ v ∈ m.closed := by
  induction ws generalizing m with
  | nil => exact ⟨m, hr, rfl, rfl, by simp, rfl, by simp⟩
  | cons v ws ih =>
    obtain ⟨hv, hnew⟩ := hws v List.mem_cons_self
    have hnone : registerPeer still (ids.of e) (m.peers e) (hello ids D e v) v = none :=
      (refused_iff (rows hr) rfl rfl).mpr ⟨w, hheld, hbest.le ids hv⟩
    -- The state in which `v` is refused, and the run over the rest from there.
    let m1 : Pair := { m with
      registered := Function.update m.registered e (v :: m.registered e)
      closed := v :: m.closed }
    have hnext : (pair ids D).next m (.register e still v (hello ids D e v)) = some m1 := by
      simp only [pair]
      rw [if_pos ⟨hv, hnew, rfl, rfl⟩, hnone]
    have hws1 : ∀ u ∈ ws, u ∈ D.links ∧ u ∉ m1.registered e := by
      intro u hu
      obtain ⟨hul, hun⟩ := hws u (List.mem_cons_of_mem v hu)
      have hne : u ≠ v := fun he => (List.nodup_cons.mp hnd).1 (he ▸ hu)
      exact ⟨hul, by simp [m1, hne, hun]⟩
    obtain ⟨m', hr', hp, hread, hreg, hoth, hc⟩ :=
      ih (.step hr rfl hnext) hheld (List.nodup_cons.mp hnd).2 hws1
    refine ⟨m', hr', hp, hread, fun u => ?_, ?_, fun u => ?_⟩
    · rw [hreg u]
      simp [m1, or_left_comm, or_assoc]
    · rw [hoth]
      exact Function.update_of_ne (other_ne e) _ _
    · rw [hc u]
      simp [m1, or_left_comm, or_assoc]

/-- What end `e` has come to when it has kept the link `w` and refused the others, the other end
being as it was in `m`. -/
structure KeptOnly (ids : Ids) (D : Dialed) (e : End) (w : FrameWriter) (m m' : Pair) : Prop where
  reach : (pair ids D).Reach System.Free m'
  holds : m'.Holds ids e w
  reading : m'.reading e = [w]
  rest : ∀ v ∈ D.links, v ∈ m'.registered e ∧ (v = w ∨ v ∈ m'.closed)
  closed : m.closed ⊆ m'.closed
  frame : m'.peers e.other = m.peers e.other ∧ m'.registered e.other = m.registered e.other ∧
    m'.reading e.other = m.reading e.other

/-- An end may keep any link that wins: it is enough to register it first. -/
theorem keptOnly {e : End} {w : FrameWriter} (hw : w ∈ D.links) (hbest : D.Best w)
    (hr : (pair ids D).Reach System.Free m) (hp : m.peers e = ∅) (hreg : m.registered e = [])
    (hread : m.reading e = []) : ∃ m', KeptOnly ids D e w m m' := by
  have hnot : ¬ registerPeer still (ids.of e) (m.peers e) (hello ids D e w) w = none := by
    rw [registerPeer_eq_none, hp]
    rintro ⟨old, hold, -⟩
    cases hold
  obtain ⟨⟨peers, shut⟩, htaken⟩ := Option.ne_none_iff_exists'.mp hnot
  let m1 : Pair := ⟨Function.update m.peers e peers,
    Function.update m.registered e (w :: m.registered e),
    Function.update m.reading e (w :: m.reading e), shut.toList ++ m.closed⟩
  have hnext : (pair ids D).next m (.register e still w (hello ids D e w)) = some m1 := by
    simp only [pair]
    rw [if_pos ⟨hw, by simp [hreg], rfl, rfl⟩, htaken]
  have hheld : m1.Holds ids e w := holds_taken rfl htaken rfl
  have hws : ∀ v ∈ (D.links.erase w).toList, v ∈ D.links ∧ v ∉ m1.registered e := by
    intro v hv
    rw [Finset.mem_toList, Finset.mem_erase] at hv
    exact ⟨hv.2, by simp [m1, hreg, hv.1]⟩
  obtain ⟨m', hr', hp', hread', hreg', hoth, hc⟩ :=
    refuses_all hbest _ (.step hr rfl hnext) hheld (Finset.nodup_toList _) hws
  have hmem : ∀ v ∈ D.links, v ≠ w → v ∈ (D.links.erase w).toList := fun v hv hne =>
    Finset.mem_toList.mpr (Finset.mem_erase.mpr ⟨hne, hv⟩)
  refine ⟨m', hr', ?_, ?_, fun v hv => ?_, fun v hv => ?_, ?_, ?_, ?_⟩
  · unfold Holds
    rw [hp']
    exact hheld
  · rw [hread']
    simp [m1, hread]
  · by_cases hne : v = w
    · exact ⟨(hreg' v).mpr (.inr (by simp [m1, hne])), .inl hne⟩
    · exact ⟨(hreg' v).mpr (.inl (hmem v hv hne)), .inr ((hc v).mpr (.inl (hmem v hv hne)))⟩
  · exact (hc v).mpr (.inr (List.mem_append_right _ hv))
  · rw [hp']
    exact Function.update_of_ne (other_ne e) _ _
  · rw [hoth]
    exact Function.update_of_ne (other_ne e) _ _
  · rw [hread']
    exact Function.update_of_ne (other_ne e) _ _

/-- An end that reads the close of the link it holds is left without one. -/
theorem lost {e : End} {w : FrameWriter} (hread : m.reading e = [w]) (hc : w ∈ m.closed)
    (hheld : m.Holds ids e w) : ∃ m', (pair ids D).next m (.eof e still w) = some m' ∧
      (∀ v, ¬ m'.Holds ids e v) ∧ m'.reading e = [] := by
  refine ⟨_, if_pos ⟨by simp [hread], hc⟩, fun v hv => ?_, ?_⟩
  · obtain ⟨row, hrow, hal, -⟩ := hv
    obtain ⟨old, hold, -, hw⟩ := hheld
    simp only [Function.update_self] at hrow
    obtain ⟨hrow, hne⟩ := peerClosed_alive hrow hal
    rw [hold] at hrow
    cases hrow
    exact hne rfl hw
  · simp [hread]

/-- Each end may keep a link of its own among two that win, and then lose it. -/
theorem disagrees (ids : Ids) {w1 w2 : FrameWriter} (h1 : w1 ∈ D.links) (h2 : w2 ∈ D.links)
    (hb1 : D.Best w1) (hb2 : D.Best w2) (hne : w1 ≠ w2) :
    ∃ m, (pair ids D).Reach System.Free m ∧ m.Done D ∧
      ∀ e v, ¬ m.Holds ids e v := by
  let m0 : Pair := ⟨fun _ => ∅, fun _ => [], fun _ => [], []⟩
  have h0 : (pair ids D).Reach System.Free m0 := .init fun _ => ⟨rfl, rfl, rfl, rfl⟩
  obtain ⟨m1, k1⟩ := keptOnly (e := .lower) h1 hb1 h0 rfl rfl rfl
  obtain ⟨hp1, hreg1, hread1⟩ := k1.frame
  obtain ⟨m2, k2⟩ := keptOnly (e := .upper) h2 hb2 k1.reach hp1 hreg1 hread1
  obtain ⟨hp2, hreg2, hread2⟩ := k2.frame
  -- Each end has closed the link that the other holds.
  have hc1 : w1 ∈ m2.closed := (k2.rest w1 h1).2.resolve_left hne
  have hc2 : w2 ∈ m2.closed := k2.closed ((k1.rest w2 h2).2.resolve_left hne.symm)
  have hheld : m2.Holds ids .lower w1 := by
    obtain ⟨row, hrow, h⟩ := k1.holds
    exact ⟨row, by rw [show m2.peers .lower = m1.peers .lower from hp2]; exact hrow, h⟩
  obtain ⟨m3, hs3, hlost3, hread3⟩ :=
    lost (D := D) ((show m2.reading .lower = _ from hread2).trans k1.reading) hc1 hheld
  obtain ⟨-, hreg3, hcl3, hp3, hrd3⟩ := eof_cases hs3
  have hheld3 : m3.Holds ids .upper w2 := by
    obtain ⟨row, hrow, h⟩ := k2.holds
    exact ⟨row, by rw [hp3]; exact hrow, h⟩
  obtain ⟨m4, hs4, hlost4, hread4⟩ :=
    lost (D := D) (by rw [hrd3]; exact k2.reading) (hcl3 ▸ hc2) hheld3
  obtain ⟨-, hreg4, -, hp4, hrd4⟩ := eof_cases hs4
  refine ⟨m4, .step (.step k2.reach rfl hs3) rfl hs4, fun e v hv => ?_, fun e v hv => ?_⟩
  · rw [hreg4, hreg3]
    cases e with
    | lower =>
      have hread : m4.reading .lower = [] := by
        rw [hrd4]
        exact hread3
      exact ⟨(show m2.registered .lower = _ from hreg2) ▸ (k1.rest v hv).1, by simp [hread]⟩
    | upper => exact ⟨(k2.rest v hv).1, by simp [hread4]⟩
  · cases e with
    | lower =>
      obtain ⟨row, hrow, h⟩ := hv
      exact hlost3 v ⟨row, by rw [hp4] at hrow; exact hrow, h⟩
    | upper => exact hlost4 v hv

end Pair

/-- Two daemons end with one link, that of the lower id if it dialed any, in whatever orders they
register the links and read the closes, exactly when the side that wins has dialed one link. -/
theorem pair_agrees_iff (ids : Ids) (D : Dialed) :
    D.OneBest ↔ ∀ m, (pair ids D).Reach System.Free m → m.Done D →
      D.links = ∅ ∨ m.Agrees ids D := by
  constructor
  · intro hone m hr hdone
    rcases D.links.eq_empty_or_nonempty with hempty | hne
    · exact .inl hempty
    · exact .inr (Pair.agrees_of_oneBest hone hne hr hdone)
  · intro hall w1 h1 w2 h2 hb1 hb2
    by_contra hne
    obtain ⟨m, hr, hdone, hlost⟩ := Pair.disagrees ids h1 h2 hb1 hb2 hne
    rcases hall m hr hdone with hempty | ⟨w, -, hheld, -⟩
    · simp [hempty] at h1
    · exact hlost .lower w (hheld .lower)

namespace Sample

def neighbours : Ids := ⟨"a", "b", by decide⟩

/-- The lower daemon has dialed twice. -/
def twice : Dialed := ⟨{1, 2}, fun _ => .lower⟩

def nothingYet : Pair := ⟨fun _ => ∅, fun _ => [], fun _ => [], []⟩

def registers (e : End) (w : FrameWriter) : PairStep :=
  .register e Pair.still w (Pair.hello neighbours twice e w)

/-- Each end registers the two links in an order of its own. -/
def crosswise : List PairStep :=
  [registers .lower 1, registers .lower 2, registers .upper 2, registers .upper 1]

end Sample

/-- Each end keeps the link that the other has closed, and then neither has one. -/
theorem both_links_close :
    (∃ m, (pair Sample.neighbours Sample.twice).Reach System.Free m ∧
      m.Holds Sample.neighbours .lower 1 ∧ m.Holds Sample.neighbours .upper 2 ∧
      1 ∈ m.closed ∧ 2 ∈ m.closed) ∧
    ∃ m, (pair Sample.neighbours Sample.twice).Reach System.Free m ∧ m.Done Sample.twice ∧
      ¬ (Sample.twice.links = ∅ ∨ m.Agrees Sample.neighbours Sample.twice) := by
  have hkept : ((pair Sample.neighbours Sample.twice).run System.Free Sample.nothingYet
      Sample.crosswise).any (fun m =>
        ((m.peers .lower).get "b").any (fun row => row.alive && row.writer == 1) &&
        ((m.peers .upper).get "a").any (fun row => row.alive && row.writer == 2) &&
        decide (1 ∈ m.closed ∧ 2 ∈ m.closed)) = true := by
    decide +kernel
  have hlost : ((pair Sample.neighbours Sample.twice).run System.Free Sample.nothingYet
      (Sample.crosswise ++ [.eof .lower Pair.still 1, .eof .upper Pair.still 2])).any (fun m =>
        ((m.peers .lower).get "b").all (fun row => !row.alive) &&
        [End.lower, .upper].all fun e => m.reading e == [] &&
          [1, 2].all fun w => decide (w ∈ m.registered e)) = true := by
    decide +kernel
  have hinit : (pair Sample.neighbours Sample.twice).init Sample.nothingYet :=
    fun _ => ⟨rfl, rfl, rfl, rfl⟩
  constructor
  · obtain ⟨m, hr, hp⟩ := System.Reach.of_run hkept hinit
    simp only [Bool.and_eq_true, Option.any_eq_true, beq_iff_eq, decide_eq_true_eq] at hp
    obtain ⟨⟨⟨row, hrow, h⟩, ⟨row', hrow', h'⟩⟩, hc⟩ := hp
    exact ⟨m, hr, ⟨row, hrow, h⟩, ⟨row', hrow', h'⟩, hc⟩
  · obtain ⟨m, hr, hp⟩ := System.Reach.of_run hlost hinit
    simp only [Bool.and_eq_true, List.all_cons, List.all_nil, Bool.and_true, beq_iff_eq,
      decide_eq_true_eq] at hp
    obtain ⟨hdead, ⟨hrl, h1, h2⟩, hru, h3, h4⟩ := hp
    refine ⟨m, hr, fun e w hw => ?_, ?_⟩
    · have hw' : w = 1 ∨ w = 2 := by simpa [Sample.twice] using hw
      cases e <;> rcases hw' with rfl | rfl <;> simp_all
    · rintro (hempty | ⟨w, -, hheld, -⟩)
      · simp [Sample.twice] at hempty
      · obtain ⟨row, hrow, hal, -⟩ := hheld .lower
        have hrow : (m.peers .lower).get "b" = some row := hrow
        simp [hrow, hal] at hdead

end Mentat
