import Mentat.Json
import Mentat.Lib.Table

/-!
# The router's view of a daemon

`mentatd-serve`, the part of `main.rs` that stores what a daemon said: `/status` snapshots
(`poll_status`) and the frames of its event stream (`apply_frame`). A patch is applied to the stored
JSON as a whole or not at all.

The view is shared. Beside it the task that follows a daemon keeps `last_seq`, the number of the last
event that is in the view, while a stream is open.
-/

namespace Mentat

/-! ## Patches -/

/-- The fields with `v` under `k`, in place or where the order of the keys puts it. -/
def putField (fields : List (String × Value)) (k : String) (v : Value) : List (String × Value) :=
  if fields.any (·.1 == k) then fields.map fun f => if f.1 = k then (k, v) else f
  else fields.takeWhile (fun f => decide (f.1 < k)) ++
    (k, v) :: fields.dropWhile (fun f => decide (f.1 < k))

theorem lookup_putField (fields : List (String × Value)) (k : String) (v : Value) :
    (putField fields k v).lookup k = some v := by
  rw [putField]
  split
  · next hmem =>
    induction fields with
    | nil => simp at hmem
    | cons f fields ih =>
      obtain ⟨k', w⟩ := f
      rw [List.map_cons]
      split
      · rw [List.lookup_cons_self]
      · next hk =>
        have hrest : fields.any (·.1 == k) = true := by simpa [hk] using hmem
        have hne : (k == k') = false := beq_eq_false_iff_ne.mpr fun he => hk he.symm
        rw [List.lookup_cons, hne]
        exact ih hrest
  · next hmem =>
    have hnone : (fields.takeWhile fun f => decide (f.1 < k)).lookup k = none := by
      rw [List.lookup_eq_none_iff]
      intro f hf
      have hlt := decide_eq_true_eq.mp (List.all_eq_true.mp List.all_takeWhile f hf)
      refine bne_iff_ne.mpr fun he => ?_
      rw [he] at hlt
      exact String.lt_irrefl _ hlt
    rw [List.lookup_append, hnone, Option.none_or, List.lookup_cons_self]

theorem lookup_putField_of_ne {k k' : String} (h : k' ≠ k) (fields : List (String × Value)) (v : Value) :
    (putField fields k v).lookup k' = fields.lookup k' := by
  have hne : (k' == k) = false := beq_eq_false_iff_ne.2 h
  rw [putField]
  split
  · next hmem =>
    clear hmem
    induction fields with
    | nil => rfl
    | cons f fields ih =>
      obtain ⟨l, w⟩ := f
      rw [List.map_cons]
      split
      · next hl =>
        obtain rfl : l = k := hl
        rw [List.lookup_cons, hne, List.lookup_cons, hne]
        exact ih
      · rw [List.lookup_cons, List.lookup_cons, ih]
  · rw [List.lookup_append, List.lookup_cons, hne, ← List.lookup_append, List.takeWhile_append_dropWhile]

/-- The value with `value` at the path, or without what is there. None where the path does not lead
through objects. -/
def patchAt (root : Value) (at_ : List String) (value : Option Value) : Option Value :=
  match at_, root with
  | [leaf], .obj fields => some (.obj (match value with
    | some v => putField fields leaf v
    | none => fields.filter (·.1 != leaf)))
  | k :: k' :: ks, .obj fields =>
    (patchAt ((fields.lookup k).getD (.obj [])) (k' :: ks) value).map fun c =>
      .obj (putField fields k c)
  | _, _ => none

/-- One entry of a patch. -/
def patchEntry (snapshot entry : Value) : Option Value := do
  let path ← (entry.idx "at").asArray
  let keys ← path.mapM Value.asStr
  patchAt snapshot keys (entry.get "value")

/-- Every entry lands, or none does. -/
def patchView (snapshot event : Value) : Option Value :=
  (event.idx "patch").asArray.bind fun entries => entries.foldlM patchEntry snapshot

/-! ## The stored view -/

structure DaemonView where
  status : Option Value
  seen : Option Nat
  error : Option String
  nodeId : Option String
  seed : Bool

def DaemonView.empty (seed : Bool) : DaemonView := ⟨none, none, none, none, seed⟩

abbrev Views := Table String DaemonView

inductive Applied where
  /-- The view moved. -/
  | yes
  | skip
  /-- The snapshot has to be read again. -/
  | resync
deriving DecidableEq, Repr

/-- `apply_frame`, with the view and `last_seq` it leaves. -/
def applyFrame (now : Nat) (d : Views) (addr : String) (node : Option String) (ev : Value)
    (lastSeq : Option Nat) : Applied × Views × Option Nat :=
  match d.get addr with
  | none => (.skip, d, lastSeq)
  | some view =>
    if (ev.idx "type").asStr = some "snapshot" then
      (.yes, d.set addr { view with status := some (ev.idx "data"), seen := some now, error := none },
        (ev.idx "seq").asU64)
    else if (ev.idx "node").asStr ≠ node then (.skip, d, lastSeq)
    else match (ev.idx "seq").asU64, lastSeq with
      | none, _ => (.resync, d, lastSeq)
      | some _, none => (.resync, d, lastSeq)
      | some seq, some prev =>
        if seq = prev + 1 then
          match view.status.bind (patchView · ev) with
          | none => (.resync, d, lastSeq)
          | some status =>
            (.yes, d.set addr { view with status := some status, seen := some now }, some seq)
        else if seq ≤ prev then (.skip, d, lastSeq)
        else (.resync, d, lastSeq)

/-- The end of `poll_status`: what it stores, and the node id it returns. -/
def storeStatus (now : Nat) (d : Views) (addr : String) (answer : Except String Value) :
    Option String × Views :=
  match answer with
  | .ok snap =>
    let nodeId := (snap.idx "node_id").asStr
    let seed := ((d.get addr).map (·.seed)).getD false
    (nodeId, d.set addr ⟨some snap, some now, none, nodeId, seed⟩)
  | .error e => (none, d.modify addr fun v => { v with error := some e })

/-- The number of the last event in the stored snapshot. -/
def anchoredSeq (d : Views) (addr : String) : Option Nat :=
  ((d.get addr).bind (·.status)).bind fun s => (s.idx "seq").asU64

/-! ## What a frame can do -/

section

variable {now : Nat} {d : Views} {addr : String} {node : Option String} {ev : Value}
  {lastSeq : Option Nat}

/-- A frame that is not applied leaves the view and the number. -/
theorem applyFrame_not_applied (h : (applyFrame now d addr node ev lastSeq).1 ≠ .yes) :
    (applyFrame now d addr node ev lastSeq).2 = (d, lastSeq) := by
  unfold applyFrame at h ⊢
  cases hget : d.get addr with
  | none => rfl
  | some view =>
    simp only [hget] at h ⊢
    split
    · next hs => simp [hs] at h
    · next hs =>
      simp only [hs, if_false] at h
      split
      · rfl
      · next hn =>
        simp only [hn, if_false] at h
        split
        · rfl
        · rfl
        · next seq prev hseq =>
          simp only [hseq] at h
          split
          · next hnext =>
            simp only [hnext, if_true] at h
            split
            · rfl
            · next status hp => simp [hp] at h
          · split <;> rfl

/-- What a frame that is applied is: a snapshot, or the next event of the daemon itself, whose patch
goes on the stored view. -/
theorem applyFrame_applied (h : (applyFrame now d addr node ev lastSeq).1 = .yes) :
    ∃ view, d.get addr = some view ∧
      (((ev.idx "type").asStr = some "snapshot" ∧ (applyFrame now d addr node ev lastSeq).2 =
          (d.set addr { view with status := some (ev.idx "data"), seen := some now, error := none },
            (ev.idx "seq").asU64)) ∨
        ((ev.idx "type").asStr ≠ some "snapshot" ∧ (ev.idx "node").asStr = node ∧
          ∃ prev old new, lastSeq = some prev ∧ (ev.idx "seq").asU64 = some (prev + 1) ∧
            view.status = some old ∧ patchView old ev = some new ∧
            (applyFrame now d addr node ev lastSeq).2 =
              (d.set addr { view with status := some new, seen := some now }, some (prev + 1)))) := by
  unfold applyFrame at h ⊢
  cases hget : d.get addr with
  | none => simp [hget] at h
  | some view =>
    refine ⟨view, rfl, ?_⟩
    simp only [hget] at h ⊢
    split
    · next hs => exact .inl ⟨hs, rfl⟩
    · next hs =>
      refine .inr ⟨hs, ?_⟩
      simp only [hs, if_false] at h
      split
      · next hn => simp [hn] at h
      · next hn =>
        simp only [hn, if_false] at h
        refine ⟨not_not.mp hn, ?_⟩
        split
        · next hseq => simp [hseq] at h
        · next hseq => simp [hseq] at h
        · next seq prev hseq =>
          simp only [hseq] at h
          split
          · next hnext =>
            subst hnext
            simp only [if_true] at h
            cases hp : view.status.bind (patchView · ev) with
            | none => simp [hp] at h
            | some new =>
              obtain ⟨old, hold, hpatch⟩ := Option.bind_eq_some_iff.mp hp
              exact ⟨prev, old, new, rfl, hseq, hold, hpatch, rfl⟩
          · next hnext =>
            simp only [hnext, if_false] at h
            split at h <;> simp at h

end

end Mentat
