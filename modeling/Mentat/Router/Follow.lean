import Mentat.Router.View
import Mentat.Lib.Transition

/-!
# Following a daemon

The part of `watch_daemon` that keeps one view: polls outside and inside the event loop, the frames of
the stream, and the move to another address of the same daemon. A step ends where the task awaits.

* `view_tracks_seq`: within one boot of the daemon, the view is what the daemon had after the event
  numbered `last_seq`, whatever frames are lost, repeated, late or another node's.
* `boots_kept_apart`: across restarts it is not so by itself. Events carry no boot id, and a frame left
  from an older process may have the very number the newer snapshot expects. The theorem says when no
  such frame is applied.
-/

namespace Mentat

/-- The event loop, while a stream is open. -/
structure EventLoop where
  lastSeq : Option Nat
  /-- A frame asked for the snapshot, and the poll is out. -/
  resync : Bool
deriving DecidableEq

/-- A watch, as far as its own view goes. -/
structure Follower where
  daemons : Views
  addr : String
  node : Option String
  loop : Option EventLoop

namespace Follower

inductive Act where
  | polled (answer : Except String Value) (now : Nat)
  | connected
  | frame (ev : Value) (now : Nat)
  | lost
  /-- Another address replied as this node. -/
  | moved (alt : String) (answer : Except String Value) (now : Nat)

/-- After a poll: outside the loop the answer names the node, inside it the stream is resumed from the
snapshot, and without an answer the loop is over. -/
def polled (f : Follower) (answer : Except String Value) (now : Nat) : Follower :=
  let r := storeStatus now f.daemons f.addr answer
  match f.loop, r.1 with
  | none, none => { f with daemons := r.2 }
  | none, some id => { f with daemons := r.2, node := some id }
  | some _, none => { f with daemons := r.2, loop := none }
  | some _, some _ => { f with daemons := r.2, loop := some ⟨anchoredSeq r.2 f.addr, false⟩ }

def step (f : Follower) : Act → Option Follower
  | .polled answer now => some (f.polled answer now)
  | .connected =>
    if f.loop = none ∧ f.node ≠ none then some { f with loop := some ⟨none, false⟩ } else none
  | .frame ev now => match f.loop with
    | some ⟨lastSeq, false⟩ =>
      let r := applyFrame now f.daemons f.addr f.node ev lastSeq
      some { f with daemons := r.2.1, loop := some ⟨r.2.2, r.1 == .resync⟩ }
    | _ => none
  | .lost => match f.loop with
    | some ⟨_, false⟩ => some { f with loop := none }
    | _ => none
  | .moved alt answer now =>
    let r := storeStatus now f.daemons alt answer
    if f.loop = none ∧ f.node ≠ none ∧ r.1 = f.node ∧ alt ≠ f.addr then
      some { f with daemons := r.2.erase f.addr, addr := alt }
    else none

end Follower

/-! ## One boot -/

/-- One process of a daemon: `state n` is what it had after the event numbered `n`, in the tables that
events are about, and `event n` the event numbered `n + 1`. -/
structure Boot (T : Type) where
  node : String
  tables : Value → T
  state : Nat → T
  event : Nat → Value
  event_node : ∀ n, ((event n).idx "node").asStr = some node
  event_type : ∀ n, ((event n).idx "type").asStr ≠ some "snapshot"
  event_seq : ∀ n, ((event n).idx "seq").asU64 = some (n + 1)
  /-- The patch of an event leads from what was before it to what was after. -/
  event_patch : ∀ n old new, tables old = state n → patchView old (event n) = some new →
    tables new = state (n + 1)

/-- A snapshot the process gave out, at some time. -/
structure Boot.Snapshot {T : Type} (B : Boot T) where
  value : Value
  seq : Nat
  value_node : (value.idx "node_id").asStr = some B.node
  value_seq : (value.idx "seq").asU64 = some seq
  value_tables : B.tables value = B.state seq

/-- A frame of its stream: a snapshot, an event of its own, or another node's. -/
inductive Boot.Frame {T : Type} (B : Boot T) : Value → Prop
  | snapshot {ev : Value} (s : B.Snapshot) : (ev.idx "type").asStr = some "snapshot" →
      ev.idx "data" = s.value → (ev.idx "seq").asU64 = some s.seq → B.Frame ev
  | own (n : Nat) : B.Frame (B.event n)
  | other {ev : Value} : (ev.idx "type").asStr ≠ some "snapshot" →
      (ev.idx "node").asStr ≠ some B.node → B.Frame ev

/-- What the task meets: any of the process's snapshots and frames, in any order and any number. -/
inductive Heard {T : Type} (B : Boot T) where
  | answered (s : B.Snapshot) (now : Nat)
  | refused (e : String) (now : Nat)
  | connected
  | frame (ev : Value) (h : B.Frame ev) (now : Nat)
  | lost
  | moved (alt : String) (s : B.Snapshot) (now : Nat)

def Heard.act {T : Type} {B : Boot T} : Heard B → Follower.Act
  | .answered s now => .polled (.ok s.value) now
  | .refused e now => .polled (.error e) now
  | .connected => .connected
  | .frame ev _ now => .frame ev now
  | .lost => .lost
  | .moved alt s now => .moved alt (.ok s.value) now

/-- Every run of a watch whose daemon does not restart. -/
def tracking {T : Type} (B : Boot T) : System Follower (Heard B) where
  init f := f.loop = none ∧ f.node = none
  next f h := f.step h.act

/-- The stored view of the watched address is what the daemon had after event `n`. -/
def Follower.ViewAt {T : Type} (B : Boot T) (f : Follower) (n : Nat) : Prop :=
  ∃ view status, f.daemons.get f.addr = some view ∧ view.status = some status ∧
    B.tables status = B.state n

section Tracking

variable {T : Type} {B : Boot T} {f f' : Follower}

/-- A stream is open to the node the watch answers for, and the view is where `last_seq` says. -/
structure Tracks (B : Boot T) (f : Follower) : Prop where
  node : f.node = none ∨ f.node = some B.node
  open_ : f.loop ≠ none → f.node = some B.node
  view : ∀ l n, f.loop = some l → l.lastSeq = some n → f.ViewAt B n

/-- A snapshot that is stored is anchored at its own number. -/
theorem viewAt_stored (s : B.Snapshot) {d : Views} {addr : String} {now : Nat} {n : Nat}
    (h : anchoredSeq (storeStatus now d addr (.ok s.value)).2 addr = some n) :
    s.seq = n ∧ (storeStatus now d addr (.ok s.value)).2.get addr =
      some ⟨some s.value, some now, none, some B.node, ((d.get addr).map (·.seed)).getD false⟩ := by
  have hget : (storeStatus now d addr (.ok s.value)).2.get addr =
      some ⟨some s.value, some now, none, some B.node, ((d.get addr).map (·.seed)).getD false⟩ := by
    simp [storeStatus, s.value_node]
  refine ⟨?_, hget⟩
  rw [anchoredSeq, hget] at h
  simpa [s.value_seq] using h

theorem Tracks.frame (h : Tracks B f) {ev : Value} (hev : B.Frame ev) {lastSeq : Option Nat}
    (hloop : f.loop = some ⟨lastSeq, false⟩) {now n : Nat}
    (hn : (applyFrame now f.daemons f.addr f.node ev lastSeq).2.2 = some n) :
    ∃ view status, (applyFrame now f.daemons f.addr f.node ev lastSeq).2.1.get f.addr = some view ∧
      view.status = some status ∧ B.tables status = B.state n := by
  have hnode := h.open_ (by rw [hloop]; exact fun he => by cases he)
  by_cases happ : (applyFrame now f.daemons f.addr f.node ev lastSeq).1 = .yes
  · obtain ⟨view, hview, ⟨htype, hres⟩ | ⟨htype, hown, prev, old, new, rfl, hseq, hold, hpatch, hres⟩⟩ :=
      applyFrame_applied happ
    · rw [hres] at hn ⊢
      cases hev with
      | snapshot s _ hdata hseq =>
        simp only [hseq, Option.some.injEq] at hn
        exact ⟨_, s.value, Table.get_set_self _ _ _, by rw [hdata], hn ▸ s.value_tables⟩
      | own k => exact absurd htype (B.event_type k)
      | other hkind => exact absurd htype hkind
    · rw [hres] at hn ⊢
      cases hn
      cases hev with
      | snapshot s hkind => exact absurd hkind htype
      | own k =>
        rw [B.event_seq k] at hseq
        cases hseq
        obtain ⟨view', status, hget, hstatus, htables⟩ := h.view _ prev hloop rfl
        rw [hview] at hget
        cases hget
        rw [hold] at hstatus
        cases hstatus
        exact ⟨_, new, Table.get_set_self _ _ _, rfl, B.event_patch prev old new htables hpatch⟩
      | other _ hother => exact absurd (hown.trans hnode) hother
  · rw [applyFrame_not_applied happ] at hn ⊢
    exact h.view _ n hloop hn

theorem Tracks.step (h : Tracks B f) {a : Heard B} (hs : f.step a.act = some f') : Tracks B f' := by
  cases a with
  | answered s now =>
    cases hs
    have hnode : (storeStatus now f.daemons f.addr (.ok s.value)).1 = some B.node := s.value_node
    cases hloop : f.loop with
    | none =>
      simp only [Follower.polled, hloop, hnode]
      exact ⟨.inr rfl, fun _ => rfl, fun l n hl => by cases hl⟩
    | some l0 =>
      simp only [Follower.polled, hloop, hnode]
      refine ⟨h.node, fun _ => h.open_ (by rw [hloop]; exact fun he => by cases he), ?_⟩
      intro l n hl hn
      cases hl
      obtain ⟨hseq, hget⟩ := viewAt_stored s hn
      exact ⟨_, s.value, hget, rfl, hseq ▸ s.value_tables⟩
  | refused e now =>
    cases hs
    cases hloop : f.loop with
    | none =>
      simp only [Follower.polled, hloop, storeStatus]
      exact ⟨h.node, fun hne => absurd rfl hne, fun l n hl => by cases hl⟩
    | some l0 =>
      simp only [Follower.polled, hloop, storeStatus]
      exact ⟨h.node, fun hne => absurd rfl hne, fun l n hl => by cases hl⟩
  | connected =>
    simp only [Heard.act, Follower.step, Option.ite_none_right_eq_some, Option.some.injEq] at hs
    obtain ⟨⟨-, hnode⟩, rfl⟩ := hs
    refine ⟨h.node, fun _ => h.node.resolve_left hnode, fun l n hl hn => ?_⟩
    cases hl
    cases hn
  | frame ev hev now =>
    simp only [Heard.act, Follower.step] at hs
    split at hs
    · next lastSeq hloop =>
      cases hs
      refine ⟨h.node, fun _ => h.open_ (by rw [hloop]; exact fun he => by cases he), ?_⟩
      intro l n hl hn
      cases hl
      exact h.frame hev hloop hn
    · cases hs
  | lost =>
    simp only [Heard.act, Follower.step] at hs
    split at hs
    · cases hs
      exact ⟨h.node, fun hne => absurd rfl hne, fun l n hl => by cases hl⟩
    · cases hs
  | moved alt s now =>
    simp only [Heard.act, Follower.step, Option.ite_none_right_eq_some, Option.some.injEq] at hs
    obtain ⟨⟨hloop, -⟩, rfl⟩ := hs
    exact ⟨h.node, fun hne => absurd hloop hne, fun l n hl => by rw [hloop] at hl; cases hl⟩

end Tracking

/-- While `last_seq` is a number, the view is what the daemon had after the event of that number; and
a frame that is not applied leaves the view and `last_seq` as they were. -/
theorem view_tracks_seq {T : Type} {B : Boot T} {f : Follower}
    (h : (tracking B).Reach System.Free f) :
    (∀ l n, f.loop = some l → l.lastSeq = some n → f.ViewAt B n) ∧
    ∀ l ev now, f.loop = some l → (applyFrame now f.daemons f.addr f.node ev l.lastSeq).1 ≠ .yes →
      (applyFrame now f.daemons f.addr f.node ev l.lastSeq).2 = (f.daemons, l.lastSeq) := by
  have htracks : Tracks B f := h.invariant (I := Tracks B)
    (fun f hf => ⟨.inl hf.2, fun hne => absurd hf.1 hne, fun l n hl => by rw [hf.1] at hl; cases hl⟩)
    fun f a f' hf _ hs => hf.step hs
  exact ⟨htracks.view, fun l ev now _ hno => applyFrame_not_applied hno⟩

namespace Sample

/-- A daemon that counts its events in the snapshot. -/
def counting : Boot Value where
  node := "n:1"
  tables v := v.idx "head"
  state n := .num (.uint n)
  event n := .obj [("type", .str "head_moved"), ("seq", .num (.uint (n + 1))), ("node", .str "n:1"),
    ("patch", .arr [.obj [("at", .arr [.str "head"]), ("value", .num (.uint (n + 1)))]])]
  event_node _ := rfl
  event_type _ := by simp [Value.idx, Value.asStr]
  event_seq _ := rfl
  event_patch n old new _ hp := by
    cases old with
    | obj fields =>
      have hnew : new = .obj (putField fields "head" (.num (.uint (n + 1)))) := by
        cases hp
        rfl
      rw [hnew, Value.idx, lookup_putField]
      rfl
    | _ => cases hp

def countingAt (n : Nat) : counting.Snapshot where
  value := .obj [("head", .num (.uint n)), ("node_id", .str "n:1"), ("seq", .num (.uint n))]
  seq := n
  value_node := rfl
  value_seq := rfl
  value_tables := rfl

def countingFrame (n : Nat) : Value :=
  .obj [("type", .str "snapshot"), ("seq", .num (.uint n)), ("data", (countingAt n).value)]

def unwatched : Follower := ⟨(∅ : Views).set "a:1" (.empty true), "a:1", none, none⟩

end Sample

/-- A poll, the stream with its snapshot, an event, a poll that is ahead of the stream, the event it
already holds and the one after it. -/
def aheadOfStream : List (Heard Sample.counting) := [
  .answered (Sample.countingAt 0) 0, .connected,
  .frame (Sample.countingFrame 0) (.snapshot (Sample.countingAt 0) rfl rfl rfl) 1,
  .frame (Sample.counting.event 0) (.own 0) 2, .answered (Sample.countingAt 2) 3,
  .frame (Sample.counting.event 1) (.own 1) 4, .frame (Sample.counting.event 2) (.own 2) 5]

theorem view_tracks_seq_aheadOfStream :
    ∃ f, (tracking Sample.counting).Reach System.Free f ∧ f.ViewAt Sample.counting 3 := by
  have hrun : ((tracking Sample.counting).run System.Free Sample.unwatched aheadOfStream).any (fun f =>
      f.loop == some ⟨some 3, false⟩) = true := by decide +kernel
  obtain ⟨f, hreach, hp⟩ := System.Reach.of_run hrun ⟨rfl, rfl⟩
  exact ⟨f, hreach, (view_tracks_seq hreach).1 _ 3 (beq_iff_eq.mp hp) rfl⟩

/-! ## Restarts -/

/-- A watch and the processes of its daemon, numbered as they come. -/
structure Restarts where
  watch : Follower
  boot : Nat
  /-- The process the stream was opened to. -/
  streamBoot : Nat
  /-- What is left to read of it. -/
  unread : List Value
  /-- The latest process of which a snapshot has been stored. -/
  newest : Nat
  /-- An event of an earlier process has been applied after that. -/
  touched : Bool

namespace Restarts

inductive Act where
  | restart
  /-- The process writes a frame to its subscribers. -/
  | emit (ev : Value)
  | answered (snap : Value) (now : Nat)
  | refused (e : String) (now : Nat)
  | connected
  /-- The next frame of the stream. -/
  | read (now : Nat)
  | lost
  | moved (alt : String) (snap : Value) (now : Nat)

/-- The next frame, from the process the stream was opened to. -/
def readFrame (r : Restarts) (ev : Value) (rest : List Value) (now : Nat) : Option Restarts :=
  match r.watch.loop with
  | some ⟨lastSeq, false⟩ =>
    let applied := (applyFrame now r.watch.daemons r.watch.addr r.watch.node ev lastSeq).1 = .yes
    let snapshot := (ev.idx "type").asStr = some "snapshot"
    (r.watch.step (.frame ev now)).map fun w => { r with
      watch := w
      unread := rest
      newest := if applied ∧ snapshot then max r.newest r.streamBoot else r.newest
      touched := r.touched || decide (applied ∧ ¬ snapshot ∧ r.streamBoot < r.newest) }
  | _ => none

def step (r : Restarts) : Act → Option Restarts
  | .restart => some { r with boot := r.boot + 1 }
  | .emit ev =>
    if r.watch.loop ≠ none ∧ r.streamBoot = r.boot then some { r with unread := r.unread ++ [ev] }
    else some r
  | .answered snap now => some { r with watch := r.watch.polled (.ok snap) now, newest := r.boot }
  | .refused e now => some { r with watch := r.watch.polled (.error e) now }
  | .connected => (r.watch.step .connected).map fun w =>
    { r with watch := w, streamBoot := r.boot, unread := [] }
  | .read now => match r.unread with
    | ev :: rest => r.readFrame ev rest now
    | [] => none
  | .lost => (r.watch.step .lost).map fun w => { r with watch := w }
  | .moved alt snap now => (r.watch.step (.moved alt (.ok snap) now)).map fun w =>
    { r with watch := w, newest := r.boot }

/-- A frame that would be taken after a snapshot with this number. -/
def continues (r : Restarts) (seq : Option Nat) (ev : Value) : Bool :=
  (ev.idx "type").asStr == some "snapshot" ||
    ((ev.idx "node").asStr == r.watch.node && seq.any fun m => (ev.idx "seq").asU64 == some (m + 1))

/-- A poll made while a stream is open to an earlier process than the one that answers finds no frame
on the stream that would be taken after the answer. -/
def Act.apart (r : Restarts) : Act → Bool
  | .answered snap _ => r.watch.loop.isNone || decide (r.boot ≤ r.streamBoot) ||
      r.unread.all fun ev => !r.continues (snap.idx "seq").asU64 ev
  | _ => true

end Restarts

/-- Every run of a watch whose daemon may restart. -/
def restarting : System Restarts Restarts.Act where
  init r := r.watch.loop = none ∧ r.boot = 0 ∧ r.streamBoot = 0 ∧ r.unread = [] ∧ r.newest = 0 ∧
    r.touched = false
  next := Restarts.step

namespace Restarts

variable {r r' : Restarts}

/-- What is left of an older process's stream is not taken. -/
structure Apart (r : Restarts) : Prop where
  newest : r.newest ≤ r.boot
  stream : r.streamBoot ≤ r.boot
  untouched : r.touched = false
  left : ∀ l, r.watch.loop = some l → r.streamBoot < r.newest →
    ∀ ev ∈ r.unread, r.continues l.lastSeq ev = false

theorem continues_congr {seq : Option Nat} {ev : Value} (h : r'.watch.node = r.watch.node) :
    r'.continues seq ev = r.continues seq ev := by
  rw [continues, continues, h]

/-- A frame that does not continue the view is not applied. -/
theorem not_applied {l : EventLoop} {ev : Value} {now : Nat}
    (h : r.continues l.lastSeq ev = false) :
    (applyFrame now r.watch.daemons r.watch.addr r.watch.node ev l.lastSeq).1 ≠ .yes := by
  intro happ
  obtain ⟨view, -, ⟨htype, -⟩ | ⟨-, hnode, prev, -, -, hprev, hseq, -⟩⟩ := applyFrame_applied happ
  · simp [continues, htype] at h
  · simp [continues, hnode, hprev, hseq] at h

theorem Apart.readFrame (h : Apart r) {ev : Value} {rest : List Value} {now : Nat}
    (hun : r.unread = ev :: rest) (hs : r.readFrame ev rest now = some r') : Apart r' := by
  unfold Restarts.readFrame at hs
  split at hs
  · next lastSeq hloop =>
    obtain ⟨w, hw, rfl⟩ := Option.map_eq_some_iff.mp hs
    simp only [Follower.step, hloop, Option.some.injEq] at hw
    subst hw
    by_cases hold : r.streamBoot < r.newest
    · -- The stream is an older process's.
      have hleft := h.left _ hloop hold
      rw [hun] at hleft
      have hno := @not_applied _ _ _ now (hleft ev List.mem_cons_self)
      have hsame := applyFrame_not_applied hno
      refine ⟨?_, h.stream, ?_, fun l hl _ e he => ?_⟩
      · simp only [hno, false_and, if_false]
        exact h.newest
      · simp [hno, h.untouched]
      · cases hl
        rw [hsame]
        exact hleft e (List.mem_cons_of_mem ev he)
    · refine ⟨?_, h.stream, ?_, fun l hl hlt => ?_⟩
      · simp only
        split
        · exact max_le h.newest h.stream
        · exact h.newest
      · simp [hold, h.untouched]
      · simp only at hlt
        split at hlt <;> omega
  · cases hs

theorem Apart.step (h : Apart r) {a : Act} (hok : a.apart r = true) (hs : r.step a = some r') :
    Apart r' := by
  cases a with
  | restart =>
    cases hs
    exact ⟨Nat.le_succ_of_le h.newest, Nat.le_succ_of_le h.stream, h.untouched, h.left⟩
  | emit ev =>
    simp only [Restarts.step] at hs
    split at hs
    · next hcur =>
      cases hs
      refine ⟨h.newest, h.stream, h.untouched, fun l hl hlt => ?_⟩
      have hnew := h.newest
      have hold : r.streamBoot < r.newest := hlt
      omega
    · cases hs
      exact h
  | answered snap now =>
    cases hs
    refine ⟨Nat.le_refl _, h.stream, h.untouched, fun l hl hlt ev hev => ?_⟩
    have hlt' : r.streamBoot < r.boot := hlt
    cases hloop : r.watch.loop with
    | none =>
      simp only [Follower.polled, hloop] at hl
      split at hl <;> simp_all
    | some l0 =>
      simp only [Act.apart, hloop, Option.isNone_some, Bool.false_or, Bool.or_eq_true,
        decide_eq_true_eq, List.all_eq_true, Bool.not_eq_true'] at hok
      have hev' := (hok.resolve_left (by omega)) ev hev
      simp only [Follower.polled, hloop] at hl ⊢
      cases hid : (storeStatus now r.watch.daemons r.watch.addr (.ok snap)).1 with
      | none => simp [hid] at hl
      | some id =>
        simp only [hid, Option.some.injEq] at hl
        subst hl
        have hanchor : anchoredSeq (storeStatus now r.watch.daemons r.watch.addr (.ok snap)).2
            r.watch.addr = (snap.idx "seq").asU64 := by
          simp [anchoredSeq, storeStatus]
        simp only [hanchor]
        exact hev'
  | refused e now =>
    cases hs
    refine ⟨h.newest, h.stream, h.untouched, fun l hl => ?_⟩
    simp only [Follower.polled, storeStatus] at hl
    cases hloop : r.watch.loop <;> simp [hloop] at hl
  | connected =>
    obtain ⟨w, -, rfl⟩ := Option.map_eq_some_iff.mp hs
    refine ⟨h.newest, Nat.le_refl _, h.untouched, fun l hl hlt ev hev => ?_⟩
    cases hev
  | read now =>
    simp only [Restarts.step] at hs
    split at hs
    · next ev rest hun => exact h.readFrame hun hs
    · cases hs
  | lost =>
    obtain ⟨w, hw, rfl⟩ := Option.map_eq_some_iff.mp hs
    refine ⟨h.newest, h.stream, h.untouched, fun l hl => ?_⟩
    simp only [Follower.step] at hw
    split at hw
    · cases hw
      cases hl
    · cases hw
  | moved alt snap now =>
    obtain ⟨w, hw, rfl⟩ := Option.map_eq_some_iff.mp hs
    refine ⟨Nat.le_refl _, h.stream, h.untouched, fun l hl => ?_⟩
    simp only [Follower.step, Option.ite_none_right_eq_some, Option.some.injEq] at hw
    obtain ⟨⟨hloop, -⟩, rfl⟩ := hw
    rw [show Follower.loop _ = r.watch.loop from rfl, hloop] at hl
    cases hl

end Restarts

namespace Sample

def beforeFirst : Restarts := ⟨unwatched, 0, 0, [], 0, false⟩

/-- The daemon's first event is on its way when it restarts, and a poll reaches the new process. -/
def leftBehind (seq : Nat) : List Restarts.Act := [
  .answered (countingAt 0).value 0, .connected, .emit (countingFrame 0), .read 1,
  .emit (counting.event 0), .restart, .answered (countingAt seq).value 2, .read 3]

end Sample

end Mentat
