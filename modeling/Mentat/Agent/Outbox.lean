import Mentat.Daemon.Section

/-!
# What an agent sends

`agent.rs`, `send_daemon` and the half of `serve_once` that follows a registration: the link is read
under one lock and a message buffered under another, and the writer is published before the backlog
is drained. Every section that holds a lock is one step here, and so is every write of a frame.

Links are numbered in the order they come up. A write that fails leaves the socket broken, and
nothing gets through after that. Beside the agent's own state the run keeps what was written on each
link, the buffer as it was when the link came up, and the order in which messages were produced.

* `backlog_kept`: in a run in which no call of `send_daemon` comes between, the buffer is empty while
  a drained link is up, and what is written on a link is in order.
* `backlog_broken`: runs in which one does.
-/

namespace Mentat

/-- A message for the daemon, with the actor whose thread produced it, and when. -/
structure Letter where
  stamp : Nat
  actor : ActorId
  msg : FromAgent

/-- The two threads of an actor that speak to the daemon. -/
inductive Speaker where
  | relay (x : ActorId)
  | reaper (x : ActorId)
deriving DecidableEq, Repr

namespace Speaker

def actor : Speaker → ActorId
  | .relay x => x
  | .reaper x => x

/-- The actor's other thread. -/
def other : Speaker → Speaker
  | .relay x => .reaper x
  | .reaper x => .relay x

theorem eq_or_other {t t' : Speaker} (h : t.actor = t'.actor) : t' = t ∨ t' = t.other := by
  cases t <;> cases t' <;> simp_all [actor, other]

end Speaker

/-- How far a thread is in `send_daemon`. -/
inductive Sending where
  | idle
  | has (m : Letter)
  /-- It has a writer. -/
  | got (m : Letter) (w : Nat)
  /-- There was no writer, or the write failed. -/
  | failed (m : Letter)

namespace Sending

def inHand : Sending → Option Letter
  | .idle => none
  | .has m => some m
  | .got m _ => some m
  | .failed m => some m

/-- It has not read the link. -/
def early : Sending → Bool
  | .idle => true
  | .has _ => true
  | _ => false

end Sending

/-- How far `serve_once` is. While it drains it holds the buffer's lock. -/
inductive Serving where
  | down
  | published (w : Nat)
  | draining (w : Nat) (rest : List Letter)
  | up (w : Nat)

namespace Serving

def link : Serving → Option Nat
  | .down => none
  | .published w => some w
  | .draining w _ => some w
  | .up w => some w

def rest : Serving → List Letter
  | .draining _ l => l
  | _ => []

/-- The writer is published and the backlog is not drained yet. -/
def window : Serving → Bool
  | .published _ => true
  | .draining _ _ => true
  | _ => false

end Serving

structure Outbox where
  daemon : Option Nat
  unsent : List Letter
  threads : Table Speaker Sending
  serving : Serving
  broken : Finset Nat
  nextLink : Nat
  nextStamp : Nat
  written : Nat → List Letter
  /-- The buffer when the link came up. -/
  backlog : Nat → List Letter
  /-- What is produced from here on is produced after the link came up. -/
  opened : Nat → Nat

namespace Outbox

def thread (o : Outbox) (t : Speaker) : Sending := (o.threads.get t).getD .idle

def setThread (o : Outbox) (t : Speaker) (s : Sending) : Outbox :=
  { o with threads := o.threads.set t s }

/-- A frame gets through, or the socket is broken from now on. -/
def write (o : Outbox) (w : Nat) (m : Letter) : Outbox :=
  { o with written := Function.update o.written w (o.written w ++ [m]) }

def breaks (o : Outbox) (w : Nat) : Outbox := { o with broken := insert w o.broken }

inductive Act where
  | produce (t : Speaker) (msg : FromAgent)
  | readLink (t : Speaker)
  | send (t : Speaker) (ok : Bool)
  | buffer (t : Speaker)
  /-- A registration over a new link has succeeded. -/
  | publish (w : Nat)
  | takeBacklog
  | drain (ok : Bool)
  | breakLink (w : Nat)
  /-- `serve_once` is over. -/
  | close

def step (o : Outbox) : Act → Option Outbox
  | .produce t msg => match o.thread t with
    | .idle => some { o.setThread t (.has ⟨o.nextStamp, t.actor, msg⟩) with
        nextStamp := o.nextStamp + 1 }
    | _ => none
  | .readLink t => match o.thread t with
    | .has m => some (o.setThread t (match o.daemon with
      | some w => .got m w
      | none => .failed m))
    | _ => none
  | .send t ok => match o.thread t with
    | .got m w =>
      if ok = true ∧ w ∉ o.broken then some ((o.write w m).setThread t .idle)
      else some ((o.breaks w).setThread t (.failed m))
    | _ => none
  | .buffer t => match o.thread t, o.serving with
    | .failed _, .draining _ _ => none
    | .failed m, _ => some ({ o with unsent := o.unsent ++ [m] }.setThread t .idle)
    | _, _ => none
  | .publish w => match o.serving with
    | .down =>
      if o.nextLink ≤ w then some { o with
        daemon := some w
        serving := .published w
        nextLink := w + 1
        backlog := Function.update o.backlog w o.unsent
        opened := Function.update o.opened w o.nextStamp }
      else none
    | _ => none
  | .takeBacklog => match o.serving with
    | .published w => some { o with serving := .draining w o.unsent, unsent := [] }
    | _ => none
  | .drain ok => match o.serving with
    | .draining w [] => some { o with serving := .up w }
    | .draining w (m :: rest) =>
      if ok = true ∧ w ∉ o.broken then some { o.write w m with serving := .draining w rest }
      else some { o.breaks w with serving := .up w, unsent := o.unsent ++ m :: rest }
    | _ => none
  | .breakLink w => some (o.breaks w)
  | .close => match o.serving with
    | .up _ => some { o with daemon := none, serving := .down }
    | _ => none

/-! ## What is asked of it -/

/-- While a link is up, drained and nothing has failed on it, the buffer is empty. -/
def Emptied (o : Outbox) : Prop := ∀ w, o.serving = .up w → w ∉ o.broken → o.unsent = []

/-- What was buffered when a link came up is written on it before all that was produced after. -/
def BacklogFirst (o : Outbox) : Prop :=
  ∀ w before m after, o.written w = before ++ m :: after → o.opened w ≤ m.stamp →
    ∀ b ∈ o.backlog w, b ∈ before

/-- Of each actor, a list has the messages in the order produced. -/
def Ordered (l : List Letter) : Prop := l.Pairwise fun m m' => m.actor = m'.actor → m.stamp < m'.stamp

structure Kept (o : Outbox) : Prop where
  emptied : o.Emptied
  first : o.BacklogFirst
  ordered : ∀ w, Ordered (o.written w)

/-- The step comes at a time when no other thread is in the middle of its own: no call reads the link
between the writer's publication and the end of the drain, the backlog is taken when every call that
has read the link is over, and an actor's two threads are not in a call at once. -/
def Act.inTurn (o : Outbox) : Act → Bool
  | .produce t _ => (o.thread t.other).inHand.isNone
  | .readLink _ => !o.serving.window
  | .takeBacklog => o.threads.values.all (·.early)
  | _ => true

end Outbox

/-- Every run of an agent's threads. -/
def outbox : System Outbox Outbox.Act where
  init o := o = ⟨none, [], ∅, .down, ∅, 0, 0, fun _ => [], fun _ => [], fun _ => 0⟩
  next := Outbox.step

/-! ## What a step can be -/

namespace Outbox

variable {o o' : Outbox}

@[simp] theorem setThread_thread (o : Outbox) (t t' : Speaker) (s : Sending) :
    (o.setThread t s).thread t' = if t' = t then s else o.thread t' := by
  simp only [thread, setThread, Table.get_set]
  split <;> rfl

/-- The steps, each with what it needs and what it leaves. -/
inductive Step (o : Outbox) : Act → Outbox → Prop
  | produce {t : Speaker} {msg : FromAgent} : o.thread t = .idle →
      Step o (.produce t msg) { o.setThread t (.has ⟨o.nextStamp, t.actor, msg⟩) with
        nextStamp := o.nextStamp + 1 }
  | readUp {t : Speaker} {m : Letter} {w : Nat} : o.thread t = .has m → o.daemon = some w →
      Step o (.readLink t) (o.setThread t (.got m w))
  | readDown {t : Speaker} {m : Letter} : o.thread t = .has m → o.daemon = none →
      Step o (.readLink t) (o.setThread t (.failed m))
  | sent {t : Speaker} {m : Letter} {w : Nat} : o.thread t = .got m w → w ∉ o.broken →
      Step o (.send t true) ((o.write w m).setThread t .idle)
  | unsent {t : Speaker} {m : Letter} {w : Nat} {ok : Bool} : o.thread t = .got m w →
      Step o (.send t ok) ((o.breaks w).setThread t (.failed m))
  | buffer {t : Speaker} {m : Letter} : o.thread t = .failed m → (∀ w l, o.serving ≠ .draining w l) →
      Step o (.buffer t) ({ o with unsent := o.unsent ++ [m] }.setThread t .idle)
  | publish {w : Nat} : o.serving = .down → o.nextLink ≤ w →
      Step o (.publish w) { o with
        daemon := some w
        serving := .published w
        nextLink := w + 1
        backlog := Function.update o.backlog w o.unsent
        opened := Function.update o.opened w o.nextStamp }
  | takeBacklog {w : Nat} : o.serving = .published w →
      Step o .takeBacklog { o with serving := .draining w o.unsent, unsent := [] }
  | drained {w : Nat} {ok : Bool} : o.serving = .draining w [] →
      Step o (.drain ok) { o with serving := .up w }
  | drain {w : Nat} {m : Letter} {rest : List Letter} : o.serving = .draining w (m :: rest) →
      w ∉ o.broken → Step o (.drain true) { o.write w m with serving := .draining w rest }
  | undrained {w : Nat} {m : Letter} {rest : List Letter} {ok : Bool} :
      o.serving = .draining w (m :: rest) →
      Step o (.drain ok) { o.breaks w with serving := .up w, unsent := o.unsent ++ m :: rest }
  | breakLink {w : Nat} : Step o (.breakLink w) (o.breaks w)
  | close {w : Nat} : o.serving = .up w → Step o .close { o with daemon := none, serving := .down }

theorem step_cases {a : Act} (h : o.step a = some o') : Step o a o' := by
  cases a with
  | produce t msg =>
    simp only [step] at h
    split at h
    · next ht =>
      cases h
      exact .produce ht
    · cases h
  | readLink t =>
    simp only [step] at h
    split at h
    · next m ht =>
      cases h
      cases hd : o.daemon with
      | none => exact .readDown ht hd
      | some w => exact .readUp ht hd
    · cases h
  | send t ok =>
    simp only [step] at h
    split at h
    · next m w ht =>
      split at h
      · next hok =>
        cases h
        obtain ⟨rfl, hb⟩ := hok
        exact .sent ht hb
      · cases h
        exact .unsent ht
    · cases h
  | buffer t =>
    simp only [step] at h
    split at h
    · cases h
    · next m ht hno =>
      cases h
      exact .buffer ht hno
    · cases h
  | publish w =>
    simp only [step] at h
    split at h
    · next hs =>
      split at h
      · next hw =>
        cases h
        exact .publish hs hw
      · cases h
    · cases h
  | takeBacklog =>
    simp only [step] at h
    split at h
    · next w hs =>
      cases h
      exact .takeBacklog hs
    · cases h
  | drain ok =>
    simp only [step] at h
    split at h
    · next w hs =>
      cases h
      exact .drained hs
    · next w m rest hs =>
      split at h
      · next hok =>
        cases h
        obtain ⟨rfl, hb⟩ := hok
        exact .drain hs hb
      · cases h
        exact .undrained hs
    · cases h
  | breakLink w =>
    cases h
    exact .breakLink
  | close =>
    simp only [step] at h
    split at h
    · next w hs =>
      cases h
      exact .close hs
    · cases h

/-! ## Runs in which every step comes in turn -/

/-- The message has been buffered or written. -/
def Stored (o : Outbox) (m : Letter) : Prop :=
  m ∈ o.unsent ∨ m ∈ o.serving.rest ∨ ∃ w, m ∈ o.written w

/-- What holds of the links. -/
structure Links (o : Outbox) : Prop where
  daemon : o.daemon = o.serving.link
  current : ∀ w, o.serving.link = some w → w < o.nextLink
  held : ∀ t m w, o.thread t = .got m w → w < o.nextLink
  fresh : ∀ w, o.nextLink ≤ w → o.written w = []

namespace Links

theorem setThread (h : Links o) (t : Speaker) {s : Sending} (hs : ∀ m w, s = .got m w → w < o.nextLink) :
    Links (o.setThread t s) where
  daemon := h.daemon
  current := h.current
  held t' m w hg := by
    rw [setThread_thread] at hg
    split at hg
    · exact hs m w hg
    · exact h.held t' m w hg
  fresh := h.fresh

theorem write (h : Links o) {w : Nat} (m : Letter) (hw : w < o.nextLink) : Links (o.write w m) where
  daemon := h.daemon
  current := h.current
  held := h.held
  fresh v hv := by
    have hv' : o.nextLink ≤ v := hv
    have hne : v ≠ w := by omega
    simp only [Outbox.write, Function.update_of_ne hne]
    exact h.fresh v hv

theorem breaks (h : Links o) (w : Nat) : Links (o.breaks w) := ⟨h.daemon, h.current, h.held, h.fresh⟩

/-- `serve_once` goes on over the same link. -/
theorem serve (h : Links o) {s : Serving} (hs : s.link = o.serving.link) (l : List Letter) :
    Links { o with serving := s, unsent := l } :=
  ⟨h.daemon.trans hs.symm, fun w hw => h.current w (hs ▸ hw), h.held, h.fresh⟩

theorem step {a : Act} (h : Links o) (hs : Step o a o') : Links o' := by
  cases hs with
  | @produce t msg ht =>
    have h1 := h.setThread t (s := .has ⟨o.nextStamp, t.actor, msg⟩) fun m w he => by cases he
    exact ⟨h1.daemon, h1.current, h1.held, h1.fresh⟩
  | readUp ht hd =>
    refine h.setThread _ fun m w he => ?_
    cases he
    exact h.current _ (h.daemon ▸ hd)
  | readDown ht hd => exact h.setThread _ fun m w he => by cases he
  | sent ht hb => exact (h.write _ (h.held _ _ _ ht)).setThread _ fun m w he => by cases he
  | unsent ht => exact (h.breaks _).setThread _ fun m w he => by cases he
  | @buffer t m ht hs =>
    have h1 : Links { o with unsent := o.unsent ++ [m] } := h.serve rfl _
    exact h1.setThread _ fun m w he => by cases he
  | @publish w hs hw =>
    refine ⟨rfl, fun v hv => ?_, fun t m v hg => ?_, fun v hv => h.fresh v ?_⟩
    · cases hv
      exact Nat.lt_succ_self w
    · have hlt : v < o.nextLink := h.held t m v hg
      show v < w + 1
      omega
    · have hle : w + 1 ≤ v := hv
      omega
  | takeBacklog hs => exact h.serve (by rw [hs]; rfl) _
  | drained hs => exact h.serve (by rw [hs]; rfl) _
  | @drain w m rest hs hb =>
    have h1 := h.write m (h.current w (by rw [hs]; rfl))
    exact h1.serve (by rw [Outbox.write, hs]; rfl) _
  | undrained hs => exact (h.breaks _).serve (by rw [Outbox.breaks, hs]; rfl) _
  | breakLink => exact h.breaks _
  | close hs => exact ⟨rfl, fun v hv => (by cases hv), h.held, h.fresh⟩

end Links

/-- What holds of the messages: of each actor at most one is in a thread's hands, and it is younger
than all that have been buffered or written. -/
structure Stamps (o : Outbox) : Prop where
  hand : ∀ t m, (o.thread t).inHand = some m → m.actor = t.actor ∧ m.stamp < o.nextStamp
  alone : ∀ t t' m m', (o.thread t).inHand = some m → (o.thread t').inHand = some m' →
    t.actor = t'.actor → t = t'
  stored : ∀ m, o.Stored m → m.stamp < o.nextStamp ∧
    ∀ t m', (o.thread t).inHand = some m' → m'.actor = m.actor → m.stamp < m'.stamp
  unsent : Ordered o.unsent

namespace Stamps

/-- A thread goes on with the message it has, or is done with it. -/
theorem setThread (h : Stamps o) (t : Speaker) {s : Sending}
    (hs : ∀ m, s.inHand = some m → (o.thread t).inHand = some m) : Stamps (o.setThread t s) := by
  have hhand : ∀ t' m, ((o.setThread t s).thread t').inHand = some m →
      (o.thread t').inHand = some m := by
    intro t' m hm
    rw [setThread_thread] at hm
    split at hm
    · next he => exact he ▸ hs m hm
    · exact hm
  refine ⟨fun t' m hm => h.hand t' m (hhand t' m hm), ?_, ?_, h.unsent⟩
  · exact fun t1 t2 m m' h1 h2 => h.alone t1 t2 m m' (hhand t1 m h1) (hhand t2 m' h2)
  · intro m hm
    exact ⟨(h.stored m hm).1, fun t' m' hm' => (h.stored m hm).2 t' m' (hhand t' m' hm')⟩

/-- No message is stored but those there were and one that a thread had in hand and has put down. -/
theorem store (h : Stamps o) {t : Speaker} {m : Letter} (ht : (o.thread t).inHand = some m)
    (hthreads : o'.threads = (o.setThread t .idle).threads) (hnext : o'.nextStamp = o.nextStamp)
    (hst : ∀ m', o'.Stored m' → o.Stored m' ∨ m' = m) (hun : Ordered o'.unsent) : Stamps o' := by
  have h1 := h.setThread t (s := .idle) fun m hm => by cases hm
  have hth : ∀ t', o'.thread t' = (o.setThread t .idle).thread t' := fun t' => by
    rw [thread, hthreads]
    rfl
  refine ⟨?_, ?_, ?_, hun⟩
  · intro t' m' hm'
    rw [hth] at hm'
    exact hnext ▸ h1.hand t' m' hm'
  · intro t1 t2 m1 m2 h1' h2'
    rw [hth] at h1' h2'
    exact h1.alone t1 t2 m1 m2 h1' h2'
  · intro m' hm'
    rw [hnext]
    rcases hst m' hm' with hold | rfl
    · refine ⟨(h.stored m' hold).1, fun t' m'' hm'' => ?_⟩
      rw [hth] at hm''
      exact (h1.stored m' hold).2 t' m'' hm''
    · refine ⟨(h.hand t m' ht).2, fun t' m'' hm'' hact => ?_⟩
      -- The actor's other thread would have a message in hand as well.
      rw [hth, setThread_thread] at hm''
      split at hm''
      · cases hm''
      · next hne =>
        have ha : t'.actor = t.actor := by
          rw [← (h.hand t' m'' hm'').1, ← (h.hand t m' ht).1, hact]
        exact absurd (h.alone t' t m'' m' hm'' ht ha) hne

/-- The threads have what they had, and nothing else is stored. -/
theorem restore (h : Stamps o) (hthreads : o'.threads = o.threads)
    (hnext : o'.nextStamp = o.nextStamp) (hst : ∀ m, o'.Stored m → o.Stored m)
    (hun : Ordered o'.unsent) : Stamps o' := by
  have hth : ∀ t, o'.thread t = o.thread t := fun t => by rw [thread, hthreads, thread]
  refine ⟨?_, ?_, ?_, hun⟩
  · simpa only [hth, hnext] using h.hand
  · simpa only [hth] using h.alone
  · intro m hm
    simpa only [hth, hnext] using h.stored m (hst m hm)

end Stamps

theorem mem_written_write {w v : Nat} {m m' : Letter} :
    m' ∈ (o.write w m).written v ↔ m' ∈ o.written v ∨ (v = w ∧ m' = m) := by
  by_cases hv : v = w
  · subst hv
    simp [write]
  · simp [write, hv]

/-! ### The phases of `serve_once` -/

/-- The link is up and nothing has been written on it. -/
structure Fresh (o : Outbox) (w : Nat) : Prop where
  unwritten : o.written w = []
  unheld : ∀ t m, o.thread t ≠ .got m w
  unsent : ∀ m ∈ o.unsent, m.stamp < o.opened w
  late : ∀ t m, (o.thread t).early = false → (o.thread t).inHand = some m → m.stamp < o.opened w
  backlog : ∀ b ∈ o.backlog w, b ∈ o.unsent

structure Draining (o : Outbox) (w : Nat) (rest : List Letter) : Prop where
  locked : o.unsent = []
  early : ∀ t, (o.thread t).early = true
  ordered : Ordered (o.written w ++ rest)
  older : ∀ m ∈ o.written w ++ rest, m.stamp < o.opened w
  backlog : ∀ b ∈ o.backlog w, b ∈ o.written w ++ rest

structure Drained (o : Outbox) (w : Nat) : Prop where
  emptied : o.unsent = []
  unfailed : ∀ t m, o.thread t ≠ .failed m
  current : ∀ t m v, o.thread t = .got m v → v = w
  backlog : ∀ b ∈ o.backlog w, b ∈ o.written w

structure Phases (o : Outbox) : Prop where
  published : ∀ w, o.serving = .published w → Fresh o w
  draining : ∀ w rest, o.serving = .draining w rest → Draining o w rest
  up : ∀ w, o.serving = .up w → w ∉ o.broken → Drained o w
  held : ∀ t m w, o.thread t = .got m w → w ∉ o.broken → ∀ b ∈ o.backlog w, b ∈ o.written w
  first : o.BacklogFirst
  ordered : ∀ w, Ordered (o.written w)

theorem Stamps.step {a : Act} (h : Stamps o) (hph : Phases o) (hs : Step o a o')
    (hok : a.inTurn o = true) : Stamps o' := by
  cases hs with
  | @produce t msg ht =>
    have hhand : ∀ t' m, ((o.setThread t (.has ⟨o.nextStamp, t.actor, msg⟩)).thread t').inHand = some m →
        (t' = t ∧ m = ⟨o.nextStamp, t.actor, msg⟩) ∨ (t' ≠ t ∧ (o.thread t').inHand = some m) := by
      intro t' m hm
      rw [setThread_thread] at hm
      split at hm
      · next he =>
        cases hm
        exact .inl ⟨he, rfl⟩
      · next hne => exact .inr ⟨hne, hm⟩
    -- The actor's other thread has nothing in hand.
    have hother : ∀ t' m, (o.thread t').inHand = some m → t'.actor ≠ t.actor := by
      intro t' m hm hact
      rcases Speaker.eq_or_other hact.symm with rfl | rfl
      · rw [ht] at hm
        cases hm
      · simp only [Act.inTurn, hm] at hok
        cases hok
    refine ⟨fun t' m hm => ?_, fun t1 t2 m1 m2 h1 h2 hact => ?_, fun m hm => ⟨?_, fun t' m' hm' hact => ?_⟩,
      h.unsent⟩
    · show _ ∧ m.stamp < o.nextStamp + 1
      rcases hhand t' m hm with ⟨rfl, rfl⟩ | ⟨-, hm⟩
      · exact ⟨rfl, Nat.lt_succ_self _⟩
      · exact ⟨(h.hand t' m hm).1, Nat.lt_succ_of_lt (h.hand t' m hm).2⟩
    · rcases hhand t1 m1 h1 with ⟨h1, -⟩ | ⟨-, hold1⟩
      · rcases hhand t2 m2 h2 with ⟨h2, -⟩ | ⟨-, hold2⟩
        · exact h1.trans h2.symm
        · exact absurd (h1 ▸ hact).symm (hother t2 m2 hold2)
      · rcases hhand t2 m2 h2 with ⟨h2, -⟩ | ⟨-, hold2⟩
        · exact absurd (h2 ▸ hact) (hother t1 m1 hold1)
        · exact h.alone t1 t2 m1 m2 hold1 hold2 hact
    · show m.stamp < o.nextStamp + 1
      exact Nat.lt_succ_of_lt (h.stored m hm).1
    · rcases hhand t' m' hm' with ⟨-, rfl⟩ | ⟨-, hm'⟩
      · exact (h.stored m hm).1
      · exact (h.stored m hm).2 t' m' hm' hact
  | readUp ht hd =>
    refine h.setThread _ fun m hm => ?_
    rw [ht]
    exact hm
  | readDown ht hd =>
    refine h.setThread _ fun m hm => ?_
    rw [ht]
    exact hm
  | @sent t m w ht hb =>
    refine h.store (by rw [ht]; rfl) rfl rfl (fun m' hm' => ?_) h.unsent
    rcases hm' with hm' | hm' | ⟨v, hm'⟩
    · exact .inl (.inl hm')
    · exact .inl (.inr (.inl hm'))
    · rcases mem_written_write.mp hm' with hm' | ⟨-, rfl⟩
      · exact .inl (.inr (.inr ⟨v, hm'⟩))
      · exact .inr rfl
  | @unsent t m w ok ht =>
    have h1 : Stamps (o.breaks w) := h.restore rfl rfl (fun _ hm => hm) h.unsent
    refine h1.setThread _ fun m hm => ?_
    show (o.thread t).inHand = some m
    rw [ht]
    exact hm
  | @buffer t m ht hs =>
    refine h.store (by rw [ht]; rfl) rfl rfl (fun m' hm' => ?_) ?_
    · rcases hm' with hm' | hm' | hm'
      · rcases List.mem_append.mp hm' with hm' | hm'
        · exact .inl (.inl hm')
        · exact .inr (List.mem_singleton.mp hm')
      · exact .inl (.inr (.inl hm'))
      · exact .inl (.inr (.inr hm'))
    · refine List.pairwise_append.mpr ⟨h.unsent, List.pairwise_singleton _ _, ?_⟩
      intro m1 hm1 m2 hm2 hact
      rw [List.mem_singleton] at hm2
      subst hm2
      exact (h.stored m1 (.inl hm1)).2 t m2 (by rw [ht]; rfl) hact.symm
  | publish hs hw =>
    refine h.restore rfl rfl (fun m hm => ?_) h.unsent
    rcases hm with hm | hm | hm
    · exact .inl hm
    · cases hm
    · exact .inr (.inr hm)
  | takeBacklog hs =>
    refine h.restore rfl rfl (fun m hm => ?_) List.Pairwise.nil
    rcases hm with hm | hm | hm
    · cases hm
    · exact .inl hm
    · exact .inr (.inr hm)
  | drained hs =>
    refine h.restore rfl rfl (fun m hm => ?_) h.unsent
    rcases hm with hm | hm | hm
    · exact .inl hm
    · cases hm
    · exact .inr (.inr hm)
  | @drain w m rest hs hb =>
    refine h.restore rfl rfl (fun m' hm' => ?_) h.unsent
    rcases hm' with hm' | hm' | ⟨v, hm'⟩
    · exact .inl hm'
    · exact .inr (.inl (by rw [hs]; exact List.mem_cons_of_mem m hm'))
    · rcases mem_written_write.mp hm' with hm' | ⟨-, rfl⟩
      · exact .inr (.inr ⟨v, hm'⟩)
      · exact .inr (.inl (by rw [hs]; exact List.mem_cons_self))
  | @undrained w m rest ok hs =>
    have hd := hph.draining w (m :: rest) hs
    have hun : o.unsent ++ m :: rest = m :: rest := by rw [hd.locked, List.nil_append]
    refine h.restore rfl rfl (fun m' hm' => ?_) ?_
    · rcases hm' with hm' | hm' | hm'
      · exact .inr (.inl (by rw [hs]; exact hun ▸ hm'))
      · cases hm'
      · exact .inr (.inr hm')
    · show Ordered (o.unsent ++ m :: rest)
      rw [hun]
      exact (List.pairwise_append.mp hd.ordered).2.1
  | breakLink => exact h.restore rfl rfl (fun _ hm => hm) h.unsent
  | close hs =>
    refine h.restore rfl rfl (fun m hm => ?_) h.unsent
    rcases hm with hm | hm | hm
    · exact .inl hm
    · cases hm
    · exact .inr (.inr hm)

namespace Phases

/-- A thread goes on as it was, but for the links it holds. -/
theorem held_set (h : Phases o) {t : Speaker} {s : Sending} (hs : ∀ m w, s ≠ .got m w) :
    ∀ t' m w, (o.setThread t s).thread t' = .got m w → w ∉ o.broken →
      ∀ b ∈ o.backlog w, b ∈ o.written w := by
  intro t' m w hg
  rw [setThread_thread] at hg
  split at hg
  · exact absurd hg (hs m w)
  · exact h.held t' m w hg

/-- What is produced after a link came up is written on it when the backlog has been. -/
theorem first_write (h : Phases o) {w : Nat} {m : Letter}
    (hm : o.opened w ≤ m.stamp → ∀ b ∈ o.backlog w, b ∈ o.written w) :
    (o.write w m).BacklogFirst := by
  intro v before m' after hsplit hopen b hb
  by_cases hv : v = w
  · subst hv
    simp only [write, Function.update_self] at hsplit
    rcases List.append_eq_append_iff.mp hsplit with ⟨l, rfl, hl⟩ | ⟨l, hl, hl'⟩
    · cases l with
      | nil =>
        rw [List.nil_append, List.cons.injEq] at hl
        rw [List.append_nil]
        exact hm (hl.1 ▸ hopen) b hb
      | cons x l =>
        have := congrArg List.length hl
        simp at this
    · cases l with
      | nil =>
        rw [List.append_nil] at hl
        rw [List.nil_append, List.cons.injEq] at hl'
        exact hl ▸ hm (hl'.1 ▸ hopen) b hb
      | cons x l =>
        rw [List.cons_append, List.cons.injEq] at hl'
        exact h.first v before m' l (hl'.1 ▸ hl) hopen b hb
  · simp only [write, Function.update_of_ne hv] at hsplit
    exact h.first v before m' after hsplit hopen b hb

theorem ordered_write (h : Phases o) {w : Nat} {m : Letter} (hm : Ordered (o.written w ++ [m])) :
    ∀ v, Ordered ((o.write w m).written v) := by
  intro v
  by_cases hv : v = w
  · subst hv
    simpa only [write, Function.update_self] using hm
  · simpa only [write, Function.update_of_ne hv] using h.ordered v

/-- A call is made, or goes on without the link. -/
theorem setThread_early (h : Phases o) {t : Speaker} {s : Sending} (hs : s.early = true) :
    Phases (o.setThread t s) := by
  have hgot : ∀ t' m w, (o.setThread t s).thread t' = .got m w → o.thread t' = .got m w := by
    intro t' m w hg
    rw [setThread_thread] at hg
    split at hg
    · rw [hg] at hs
      cases hs
    · exact hg
  have hlate : ∀ t', ((o.setThread t s).thread t').early = false →
      (o.setThread t s).thread t' = o.thread t' := by
    intro t' he
    rw [setThread_thread] at he ⊢
    split at he
    · rw [hs] at he
      cases he
    · next hne => rw [if_neg hne]
  refine ⟨fun w hw => ?_, fun w rest hw => ?_, fun w hw hb => ?_,
    fun t' m w hg => h.held t' m w (hgot t' m w hg), h.first, h.ordered⟩
  · have hf := h.published w hw
    refine ⟨hf.unwritten, fun t' m hg => hf.unheld t' m (hgot t' m w hg), hf.unsent, ?_, hf.backlog⟩
    intro t' m he hm
    have hsame := hlate t' he
    rw [hsame] at he hm
    exact hf.late t' m he hm
  · have hd := h.draining w rest hw
    refine ⟨hd.locked, fun t' => ?_, hd.ordered, hd.older, hd.backlog⟩
    rw [setThread_thread]
    split
    · exact hs
    · exact hd.early t'
  · have hu := h.up w hw hb
    refine ⟨hu.emptied, fun t' m hf => ?_, fun t' m v hg => hu.current t' m v (hgot t' m v hg),
      hu.backlog⟩
    rw [hlate t' (by rw [hf]; rfl)] at hf
    exact hu.unfailed t' m hf

theorem breaks (h : Phases o) (w : Nat) : Phases (o.breaks w) := by
  have hout : ∀ v, v ∉ (o.breaks w).broken → v ∉ o.broken := fun v hv hb =>
    hv (Finset.mem_insert_of_mem hb)
  refine ⟨fun v hv => ?_, fun v rest hv => ?_, fun v hv hb => ?_,
    fun t m v hg hb => h.held t m v hg (hout v hb), h.first, h.ordered⟩
  · have hf := h.published v hv
    exact ⟨hf.unwritten, hf.unheld, hf.unsent, hf.late, hf.backlog⟩
  · have hd := h.draining v rest hv
    exact ⟨hd.locked, hd.early, hd.ordered, hd.older, hd.backlog⟩
  · have hu := h.up v hv (hout v hb)
    exact ⟨hu.emptied, hu.unfailed, hu.current, hu.backlog⟩

theorem step {a : Act} (h : Phases o) (hl : Links o) (hst : Stamps o) (hs : Step o a o')
    (hok : a.inTurn o = true) : Phases o' := by
  cases hs with
  | @produce t msg ht =>
    have h1 := h.setThread_early (t := t) (s := .has ⟨o.nextStamp, t.actor, msg⟩) rfl
    refine ⟨fun w hw => ?_, fun w rest hw => ?_, fun w hw hb => ?_, h1.held, h1.first, h1.ordered⟩
    · have hf := h1.published w hw
      exact ⟨hf.unwritten, hf.unheld, hf.unsent, hf.late, hf.backlog⟩
    · have hd := h1.draining w rest hw
      exact ⟨hd.locked, hd.early, hd.ordered, hd.older, hd.backlog⟩
    · have hu := h1.up w hw hb
      exact ⟨hu.emptied, hu.unfailed, hu.current, hu.backlog⟩
  | @readUp t m w ht hd =>
    -- The link is read while it is up and drained.
    have hup : o.serving = .up w := by
      have hlink := hl.daemon.symm.trans hd
      simp only [Act.inTurn, Bool.not_eq_true'] at hok
      cases hserve : o.serving <;> simp_all [Serving.link, Serving.window]
    have hset : ∀ t' m' v, (o.setThread t (.got m w)).thread t' = .got m' v →
        v = w ∨ o.thread t' = .got m' v := by
      intro t' m' v hg
      rw [setThread_thread] at hg
      split at hg
      · cases hg
        exact .inl rfl
      · exact .inr hg
    refine ⟨fun v hv => ?_, fun v rest hv => ?_, fun v hv hb => ?_, fun t' m' v hg hb => ?_, h.first,
      h.ordered⟩
    · cases hup.symm.trans hv
    · cases hup.symm.trans hv
    · cases hup.symm.trans hv
      have hu := h.up w hup hb
      refine ⟨hu.emptied, fun t' m' hf => ?_, fun t' m' v hg => ?_, hu.backlog⟩
      · rw [setThread_thread] at hf
        split at hf
        · cases hf
        · exact hu.unfailed t' m' hf
      · exact (hset t' m' v hg).elim id (hu.current t' m' v)
    · rcases hset t' m' v hg with rfl | hg
      · exact (h.up v hup hb).backlog
      · exact h.held t' m' v hg hb
  | @readDown t m ht hd =>
    have hdown : o.serving = .down := by
      have hlink := hl.daemon.symm.trans hd
      cases hserve : o.serving <;> simp_all [Serving.link]
    refine ⟨fun v hv => ?_, fun v rest hv => ?_, fun v hv => ?_, h.held_set fun m w he => ?_, h.first,
      h.ordered⟩
    · cases hdown.symm.trans hv
    · cases hdown.symm.trans hv
    · cases hdown.symm.trans hv
    · cases he
  | @sent t m w ht hb =>
    have hsub : ∀ v b, b ∈ o.written v → b ∈ (o.write w m).written v := fun v b hb =>
      mem_written_write.mpr (.inl hb)
    have hordered : Ordered (o.written w ++ [m]) := by
      refine List.pairwise_append.mpr ⟨h.ordered w, List.pairwise_singleton _ _, ?_⟩
      intro m1 hm1 m2 hm2 hact
      rw [List.mem_singleton] at hm2
      subst hm2
      exact (hst.stored m1 (.inr (.inr ⟨w, hm1⟩))).2 t m2 (by rw [ht]; rfl) hact.symm
    have hwrite : Phases (o.write w m) := by
      refine ⟨fun v hv => ?_, fun v rest hv => ?_, fun v hv hb' => ?_, fun t' m' v hg hb' b hx => ?_,
        h.first_write fun _ => h.held t m w ht hb, h.ordered_write hordered⟩
      · have hf := h.published v hv
        have hne : v ≠ w := fun he => hf.unheld t m (he ▸ ht)
        refine ⟨?_, hf.unheld, hf.unsent, hf.late, hf.backlog⟩
        simpa only [write, Function.update_of_ne hne] using hf.unwritten
      · have he := (h.draining v rest hv).early t
        rw [ht] at he
        cases he
      · have hu := h.up v hv hb'
        exact ⟨hu.emptied, hu.unfailed, hu.current, fun b hx => hsub v b (hu.backlog b hx)⟩
      · exact hsub v b (h.held t' m' v hg hb' b hx)
    exact hwrite.setThread_early rfl
  | @unsent t m w ok ht =>
    have hout : ∀ v, v ∉ (o.breaks w).broken → v ∉ o.broken := fun v hv hb =>
      hv (Finset.mem_insert_of_mem hb)
    have h1 := h.breaks w
    refine ⟨fun v hv => ?_, fun v rest hv => ?_, fun v hv hb => ?_, h1.held_set fun m w he => ?_,
      h.first, h.ordered⟩
    · have hf := h.published v hv
      refine ⟨hf.unwritten, fun t' m' hg => ?_, hf.unsent, fun t' m' he hm' => ?_, hf.backlog⟩
      · rw [setThread_thread] at hg
        split at hg
        · cases hg
        · exact hf.unheld t' m' hg
      · rw [setThread_thread] at he hm'
        split at hm'
        · cases hm'
          exact hf.late t m (by rw [ht]; rfl) (by rw [ht]; rfl)
        · next hne =>
          rw [if_neg hne] at he
          exact hf.late t' m' he hm'
    · have he := (h.draining v rest hv).early t
      rw [ht] at he
      cases he
    · -- The link that failed is this one.
      have he := (h.up v hv (hout v hb)).current t m w ht
      exact absurd (Finset.mem_insert_self v o.broken) (he ▸ hb)
    · cases he
  | @buffer t m ht hs =>
    have h1 : Phases { o with unsent := o.unsent ++ [m] } := by
      refine ⟨fun v hv => ?_, fun v rest hv => absurd hv (hs v rest), fun v hv hb => ?_, h.held,
        h.first, h.ordered⟩
      · have hf := h.published v hv
        refine ⟨hf.unwritten, hf.unheld, fun m' hm' => ?_, hf.late, fun b hb =>
          List.mem_append_left _ (hf.backlog b hb)⟩
        rcases List.mem_append.mp hm' with hm' | hm'
        · exact hf.unsent m' hm'
        · rw [List.mem_singleton.mp hm']
          exact hf.late t m (by rw [ht]; rfl) (by rw [ht]; rfl)
      · exact absurd ht ((h.up v hv hb).unfailed t m)
    exact h1.setThread_early rfl
  | @publish w hs hw =>
    have hne : ∀ v, v < o.nextLink → v ≠ w := fun v hv => by omega
    refine ⟨fun v hv => ?_, fun v rest hv => ?_, fun v hv => ?_, fun t m v hg hb b hx => ?_, ?_,
      h.ordered⟩
    · cases hv
      refine ⟨hl.fresh w hw, fun t m hg => hne w (hl.held t m w hg) rfl, fun m hm => ?_,
        fun t m _ hm => ?_, fun b hb => ?_⟩
      · simpa only [Function.update_self] using (hst.stored m (.inl hm)).1
      · simpa only [Function.update_self] using (hst.hand t m hm).2
      · simpa only [Function.update_self] using hb
    · cases hv
    · cases hv
    · have hv := hne v (hl.held t m v hg)
      simp only [Function.update_of_ne hv] at hx
      exact h.held t m v hg hb b hx
    · intro v before m after hsplit hopen b hb
      by_cases hv : v = w
      · subst hv
        have hempty : o.written v = before ++ m :: after := hsplit
        rw [hl.fresh v hw] at hempty
        simp at hempty
      · simp only [Function.update_of_ne hv] at hopen hb
        exact h.first v before m after hsplit hopen b hb
  | @takeBacklog w hs =>
    have hf := h.published w hs
    refine ⟨fun v hv => ?_, fun v rest hv => ?_, fun v hv => ?_, h.held, h.first, h.ordered⟩
    · cases hv
    · cases hv
      refine ⟨rfl, fun t => ?_, ?_, fun m hm => ?_, fun b hb => ?_⟩
      · simp only [Act.inTurn, List.all_eq_true, Table.mem_values] at hok
        show ((o.threads.get t).getD .idle).early = true
        cases hg : o.threads.get t with
        | none => rfl
        | some s => exact hok s ⟨t, hg⟩
      · show Ordered (o.written w ++ o.unsent)
        rw [hf.unwritten]
        exact hst.unsent
      · have hm' : m ∈ o.written w ++ o.unsent := hm
        rw [hf.unwritten] at hm'
        exact hf.unsent m hm'
      · exact List.mem_append_right _ (hf.backlog b hb)
    · cases hv
  | @drained w ok hs =>
    have hd := h.draining w [] hs
    refine ⟨fun v hv => ?_, fun v rest hv => ?_, fun v hv hb => ?_, h.held, h.first, h.ordered⟩
    · cases hv
    · cases hv
    · cases hv
      refine ⟨hd.locked, fun t m hf => ?_, fun t m v hg => ?_, fun b hb => ?_⟩
      · have he := hd.early t
        rw [show o.thread t = .failed m from hf] at he
        cases he
      · have he := hd.early t
        rw [show o.thread t = .got m v from hg] at he
        cases he
      · simpa only [List.append_nil] using hd.backlog b hb
  | @drain w m rest hs hb =>
    have hd := h.draining w (m :: rest) hs
    have hsplit : o.written w ++ m :: rest = (o.written w ++ [m]) ++ rest := by simp
    have hself : (o.write w m).written w = o.written w ++ [m] := by
      simp only [write, Function.update_self]
    refine ⟨fun v hv => ?_, fun v l hv => ?_, fun v hv => ?_, fun t m' v hg => ?_, ?_, ?_⟩
    · cases hv
    · cases hv
      refine ⟨hd.locked, hd.early, ?_, fun m' hm' => ?_, fun b hb => ?_⟩
      · show Ordered ((o.write w m).written w ++ rest)
        rw [hself, ← hsplit]
        exact hd.ordered
      · have hm'' : m' ∈ (o.write w m).written w ++ rest := hm'
        rw [hself, ← hsplit] at hm''
        exact hd.older m' hm''
      · show b ∈ (o.write w m).written w ++ rest
        rw [hself, ← hsplit]
        exact hd.backlog b hb
    · cases hv
    · have he := hd.early t
      rw [show o.thread t = .got m' v from hg] at he
      cases he
    · refine h.first_write fun hle => ?_
      have := hd.older m (List.mem_append_right _ List.mem_cons_self)
      omega
    · refine h.ordered_write ?_
      have ho := hd.ordered
      rw [hsplit] at ho
      exact (List.pairwise_append.mp ho).1
  | @undrained w m rest ok hs =>
    have hd := h.draining w (m :: rest) hs
    refine ⟨fun v hv => ?_, fun v l hv => ?_, fun v hv hb => ?_, fun t m' v hg => ?_, h.first,
      h.ordered⟩
    · cases hv
    · cases hv
    · cases hv
      exact absurd (Finset.mem_insert_self w o.broken) hb
    · have he := hd.early t
      rw [show o.thread t = .got m' v from hg] at he
      cases he
  | breakLink => exact h.breaks _
  | close hs =>
    refine ⟨fun v hv => ?_, fun v l hv => ?_, fun v hv => ?_, h.held, h.first, h.ordered⟩
    · cases hv
    · cases hv
    · cases hv

end Phases

end Outbox

/-- In a run whose every step comes in turn, the buffer is empty while a drained link is up and
nothing has failed on it. On every link what was buffered when it came up is written before all that
was produced after, and an actor's messages in the order produced. -/
theorem backlog_kept {o : Outbox} (h : outbox.Reach (fun o a => a.inTurn o) o) : o.Kept := by
  have hall : Outbox.Links o ∧ Outbox.Stamps o ∧ Outbox.Phases o := by
    refine h.invariant (I := fun o => Outbox.Links o ∧ Outbox.Stamps o ∧ Outbox.Phases o) ?_ ?_
    · rintro o rfl
      refine ⟨⟨rfl, fun w hw => ?_, fun t m w hg => ?_, fun _ _ => rfl⟩,
        ⟨fun t m hm => ?_, fun t t' m m' hm => ?_, fun m hm => ?_, .nil⟩,
        ⟨fun w hw => ?_, fun w rest hw => ?_, fun w hw => ?_, fun t m w hg => ?_,
          fun w before m after hsplit => ?_, fun w => .nil⟩⟩
      · cases hw
      · cases hg
      · cases hm
      · cases hm
      · rcases hm with hm | hm | ⟨w, hm⟩ <;> cases hm
      · cases hw
      · cases hw
      · cases hw
      · cases hg
      · simp at hsplit
    · rintro o a o' ⟨hl, hst, hph⟩ hok hn
      have hs := Outbox.step_cases hn
      exact ⟨hl.step hs, hst.step hph hs hok, hph.step hl hst hs hok⟩
  obtain ⟨-, -, hph⟩ := hall
  exact ⟨fun w hw hb => (hph.up w hw hb).emptied, hph.first, hph.ordered⟩

namespace Sample

/-- Before the first link. -/
def outboxAtStart : Outbox := ⟨none, [], ∅, .down, ∅, 0, 0, fun _ => [], fun _ => [], fun _ => 0⟩

def resultOf (ref : RefId) : FromAgent := .result ref true "" []

end Sample

/-- An actor's result is buffered in the outage and drained. The next goes over the link, and the
actor's exit after it. -/
def inTurnRun : List Outbox.Act := [
  .produce (.relay "x") (Sample.resultOf "x:1"), .readLink (.relay "x"), .buffer (.relay "x"),
  .publish 0, .takeBacklog, .drain true, .drain true,
  .produce (.relay "x") (Sample.resultOf "x:2"), .readLink (.relay "x"), .send (.relay "x") true,
  .produce (.reaper "x") (.exit "x" (some 0) none), .readLink (.reaper "x"), .send (.reaper "x") true]

theorem backlog_kept_inTurnRun :
    ∃ o, outbox.Reach (fun o a => a.inTurn o) o ∧ o.Kept ∧ o.serving.link = some 0 ∧
      (o.backlog 0).length = 1 ∧ (o.written 0).length = 3 := by
  have hrun : (outbox.run (fun o a => a.inTurn o) Sample.outboxAtStart inTurnRun).any (fun o =>
      o.serving.link == some 0 && (o.backlog 0).length == 1 && (o.written 0).length == 3) = true := by
    decide +kernel
  obtain ⟨o, hreach, hp⟩ := System.Reach.of_run hrun rfl
  simp only [Bool.and_eq_true, beq_iff_eq] at hp
  exact ⟨o, hreach, backlog_kept hreach, hp.1.1, hp.1.2, hp.2⟩

/-- A thread finds no link, and buffers its message when the next one has been drained. -/
def lateBuffer : List Outbox.Act := [
  .produce (.relay "x") (Sample.resultOf "x:1"), .readLink (.relay "x"),
  .publish 0, .takeBacklog, .drain true, .buffer (.relay "x")]

/-- A result is in the buffer when the link is published, and another gets there before the drain. -/
def overtaking : List Outbox.Act := [
  .produce (.relay "x") (Sample.resultOf "x:1"), .readLink (.relay "x"), .buffer (.relay "x"),
  .publish 0,
  .produce (.relay "x") (Sample.resultOf "x:2"), .readLink (.relay "x"), .send (.relay "x") true,
  .takeBacklog, .drain true, .drain true]

/-- Both halves fail: a message is left in the buffer of a link that is up and drained, and a result
overtakes the one the same actor produced before it. -/
theorem backlog_broken :
    (∃ o, outbox.Reach System.Free o ∧ ¬ o.Emptied) ∧
    ∃ o, outbox.Reach System.Free o ∧ ¬ o.BacklogFirst ∧ ¬ ∀ w, Outbox.Ordered (o.written w) := by
  constructor
  · have hrun : (outbox.run System.Free Sample.outboxAtStart lateBuffer).any (fun o =>
        !o.serving.window && o.serving.link.any (fun w => decide (w ∉ o.broken)) &&
          !o.unsent.isEmpty) = true := by decide +kernel
    obtain ⟨o, hreach, hp⟩ := System.Reach.of_run hrun rfl
    refine ⟨o, hreach, fun hempty => ?_⟩
    simp only [Bool.and_eq_true, Option.any_eq_true, decide_eq_true_eq, Bool.not_eq_true'] at hp
    obtain ⟨⟨hwindow, w, hw, hb⟩, hun⟩ := hp
    have hup : o.serving = .up w := by
      cases hs : o.serving <;> simp_all [Serving.link, Serving.window]
    rw [hempty w hup hb] at hun
    cases hun
  · have hrun : (outbox.run System.Free Sample.outboxAtStart overtaking).any (fun o =>
        (o.written 0).map (fun m => (m.stamp, m.actor)) == [(1, "x"), (0, "x")] &&
        (o.backlog 0).map (·.stamp) == [0] && o.opened 0 == 1) = true := by decide +kernel
    obtain ⟨o, hreach, hp⟩ := System.Reach.of_run hrun rfl
    simp only [Bool.and_eq_true, beq_iff_eq] at hp
    obtain ⟨⟨hw, hb⟩, hopen⟩ := hp
    obtain ⟨m, l, hwl, hm, hl⟩ := List.map_eq_cons_iff.mp hw
    obtain ⟨m', l', rfl, hm', hl'⟩ := List.map_eq_cons_iff.mp hl
    simp only [Prod.mk.injEq] at hm hm'
    refine ⟨o, hreach, fun hfirst => ?_, fun hord => ?_⟩
    · obtain ⟨b, lb, hbl, -⟩ := List.map_eq_cons_iff.mp hb
      have hmem := hfirst 0 [] m (m' :: l') hwl (by omega) b (by rw [hbl]; exact List.mem_cons_self)
      cases hmem
    · have hp := hord 0
      rw [hwl] at hp
      have hlt := List.rel_of_pairwise_cons hp List.mem_cons_self (hm.2.trans hm'.2.symm)
      omega

end Mentat
