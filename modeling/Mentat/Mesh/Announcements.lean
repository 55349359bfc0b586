import Mentat.Lib.Replay
import Mentat.Router.Nets
import Mentat.Wire.Secret
import Mentat.Wire.Version

/-!
# Acting on announcements

The two loops that read announcements: `listen` in `announce.rs`, with which a daemon joins the mesh,
and the router's `udp_listener`, which finds the daemons to watch. `Coding.receive` has what both do
up to the signature. After it come the version, the clock and the names, then the table `seen`, and
then what the datagram leads to: a dial, or an address to watch.

`seen` has one boot for each node, so the datagrams of another boot make a loop forget the numbers of
the one before. `announcements_once_iff` says when that lets one through twice.
-/

namespace Mentat

/-- A datagram, with the clock and what the rest of the process has when it arrives. -/
structure Arrival where
  raw : List UInt8
  src : IpAddr
  /-- The receiver's clock in seconds, which the loop reads exactly. -/
  now : Rat
  /-- The nodes with a live link. -/
  alive : String → Bool
  /-- The subnets of the interfaces. -/
  locals : List Net

abbrev Announcement (A : Type) := Note String String A

namespace Arrival

def clockSkewS : Rat := 30

/-- Whether `t` sits inside the accepted window around now. -/
def fresh (t : Nat) (now : Rat) : Bool := decide (|now - t| ≤ clockSkewS)

/-- What both loops ask of a payload before they look at `seen`. -/
def told {A : Type} (a : Arrival) (v : Value) (deed : Option A) : Option (Announcement A) :=
  let offered := (v.idx "proto").asStr.getD ""
  if Version.majorMatches offered.toList then
    match (v.idx "t").asU64 with
    | none => none
    | some t =>
      if fresh t a.now then
        let node := (v.idx "node_id").asStr.getD ""
        let boot := (v.idx "boot_id").asStr.getD ""
        let seq := (v.idx "seq").asU64.getD 0
        if node = "" ∨ boot = "" then none else some ⟨node, boot, seq, deed⟩
      else none
  else none

/-! ## A daemon -/

namespace Daemon

/-- The address to dial. A live link already covers a node. -/
def deed (a : Arrival) (v : Value) : Option String :=
  match (v.idx "control").asStr.filter (· ≠ "") with
  | none => none
  | some control => if a.alive ((v.idx "node_id").asStr.getD "") then none else some control

/-- Every daemon hears its own broadcasts. -/
def note (myId : String) (a : Arrival) (v : Value) : Option (Announcement String) :=
  (a.told v (deed a v)).filter fun d => d.sender ≠ myId

end Daemon

/-! ## The router -/

/-- What `udp_listener` hands on: the node, where to watch it, and where else it may be. A node that
is watched already only learns the target as another address. -/
structure Sighting where
  node : String
  target : Text
  others : List Text
deriving DecidableEq

namespace Router

variable (parseAddr : Text → Option IpAddr) (allowedSources : Allow)

def announceAddress (ranked : List Text) (srcIp : Text) (locals : List Net) : Text :=
  ((ranked.filter fun a => allowedSources.permits parseAddr a locals).find?
    fun a => onLocalNet parseAddr a locals).getD srcIp

/-- The port of `http`, unless it is no port. -/
def httpPort (v : Value) : Option Text :=
  match (v.idx "http").asStr with
  | none => none
  | some http =>
    match Text.rsplitOnce ':' http.toList with
    | none => none
    | some (_, port) => if (Text.parseUnsigned 16 port).getD 0 = 0 then none else some port

def deed (a : Arrival) (v : Value) : Option Sighting :=
  match httpPort v with
  | none => none
  | some port =>
    let srcIp := a.src.text
    if allowedSources.permits parseAddr srcIp a.locals then
      let ranked := (((v.idx "addrs").asArray.getD []).filterMap Value.asStr).map String.toList
      let pick := announceAddress parseAddr allowedSources ranked srcIp a.locals
      some {
        node := (v.idx "node_id").asStr.getD ""
        target := pick ++ ':' :: port
        others := (ranked.filter fun x => allowedSources.permits parseAddr x a.locals).map
          (· ++ ':' :: port) ++ [srcIp ++ ':' :: port] }
    else none

def note (a : Arrival) (v : Value) : Option (Announcement Sighting) :=
  a.told v (deed parseAddr allowedSources a v)

end Router

end Arrival

/-! ## The loops -/

namespace Coding

variable (W : Coding) {A : Type} (ours : String) (key : List UInt8)
  (note : Arrival → Value → Option (Announcement A))

/-- What a loop does with a good payload: `seen` decides, and the number is noted before the deed. -/
def heed (a : Arrival) (g : Gate String String A) (v : Value) : Gate String String A :=
  (note a v).elim g g.hear

/-- The datagrams one after the other. -/
def hearAll (arrivals : List Arrival) : Except Panic (Gate String String A) :=
  arrivals.foldlM (fun g a => W.receive ours key (heed note a) g a.raw) .empty

/-- The payload of a datagram with a good signature. -/
def genuine (raw : List UInt8) : Option Value :=
  ((W.receive ours key (fun _ v => some v) none raw).toOption).join

/-- The announcements that reach `seen`. -/
def announcements (arrivals : List Arrival) : List (Announcement A) :=
  arrivals.filterMap fun a => (W.genuine ours key a.raw).bind (note a)

theorem receive_eq {σ : Type} (act : σ → Value → σ) {s s' : σ} {raw : List UInt8}
    (h : W.receive ours key act s raw = .ok s') : s' = (W.genuine ours key raw).elim s (act s) := by
  unfold genuine receive at *
  split at h
  · next hlong =>
    cases h
    simp [hlong, Except.toOption]
  · next hlong =>
    split at h
    · next hother =>
      cases h
      simp [hlong, hother, Except.toOption]
    · next hmine =>
      simp only [hlong, if_false, hmine]
      cases hv : W.verify raw key with
      | error e => rw [hv] at h; cases h
      | ok v =>
        rw [hv] at h
        cases v <;> (cases h; rfl)

/-- Where each step that returns has a known value, so does the run. -/
theorem foldlM_ok {α σ ε : Type} {f : σ → α → Except ε σ} {value : σ → α → σ}
    (hstep : ∀ s a s', f s a = .ok s' → s' = value s a) {l : List α} {s s' : σ}
    (h : l.foldlM f s = .ok s') : s' = l.foldl value s := by
  induction l generalizing s with
  | nil =>
    cases h
    rfl
  | cons a l ih =>
    rw [List.foldlM_cons] at h
    cases ha : f s a with
    | error e => rw [ha] at h; cases h
    | ok s₁ =>
      rw [ha] at h
      rw [List.foldl_cons, ← hstep s a s₁ ha]
      exact ih h

/-- A loop's table and its deeds are those of the gate on the announcements. -/
theorem hearAll_eq {arrivals : List Arrival} {g : Gate String String A}
    (h : W.hearAll ours key note arrivals = .ok g) :
    g = Gate.run (W.announcements ours key note arrivals) := by
  have hfold := foldlM_ok (fun _ a _ => W.receive_eq ours key (heed note a)) h
  rw [hfold, Gate.run, announcements, List.foldl_filterMap]
  congr 1
  funext g a
  cases W.genuine ours key a.raw with
  | none => rfl
  | some v => cases hn : note a v <;> simp [heed, hn]

end Coding

open Arrival

/-- For each loop and whatever it hears: the numbers that it acts on rise for each node and boot, so
that it acts on none twice, exactly when they do so where a node comes back to a boot after another
boot of it was announced. -/
theorem announcements_once_iff (W : Coding) (ours : String) (key : List UInt8)
    (arrivals : List Arrival) :
    (∀ (myId : String) (g : Gate String String String),
      W.hearAll ours key (Daemon.note myId) arrivals = .ok g →
      (Gate.Rising g.deeds ↔
        Gate.Settled (W.announcements ours key (Daemon.note myId) arrivals))) ∧
    ∀ (parseAddr : Text → Option IpAddr) (allowed : Allow) (g : Gate String String Sighting),
      W.hearAll ours key (Router.note parseAddr allowed) arrivals = .ok g →
      (Gate.Rising g.deeds ↔
        Gate.Settled (W.announcements ours key (Router.note parseAddr allowed) arrivals)) := by
  constructor
  · intro myId g h
    rw [W.hearAll_eq ours key _ h]
    exact Gate.deeds_rising_iff _
  · intro parseAddr allowed g h
    rw [W.hearAll_eq ours key _ h]
    exact Gate.deeds_rising_iff _

namespace Sample

/-- What the node `b` signs in two boots of it. -/
def announcement (boot : String) (seq : Nat) : Value := .obj [("p", .obj [("proto", .str "0.99"),
  ("node_id", .str "b"), ("control", .str "10.0.0.2:6379"), ("http", .str "10.0.0.2:6380"),
  ("boot_id", .str boot), ("seq", .num (.uint seq)), ("t", .num (.uint 1000))]), ("sig", .str "")]

/-- One byte stands for each datagram. -/
def bootsCoding : Coding where
  fromSlice raw :=
    if raw = [1] then some (announcement "old" 5)
    else if raw = [2] then some (announcement "new" 0)
    else none
  toString _ := ""
  hmac _ _ := []

/-- Five seconds and more after it was sent, from the node's address. -/
def datagram (raw : List UInt8) (late : Nat) : Arrival where
  raw := raw
  src := .v4 0x0A000002#32
  now := 1005 + late
  alive _ := false
  locals := []

def allowTen : Allow := ⟨false, [], ["10.".toList]⟩

/-- The last datagram of a boot, the first of the next, and the former once more. -/
def replayed : List Arrival := [datagram [1] 0, datagram [2] 10, datagram [1] 20]

/-- A round of one boot over two interfaces, and the first datagram of the next boot. -/
def restarted : List Arrival := [datagram [1] 0, datagram [1] 0, datagram [2] 10]

end Sample

/-- A node's repeated datagram and its restart. -/
theorem announcements_once_iff_restart :
    ∃ g, Sample.bootsCoding.hearAll "default" [] (Daemon.note "a") Sample.restarted = .ok g ∧
      g.deeds.map (fun d => (d.session, d.num, d.deed)) =
        [("old", 5, some "10.0.0.2:6379"), ("new", 0, some "10.0.0.2:6379")] ∧
      Gate.Settled (Sample.bootsCoding.announcements "default" [] (Daemon.note "a")
        Sample.restarted) := by
  have hrun : (Sample.bootsCoding.hearAll "default" [] (Daemon.note "a") Sample.restarted).map
      (·.deeds) = .ok [⟨"b", "old", 5, some "10.0.0.2:6379"⟩, ⟨"b", "new", 0, some "10.0.0.2:6379"⟩] := by
    decide +kernel
  cases hg : Sample.bootsCoding.hearAll "default" [] (Daemon.note "a") Sample.restarted with
  | error e => rw [hg] at hrun; cases hrun
  | ok g =>
    rw [hg] at hrun
    have hdeeds : g.deeds = _ := Except.ok.inj hrun
    have honce := announcements_once_iff Sample.bootsCoding "default" [] Sample.restarted
    refine ⟨g, rfl, by rw [hdeeds]; rfl, (honce.1 "a" g hg).mp ?_⟩
    rw [hdeeds]
    unfold Gate.Rising
    decide

/-- Within the half minute in which an old boot's last datagram is fresh, each loop acts on it again
once it has heard the new boot. -/
theorem old_boot_heard_again :
    (Sample.bootsCoding.hearAll "default" [] (Daemon.note "a") Sample.replayed).map
        (fun g => g.deeds.map fun d => (d.sender, d.session, d.num)) =
      .ok [("b", "old", 5), ("b", "new", 0), ("b", "old", 5)] ∧
    (Sample.bootsCoding.hearAll "default" [] (Router.note (fun _ => none) Sample.allowTen)
        Sample.replayed).map (fun g => g.deeds.map fun d => (d.sender, d.session, d.num)) =
      .ok [("b", "old", 5), ("b", "new", 0), ("b", "old", 5)] ∧
    ¬ ∀ (W : Coding) (ours : String) (key : List UInt8) (myId : String) (arrivals : List Arrival)
      (g : Gate String String String), W.hearAll ours key (Daemon.note myId) arrivals = .ok g →
        Gate.Rising g.deeds := by
  refine ⟨by decide +kernel, by decide +kernel, fun h => ?_⟩
  have hrun : (Sample.bootsCoding.hearAll "default" [] (Daemon.note "a") Sample.replayed).map
      (·.deeds) = .ok [⟨"b", "old", 5, some "10.0.0.2:6379"⟩, ⟨"b", "new", 0, some "10.0.0.2:6379"⟩,
        ⟨"b", "old", 5, some "10.0.0.2:6379"⟩] := by
    decide +kernel
  cases hg : Sample.bootsCoding.hearAll "default" [] (Daemon.note "a") Sample.replayed with
  | error e => rw [hg] at hrun; cases hrun
  | ok g =>
    rw [hg] at hrun
    have hdeeds : g.deeds = _ := Except.ok.inj hrun
    have hrise := h _ _ _ _ _ g hg
    rw [hdeeds] at hrise
    revert hrise
    unfold Gate.Rising
    decide

end Mentat
