import Mathlib.Data.Finset.Basic
import Mentat.Router.View
import Mentat.Lib.Transition

/-!
# The router's watches

The tasks of the router that follow daemons: `ensure_watched`, `watch_daemon`, `claim_node`,
`try_alternates`, `move_watch`, `drop_watch` and the part of `poll_status` that finds peers. Three maps
are shared, and each task has its address and its node for itself. A step of a task is what it does
between two awaits.

A node is claimed when a poll names it for the first time. A claim takes the node from a holder that
is stale, and does not stop the holder's task, which looks at `nodes` again only when the node id
changes.
-/

namespace Mentat

structure NodeWatch where
  addr : String
  /-- A set, in byte order. -/
  alternates : List String

structure WatchCfg where
  seeds : List String
  pollInterval : Nat
  modelTtl : Nat
  discoverPeers : Bool
  onLocalNet : String → Bool

inductive WatchPhase where
  | starting
  | polling
  | connecting
  | streaming
  /-- A frame asked for the snapshot. -/
  | resyncing
  /-- In `try_alternates`, with these left. -/
  | trying (alts : List String)
deriving DecidableEq

structure WatchTask where
  addr : String
  seed : Bool
  node : Option String
  failingSince : Option Nat
  untried : List String
  lastSeq : Option Nat
  phase : WatchPhase
  /-- The node its last poll was answered by. -/
  lastPoll : Option String

structure Router where
  daemons : Views
  watched : Finset String
  nodes : Table String NodeWatch
  tasks : Table Nat WatchTask
  nextTask : Nat
  /-- A task has written a view while another watch had its node. -/
  trespass : Bool

def Router.empty : Router := ⟨∅, ∅, ∅, ∅, 0, false⟩

/-! ## Addresses -/

def insertAddr (a : String) (l : List String) : List String :=
  if a ∈ l then l else l.takeWhile (fun b => decide (b < a)) ++ a :: l.dropWhile fun b => decide (b < a)

def withPort (ip : String) (port : Nat) : String := ip ++ ":" ++ toString port

/-- What stands before the last colon, and all of it without one. -/
def hostOf (addr : String) : String :=
  match addr.toList.reverse.dropWhile (· != ':') with
  | [] => addr
  | _ :: host => String.ofList host.reverse

def isLoopback (a : String) : Bool := a.startsWith "127." || a == "::1"

/-- The addresses of a peer, the best first, and the one to watch. Loopback comes last. -/
def peerAddresses (cfg : WatchCfg) (p : Value) : Option String × List String :=
  let listed := ((p.idx "addrs").asArray.getD []).filterMap Value.asStr
  let named := ((p.idx "link_ip").asStr.toList ++ listed ++ (p.idx "node_ip").asStr.toList).filter
    (· != "")
  let cands := named.reverse.dedup.reverse
  let cands := cands.filter (!isLoopback ·) ++ cands.filter isLoopback
  let best := (cands.find? fun c => cfg.onLocalNet c && !isLoopback c) <|>
    (cands.find? (!isLoopback ·)) <|> cands.head?
  (best, cands)

namespace Router

variable (cfg : WatchCfg)

def task (addr : String) (others : List String) : WatchTask where
  addr := addr
  seed := cfg.seeds.contains addr
  node := none
  failingSince := none
  untried := others.filter (· != addr)
  lastSeq := none
  phase := .starting
  lastPoll := none

/-- It is known as another way to reach a watched node. -/
def isAlternate (r : Router) (addr : String) : Bool :=
  r.nodes.values.any fun w => w.alternates.contains addr

def ensureWatched (r : Router) (addr : String) (others : List String) : Router :=
  if r.isAlternate addr then r
  else if addr ∈ r.watched then r
  else { r with
    watched := insert addr r.watched
    tasks := r.tasks.set r.nextTask (task cfg addr others)
    nextTask := r.nextTask + 1 }

def dropWatch (r : Router) (addr : String) : Router :=
  { r with daemons := r.daemons.erase addr, watched := r.watched.erase addr }

/-- The view at the address was written within three poll intervals. -/
def fresh (now : Nat) (r : Router) (addr : String) : Bool :=
  ((r.daemons.get addr).bind (·.seen)).any fun s => decide (now - s ≤ cfg.pollInterval * 3)

/-- False when another watch holds the node and is fresh. -/
def claimNode (now : Nat) (r : Router) (id addr : String) : Bool × Router :=
  match r.nodes.get id with
  | none => (true, { r with nodes := r.nodes.set id ⟨addr, []⟩ })
  | some w =>
    if w.addr = addr then (true, r)
    else if fresh cfg now r w.addr then
      (false, { r with nodes := r.nodes.set id { w with alternates := insertAddr addr w.alternates } })
    else
      let alternates := insertAddr w.addr (w.alternates.filter (· != addr))
      (true, { r with nodes := r.nodes.set id ⟨addr, alternates⟩ }.dropWatch w.addr)

def moveWatch (r : Router) (id src dst : String) : Router :=
  { r with
    nodes := r.nodes.modify id fun w => ⟨dst, insertAddr src (w.alternates.filter (· != dst))⟩
    daemons := r.daemons.erase src
    watched := insert dst (r.watched.erase src) }

/-- One peer of a snapshot: another address of a watched node, or a node to watch. -/
def notePeer (r : Router) (id : String) (p : Value) : Router :=
  match (p.idx "http_port").asU64 with
  | none => r
  | some port =>
    if port = 0 ∨ (p.idx "alive").asBool ≠ some true then r
    else match r.nodes.get id with
      | some w =>
        let others := ((peerAddresses cfg p).2.map (withPort · port)).filter (· != w.addr)
        let alternates := others.foldl (fun l a => insertAddr a l) w.alternates
        { r with nodes := r.nodes.set id { w with alternates := alternates } }
      | none => match (peerAddresses cfg p).1 with
        | none => r
        | some ip => r.ensureWatched cfg (withPort ip port)
            ((peerAddresses cfg p).2.map (withPort · port))

/-- The peers of an answer. -/
def peersOf (answer : Except String Value) : List (String × Value) :=
  match answer with
  | .ok snap => (snap.idx "peers").asObject.getD []
  | .error _ => []

/-- A poll of `addr`, with the node id that replied. -/
def pollStatus (now : Nat) (r : Router) (addr : String) (answer : Except String Value) :
    Option String × Router :=
  let r := if cfg.discoverPeers then
      (peersOf answer).foldl (fun r x => r.notePeer cfg x.1 x.2) r
    else r
  let stored := storeStatus now r.daemons addr answer
  (stored.1, { r with daemons := stored.2 })

/-- A fresh view lists the node, or the address, as a live peer. -/
def publishedAlive (now : Nat) (r : Router) (node : Option String) (addr : String) : Bool :=
  r.daemons.values.any fun v =>
    v.seen.any (fun s => decide (now - s ≤ cfg.pollInterval * 3)) &&
      ((v.status.bind fun snap => (snap.idx "peers").asObject).getD []).any fun x =>
        (x.2.idx "alive").asBool == some true &&
          (some x.1 == node || (x.2.idx "node_ip").asStr == some (hostOf addr) ||
            (x.2.idx "link_ip").asStr == some (hostOf addr) ||
            ((x.2.idx "addrs").asArray.getD []).any fun a => a.asStr == some (hostOf addr))

/-- What `try_alternates` goes through. -/
def alternatesOf (r : Router) (id current : String) : List String :=
  let alts := (((r.nodes.get id).map (·.alternates)).getD []).filter (· != current)
  let back (a : String) := a.startsWith "127." || a.startsWith "::1"
  alts.filter (!back ·) ++ alts.filter back

/-! ## The steps of a task -/

def setTask (r : Router) (i : Nat) (t : WatchTask) : Router := { r with tasks := r.tasks.set i t }

/-- Nothing has replied for `model_ttl`, and nobody lists the node as alive. -/
def forgets (now : Nat) (r : Router) (t : WatchTask) : Bool :=
  !t.seed && t.failingSince.any (fun s => decide (cfg.modelTtl < now - s)) &&
    !publishedAlive cfg now r t.node t.addr

/-- The end of a round in which nothing replied. -/
def giveUp (now : Nat) (r : Router) (i : Nat) (t : WatchTask) : Router :=
  if forgets cfg now r t then
    let r := r.dropWatch t.addr
    { r with
      nodes := match t.node with
        | some id => r.nodes.erase id
        | none => r.nodes
      tasks := r.tasks.erase i }
  else r.setTask i { t with phase := .polling }

/-- The poll of the watched address was not answered. -/
def failed (now : Nat) (r : Router) (i : Nat) (t : WatchTask) : Router :=
  let t := { t with failingSince := some (t.failingSince.getD now), lastPoll := none }
  match t.node, t.untried with
  | none, next :: rest =>
    let r := r.dropWatch t.addr
    { r with
      watched := insert next r.watched
      daemons := r.daemons.set next (.empty t.seed)
      tasks := r.tasks.set i { t with addr := next, untried := rest ++ [t.addr], phase := .polling } }
  | some id, _ =>
    let alts := r.alternatesOf id t.addr
    if alts = [] then r.giveUp cfg now i t else r.setTask i { t with phase := .trying alts }
  | none, [] => r.giveUp cfg now i t

/-- The poll of the watched address was answered. -/
def answered (now : Nat) (r : Router) (i : Nat) (t : WatchTask) (id : String) : Router :=
  let t := { t with failingSince := none, lastPoll := some id }
  if t.node = some id then r.setTask i { t with phase := .connecting }
  else
    let claim := r.claimNode cfg now id t.addr
    if claim.1 then
      let nodes := claim.2.nodes.modify id fun w =>
        { w with alternates := t.untried.foldl (fun l a => insertAddr a l) w.alternates }
      { claim.2 with nodes := nodes }.setTask i
        { t with node := some id, untried := [], phase := .connecting }
    else
      let r := claim.2.dropWatch t.addr
      { r with tasks := r.tasks.erase i }

/-- The address of the watch that has the node. -/
def holder (r : Router) (id : String) : Option String := (r.nodes.get id).map (·.addr)

/-- Another watch has its node. -/
def lost (r : Router) (t : WatchTask) : Bool :=
  t.node.any fun id => (r.holder id).any (· != t.addr)

/-- The task writes the view of a daemon. -/
def writes (r : Router) (t : WatchTask) : Router := { r with trespass := r.trespass || r.lost t }

/-- The address a task polls next. -/
def polledAddr (t : WatchTask) : String :=
  match t.phase with
  | .trying (alt :: _) => alt
  | _ => t.addr

/-- An answer is stored, and an error where there is a row. -/
def stores (r : Router) (addr : String) (answer : Except String Value) : Bool :=
  answer.isOk || r.daemons.has addr

/-- An alternate was polled, and the last of them ends the round. -/
def tried (now : Nat) (r : Router) (i : Nat) (t : WatchTask) (alt : String) (rest : List String)
    (reply : Option String) : Router :=
  match t.node with
  | some id =>
    if reply = some id then (r.moveWatch id t.addr alt).setTask i
      { t with addr := alt, failingSince := none, lastPoll := reply, phase := .polling }
    else if rest = [] then r.giveUp cfg now i { t with lastPoll := reply }
    else r.setTask i { t with lastPoll := reply, phase := .trying rest }
  | none => r

/-- The snapshot was read again beside the stream. -/
def reread (r : Router) (i : Nat) (t : WatchTask) : Option String → Router
  | some id => r.setTask i
      { t with lastPoll := some id, lastSeq := anchoredSeq r.daemons t.addr, phase := .streaming }
  | none => r.setTask i { t with lastPoll := none, lastSeq := none, phase := .polling }

def polled (r : Router) (i : Nat) (t : WatchTask) (answer : Except String Value) (now : Nat) :
    Option Router :=
  let p := (if r.stores (polledAddr t) answer then r.writes t else r).pollStatus cfg now
    (polledAddr t) answer
  match t.phase, p.1 with
  | .polling, some id => some (p.2.answered cfg now i t id)
  | .polling, none => some (p.2.failed cfg now i t)
  | .trying (alt :: rest), reply => some (p.2.tried cfg now i t alt rest reply)
  | .streaming, reply => some (p.2.reread i t reply)
  | .resyncing, reply => some (p.2.reread i t reply)
  | _, _ => none

inductive Act where
  | announced (node target : String) (others : List String)
  | start (i : Nat)
  | polled (i : Nat) (answer : Except String Value) (now : Nat)
  | connected (i : Nat) (result : Except String Unit)
  | frame (i : Nat) (ev : Value) (now : Nat)
  | streamLost (i : Nat)

def announced (r : Router) (node target : String) (others : List String) : Router :=
  match if node = "" then none else r.nodes.get node with
  | some w =>
    if w.addr = target then r
    else
      let w := { w with alternates := insertAddr target w.alternates }
      { r with nodes := r.nodes.set node w }
  | none => r.ensureWatched cfg target others

def start (r : Router) (i : Nat) (t : WatchTask) : Router :=
  let d := if r.daemons.has t.addr then r.daemons else r.daemons.set t.addr (.empty t.seed)
  { r with daemons := d }.setTask i { t with phase := .polling }

def connected (r : Router) (i : Nat) (t : WatchTask) : Except String Unit → Router
  | .ok () => r.setTask i { t with phase := .streaming, lastSeq := none }
  | .error e =>
    let view := (r.daemons.get t.addr).getD (.empty t.seed)
    let d := r.daemons.set t.addr { view with error := some ("/events: " ++ e) }
    { r.writes t with daemons := d }.setTask i { t with phase := .polling }

def frame (r : Router) (i : Nat) (t : WatchTask) (ev : Value) (now : Nat) : Router :=
  let a := applyFrame now r.daemons t.addr t.node ev t.lastSeq
  let r := if a.1 = Applied.yes then r.writes t else r
  let phase := if a.1 = Applied.resync then .resyncing else .streaming
  { r with daemons := a.2.1 }.setTask i { t with lastSeq := a.2.2, phase := phase }

/-- The task, where it is in the phase. -/
def inPhase (r : Router) (i : Nat) (phase : WatchPhase) : Option WatchTask :=
  (r.tasks.get i).filter (·.phase == phase)

def step (r : Router) : Act → Option Router
  | .announced node target others => some (r.announced cfg node target others)
  | .start i => (r.inPhase i .starting).map (r.start i)
  | .polled i answer now => (r.tasks.get i).bind fun t => r.polled cfg i t answer now
  | .connected i result => (r.inPhase i .connecting).map (r.connected i · result)
  | .frame i ev now => (r.inPhase i .streaming).map (r.frame i · ev now)
  | .streamLost i => (r.inPhase i .streaming).map fun t =>
    r.setTask i { t with phase := .polling, lastSeq := none }

end Router

/-- Every run of the router's watches, which begin with the seeds. -/
def router (cfg : WatchCfg) : System Router Router.Act where
  init r := r = cfg.seeds.foldl (fun r d => r.ensureWatched cfg d []) .empty
  next := Router.step cfg

end Mentat
