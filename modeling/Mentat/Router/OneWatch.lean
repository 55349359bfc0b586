import Mentat.Router.Watch

/-!
# One watch per node

A task that has lost its node to another watch is not told. It goes on polling, and what it does then
depends on who replies.

* `one_watch_per_node`: in a run in which no task writes or forgets after it has lost its node, and
  none comes to an address where another is, a node has one watch.
* `two_watches`: a holder that was out of reach for a while has lost its node and goes on.
-/

namespace Mentat

/-- The task's last poll was answered by the node it has claimed. -/
def WatchTask.counted (t : WatchTask) : Bool := t.node.isSome && t.lastPoll == t.node

namespace Router

variable (cfg : WatchCfg)

/-! ## Runs without a second watch -/

/-- The node the task has claimed is not its own by `nodes`. -/
def astray (r : Router) (t : WatchTask) : Bool := t.node.any fun id => r.holder id != some t.addr

/-- `ensureWatched` starts a watch there. -/
def unwatched (r : Router) (a : String) : Bool := !r.isAlternate a && decide (a ∉ r.watched)

def vacant (r : Router) (a : String) : Bool := r.tasks.values.all (·.addr != a)

/-- No task but this one is at the address. -/
def elsewhere (r : Router) (i : Nat) (a : String) : Bool :=
  r.tasks.rows.all fun x => x.1 == i || x.2.addr != a

/-- Where a peer of a snapshot is watched, when it is not yet. -/
def peerTarget (r : Router) (id : String) (p : Value) : Option String :=
  (p.idx "http_port").asU64.bind fun port =>
    if port = 0 ∨ (p.idx "alive").asBool ≠ some true ∨ (r.nodes.get id).isSome then none
    else (peerAddresses cfg p).1.map (withPort · port)

/-- Where an answer starts watches. -/
def targets (r : Router) (answer : Except String Value) : List String :=
  if cfg.discoverPeers then
    ((peersOf answer).filterMap fun x => r.peerTarget cfg x.1 x.2).filter r.unwatched
  else []

/-- A claim at `addr` takes the node from a watch that is stale, and a task there goes on with an
answer to its last poll. -/
def overtakes (now : Nat) (r : Router) (id addr : String) : Bool :=
  (r.holder id).any fun b =>
    b != addr && !fresh cfg now r b && r.tasks.values.any fun u => u.addr == b && u.counted

/-- The round ends with this poll, unless it is answered. -/
def lastOfRound (r : Router) (t : WatchTask) : Bool :=
  match t.phase, t.node with
  | .polling, some id => (r.alternatesOf id t.addr).isEmpty
  | .trying [_], _ => true
  | _, _ => false

/-- The node id in an answer. -/
def replied (answer : Except String Value) : Option String :=
  match answer with
  | .ok snap => (snap.idx "node_id").asStr
  | .error _ => none

/-- Nobody is at the address this poll moves the task to, and the answer starts no watch there. -/
def movesClear (r : Router) (i : Nat) (t : WatchTask) (answer : Except String Value) : Bool :=
  match t.phase, t.node, t.untried, replied answer with
  | .polling, none, next :: _, none => r.elsewhere i next && next ∉ r.targets cfg answer
  | .trying (alt :: _), some id, _, some id' =>
    id != id' || (r.elsewhere i alt && alt ∉ r.targets cfg answer)
  | _, _, _, _ => true

/-- A task that has lost its node gets no answer, has no row to write an error to, and does not forget
the node. -/
def yields (now : Nat) (r : Router) (t : WatchTask) (answer : Except String Value) : Bool :=
  !r.astray t || (!r.stores (polledAddr t) answer && !(r.lastOfRound t && forgets cfg now r t))

/-- A claim does not take a node from a task that has an answer. -/
def claimsClear (now : Nat) (r : Router) (t : WatchTask) (answer : Except String Value) : Bool :=
  match t.phase, replied answer with
  | .polling, some id => t.node == some id || !overtakes cfg now r id t.addr
  | _, _ => true

/-- No task acts after it has lost its node, and none comes to an address where another is. -/
def Act.orderly (r : Router) : Act → Bool
  | .announced node target _ =>
    (node != "" && r.nodes.has node) || !r.unwatched target || r.vacant target
  | .polled i answer now => (r.tasks.get i).all fun t =>
    yields cfg now r t answer && (r.targets cfg answer).all r.vacant &&
      movesClear cfg r i t answer && claimsClear cfg now r t answer
  | .frame i _ _ => (r.tasks.get i).all fun t => !r.astray t || !r.daemons.has t.addr
  | _ => true

/-- What holds of each task. -/
structure Tended (r : Router) (t : WatchTask) : Prop where
  counted : t.counted = true → r.astray t = false ∧ r.daemons.has t.addr = true
  trying : ∀ l, t.phase = .trying l → t.addr ∉ l
  connecting : t.phase = .connecting → t.counted = true

structure OneWatch (r : Router) : Prop where
  ids : ∀ i t, r.tasks.get i = some t → i < r.nextTask
  apart : ∀ i j t u, r.tasks.get i = some t → r.tasks.get j = some u → t.addr = u.addr → i = j
  each : ∀ i t, r.tasks.get i = some t → r.Tended t
  yielded : r.trespass = false

variable {cfg} {r r' : Router} {i : Nat} {t : WatchTask}

theorem astray_eq_false : r.astray t = false ↔ ∀ id, t.node = some id → r.holder id = some t.addr := by
  cases hn : t.node <;> simp [astray, hn]

theorem astray_of_lost (h : r.astray t = false) : r.lost t = false := by
  rw [astray_eq_false] at h
  cases hn : t.node with
  | none => simp [lost, hn]
  | some id => simp [lost, hn, h id hn]

theorem vacant_iff {a : String} : r.vacant a = true ↔ ∀ j u, r.tasks.get j = some u → u.addr ≠ a := by
  simp only [vacant, List.all_eq_true, Table.mem_values, bne_iff_ne]
  exact ⟨fun h j u hu => h u ⟨j, hu⟩, fun h u hu => hu.elim fun j hj => h j u hj⟩

theorem elsewhere_iff {a : String} :
    r.elsewhere i a = true ↔ ∀ j u, r.tasks.get j = some u → j ≠ i → u.addr ≠ a := by
  simp only [elsewhere, List.all_eq_true, Bool.or_eq_true, beq_iff_eq, bne_iff_ne, Prod.forall,
    Table.mem_rows]
  exact ⟨fun h j u hu hj => (h j u hu).resolve_left hj,
    fun h j u hu => or_iff_not_imp_left.mpr fun hj => h j u hu hj⟩

/-- A task is as before when its node and its row are. -/
theorem Tended.of (h : r.Tended t)
    (hnode : t.counted = true → ∀ id, t.node = some id → r.holder id = some t.addr →
      r'.holder id = some t.addr)
    (hrow : t.counted = true → r.daemons.has t.addr = true → r'.daemons.has t.addr = true) :
    r'.Tended t where
  counted hc := by
    obtain ⟨hown, hhas⟩ := h.counted hc
    rw [astray_eq_false] at hown ⊢
    exact ⟨fun id hid => hnode hc id hid (hown id hid), hrow hc hhas⟩
  trying := h.trying
  connecting := h.connecting

theorem Tended.uncounted (hc : t.counted = false) (ht : ∀ l, t.phase = .trying l → t.addr ∉ l)
    (hp : t.phase ≠ .connecting) : r.Tended t where
  counted hc' := by
    rw [hc] at hc'
    cases hc'
  trying := ht
  connecting hp' := absurd hp' hp

/-- One task is replaced, and the others keep what they have. -/
theorem OneWatch.replace (h : r.OneWatch) {t' : WatchTask} (ht : r.tasks.get i = some t)
    (htasks : r'.tasks = r.tasks.set i t') (hnext : r'.nextTask = r.nextTask)
    (hfree : r'.trespass = false) (haddr : t'.addr = t.addr ∨ r.elsewhere i t'.addr = true)
    (hothers : ∀ j u, j ≠ i → r.tasks.get j = some u → r.Tended u → r'.Tended u)
    (hown : r'.Tended t') : r'.OneWatch := by
  have haway : ∀ j u, j ≠ i → r.tasks.get j = some u → u.addr ≠ t'.addr := by
    intro j u hj hu
    rcases haddr with haddr | haddr
    · exact fun he => hj (h.apart j i u t hu ht (he.trans haddr))
    · exact elsewhere_iff.mp haddr j u hu hj
  refine ⟨fun j u hu => ?_, fun j k u v hu hv he => ?_, fun j u hu => ?_, hfree⟩
  · rw [htasks] at hu
    rw [hnext]
    rcases Table.get_set_some hu with ⟨rfl, rfl⟩ | ⟨-, hu⟩
    · exact h.ids j t ht
    · exact h.ids j u hu
  · rw [htasks] at hu hv
    rcases Table.get_set_some hu with ⟨rfl, rfl⟩ | ⟨hj, hu'⟩
    · rcases Table.get_set_some hv with ⟨rfl, -⟩ | ⟨hk, hv'⟩
      · rfl
      · exact absurd he.symm (haway k v hk hv')
    · rcases Table.get_set_some hv with ⟨rfl, rfl⟩ | ⟨hk, hv'⟩
      · exact absurd he (haway j u hj hu')
      · exact h.apart j k u v hu' hv' he
  · rw [htasks] at hu
    rcases Table.get_set_some hu with ⟨rfl, rfl⟩ | ⟨hj, hu⟩
    · exact hown
    · exact hothers j u hj hu (h.each j u hu)

/-- One task ends, and the others keep what they have. -/
theorem OneWatch.leave (h : r.OneWatch) (htasks : r'.tasks = r.tasks.erase i)
    (hnext : r'.nextTask = r.nextTask) (hfree : r'.trespass = false)
    (hothers : ∀ j u, j ≠ i → r.tasks.get j = some u → r.Tended u → r'.Tended u) : r'.OneWatch := by
  refine ⟨fun j u hu => ?_, fun j k u v hu hv he => ?_, fun j u hu => ?_, hfree⟩
  · rw [htasks] at hu
    rw [hnext]
    exact h.ids j u (Table.get_erase_some hu).2
  · rw [htasks] at hu hv
    exact h.apart j k u v (Table.get_erase_some hu).2 (Table.get_erase_some hv).2 he
  · rw [htasks] at hu
    obtain ⟨hj, hu⟩ := Table.get_erase_some hu
    exact hothers j u hj hu (h.each j u hu)

/-- The tasks stay, with what they have. -/
theorem OneWatch.stay (h : r.OneWatch) (htasks : r'.tasks = r.tasks)
    (hnext : r'.nextTask = r.nextTask) (hfree : r'.trespass = false)
    (hothers : ∀ j u, r.tasks.get j = some u → r.Tended u → r'.Tended u) : r'.OneWatch := by
  refine ⟨?_, ?_, fun j u hu => ?_, hfree⟩
  · rw [htasks, hnext]
    exact h.ids
  · rw [htasks]
    exact h.apart
  · rw [htasks] at hu
    exact hothers j u hu (h.each j u hu)

/-! ## Finding peers -/

theorem mem_insertAddr {a b : String} {l : List String} : a ∈ insertAddr b l ↔ a = b ∨ a ∈ l := by
  rw [insertAddr]
  split
  · next hb => exact ⟨.inr, fun h => h.elim (fun he => he ▸ hb) id⟩
  · rw [List.mem_append, List.mem_cons, or_left_comm, ← List.mem_append, List.takeWhile_append_dropWhile]

theorem mem_foldl_insertAddr {a : String} {l l' : List String} (h : a ∈ l) :
    a ∈ l'.foldl (fun l b => insertAddr b l) l := by
  induction l' generalizing l with
  | nil => exact h
  | cons b rest ih => exact ih (mem_insertAddr.mpr (.inr h))

/-- More addresses are known, and tasks were started at some of them. -/
structure Found (S : String → Prop) (r r' : Router) : Prop where
  daemons : r'.daemons = r.daemons
  trespass : r'.trespass = r.trespass
  holder : ∀ id, r'.holder id = r.holder id
  unwatched : ∀ a, r'.unwatched a = true → r.unwatched a = true
  old : ∀ j u, r.tasks.get j = some u → r'.tasks.get j = some u
  new : ∀ j u, r'.tasks.get j = some u → r.tasks.get j = some u ∨
    (r.unwatched u.addr = true ∧ r'.unwatched u.addr = false ∧ S u.addr ∧ u.counted = false)

theorem Found.refl {S : String → Prop} (r : Router) : Found S r r :=
  ⟨rfl, rfl, fun _ => rfl, fun _ h => h, fun _ _ h => h, fun _ _ h => .inl h⟩

theorem Found.trans {S : String → Prop} {r1 r2 r3 : Router} (h : Found S r1 r2) (h' : Found S r2 r3) :
    Found S r1 r3 where
  daemons := h'.daemons.trans h.daemons
  trespass := h'.trespass.trans h.trespass
  holder id := (h'.holder id).trans (h.holder id)
  unwatched a ha := h.unwatched a (h'.unwatched a ha)
  old j u hu := h'.old j u (h.old j u hu)
  new j u hu := by
    rcases h'.new j u hu with hu | ⟨hun, hun', hS, hc⟩
    · rcases h.new j u hu with hu | ⟨hun, hun', hS, hc⟩
      · exact .inl hu
      · have hstill : r3.unwatched u.addr ≠ true := fun ht =>
          absurd (h'.unwatched u.addr ht) (by rw [hun']; exact Bool.false_ne_true)
        exact .inr ⟨hun, Bool.not_eq_true _ ▸ hstill, hS, hc⟩
    · exact .inr ⟨h.unwatched u.addr hun, hun', hS, hc⟩

theorem Found.mono {S S' : String → Prop} (h : Found S r r') (hS : ∀ a, S a → S' a) : Found S' r r' :=
  { h with new := fun j u hu => (h.new j u hu).imp_right fun ⟨h1, h2, h3, h4⟩ => ⟨h1, h2, hS _ h3, h4⟩ }

/-- Where no watch would be started over another, none will be. -/
theorem Found.vacant {S : String → Prop} (h : Found S r r') {a : String}
    (ha : r.unwatched a = true → r.vacant a = true) (hun : r'.unwatched a = true) :
    r'.vacant a = true := by
  rw [vacant_iff]
  intro j u hu he
  rcases h.new j u hu with hu | ⟨-, hun', -⟩
  · exact vacant_iff.mp (ha (h.unwatched a hun)) j u hu he
  · rw [he, hun] at hun'
    cases hun'

theorem holder_set {id id' : String} {w : NodeWatch} :
    holder { r with nodes := r.nodes.set id w } id' = if id' = id then some w.addr else r.holder id' := by
  simp only [holder, Table.get_set]
  split <;> rfl

/-- A watch learns more alternates. -/
theorem found_alternates {S : String → Prop} {id : String} {w : NodeWatch} {l : List String}
    (hw : r.nodes.get id = some w) (hl : ∀ a ∈ w.alternates, a ∈ l) :
    Found S r { r with nodes := r.nodes.set id { w with alternates := l } } where
  daemons := rfl
  trespass := rfl
  holder id' := by
    rw [holder_set]
    split
    · next he => rw [he, holder, hw, Option.map_some]
    · rfl
  unwatched a ha := by
    simp only [Router.unwatched, isAlternate, Bool.and_eq_true, Bool.not_eq_true',
      List.any_eq_false, Table.mem_values] at ha ⊢
    refine ⟨?_, ha.2⟩
    rintro w' ⟨id', hw'⟩
    by_cases he : id' = id
    · subst he
      rw [hw] at hw'
      cases hw'
      have hno := ha.1 { w with alternates := l } ⟨id', Table.get_set_self _ _ _⟩
      simp only [List.contains_iff_mem] at hno ⊢
      exact fun hmem => hno (hl a hmem)
    · exact ha.1 w' ⟨id', (Table.get_set_of_ne he).trans hw'⟩
  old _ _ hu := hu
  new _ _ hu := .inl hu

theorem OneWatch.alternates (h : r.OneWatch) {id : String} {w : NodeWatch} {l : List String}
    (hw : r.nodes.get id = some w) :
    OneWatch { r with nodes := r.nodes.set id { w with alternates := l } } := by
  refine h.stay rfl rfl h.yielded fun j u _ hu => hu.of (fun _ id' _ hown => ?_) fun _ hrow => hrow
  rw [holder_set]
  split
  · next he => rw [← hown, he, holder, hw, Option.map_some]
  · exact hown

theorem unwatched_eq_true {a : String} :
    r.unwatched a = true ↔ r.isAlternate a = false ∧ a ∉ r.watched := by
  simp [unwatched]

/-- A watch is started, or one is there. -/
theorem ensureWatched_cases (r : Router) (a : String) (others : List String) :
    (r.unwatched a = false ∧ r.ensureWatched cfg a others = r) ∨
      (r.unwatched a = true ∧ r.ensureWatched cfg a others = { r with
        watched := insert a r.watched
        tasks := r.tasks.set r.nextTask (task cfg a others)
        nextTask := r.nextTask + 1 }) := by
  rw [ensureWatched]
  split
  · next halt => exact .inl ⟨by simp [unwatched, halt], rfl⟩
  · next halt =>
    split
    · next hw => exact .inl ⟨by simp [unwatched, hw], rfl⟩
    · next hw => exact .inr ⟨by simp [unwatched, halt, hw], rfl⟩

theorem OneWatch.ensureWatched (h : r.OneWatch) {a : String} {others : List String}
    (ha : r.unwatched a = true → r.vacant a = true) : (r.ensureWatched cfg a others).OneWatch := by
  rcases @ensureWatched_cases cfg r a others with ⟨-, he⟩ | ⟨hun, he⟩
  · rw [he]
    exact h
  · have haway := vacant_iff.mp (ha hun)
    rw [he]
    refine ⟨fun j u hu => ?_, fun j k u v hu hv hadd => ?_, fun j u hu => ?_, h.yielded⟩
    · rcases Table.get_set_some hu with ⟨rfl, -⟩ | ⟨-, hu⟩
      · exact Nat.lt_succ_self _
      · exact Nat.lt_succ_of_lt (h.ids j u hu)
    · rcases Table.get_set_some hu with ⟨rfl, rfl⟩ | ⟨hj, hu'⟩
      · rcases Table.get_set_some hv with ⟨rfl, -⟩ | ⟨-, hv'⟩
        · rfl
        · exact absurd hadd.symm (haway k v hv')
      · rcases Table.get_set_some hv with ⟨rfl, rfl⟩ | ⟨-, hv'⟩
        · exact absurd hadd (haway j u hu')
        · exact h.apart j k u v hu' hv' hadd
    · rcases Table.get_set_some hu with ⟨-, rfl⟩ | ⟨-, hu'⟩
      · exact .uncounted rfl (fun l hl => (by cases hl)) fun hp => by cases hp
      · exact (h.each j u hu').of (fun _ _ _ hown => hown) fun _ hrow => hrow

theorem ensureWatched_found {S : String → Prop} (h : r.OneWatch) {a : String} {others : List String}
    (ha : S a) : Found S r (r.ensureWatched cfg a others) := by
  rcases @ensureWatched_cases cfg r a others with ⟨-, he⟩ | ⟨hun, he⟩
  · rw [he]
    exact .refl r
  · rw [he]
    refine ⟨rfl, rfl, fun _ => rfl, fun b hb => ?_, fun j u hu => ?_, fun j u hu => ?_⟩
    · rw [unwatched_eq_true] at hb ⊢
      exact ⟨hb.1, fun hmem => hb.2 (Finset.mem_insert_of_mem hmem)⟩
    · have hlt := h.ids j u hu
      exact (Table.get_set_of_ne (Nat.ne_of_lt hlt)).trans hu
    · rcases Table.get_set_some hu with ⟨-, rfl⟩ | ⟨-, hu⟩
      · exact .inr ⟨hun, by simp [unwatched, task], ha, rfl⟩
      · exact .inl hu

/-- One peer: where it starts a watch, nobody is. -/
theorem notePeer_found (h : r.OneWatch) {id : String} {p : Value}
    (hv : ∀ a, r.peerTarget cfg id p = some a → r.unwatched a = true → r.vacant a = true) :
    (r.notePeer cfg id p).OneWatch ∧
      Found (fun a => r.peerTarget cfg id p = some a) r (r.notePeer cfg id p) := by
  unfold notePeer
  cases hport : (p.idx "http_port").asU64 with
  | none => exact ⟨h, .refl r⟩
  | some port =>
    simp only
    split
    · exact ⟨h, .refl r⟩
    · next hlive =>
      rw [not_or] at hlive
      cases hw : r.nodes.get id with
      | some w =>
        exact ⟨h.alternates hw, found_alternates hw fun a ha => mem_foldl_insertAddr ha⟩
      | none =>
        cases hbest : (peerAddresses cfg p).1 with
        | none => exact ⟨h, .refl r⟩
        | some ip =>
          have htarget : r.peerTarget cfg id p = some (withPort ip port) := by
            simp [peerTarget, hport, hlive, hw, hbest]
          exact ⟨h.ensureWatched (hv _ htarget), ensureWatched_found h htarget⟩

theorem Found.peerTarget {S : String → Prop} (h : Found S r r') (id : String) (p : Value) :
    r'.peerTarget cfg id p = r.peerTarget cfg id p := by
  have hsome : (r'.nodes.get id).isSome = (r.nodes.get id).isSome := by
    have hh := congrArg Option.isSome (h.holder id)
    simpa [Router.holder] using hh
  rw [Router.peerTarget, Router.peerTarget, hsome]

/-- All the peers of an answer. -/
theorem notePeers_found (peers : List (String × Value)) (h : r.OneWatch)
    (hv : ∀ x ∈ peers, ∀ a, r.peerTarget cfg x.1 x.2 = some a → r.unwatched a = true →
      r.vacant a = true) :
    (peers.foldl (fun r x => r.notePeer cfg x.1 x.2) r).OneWatch ∧
      Found (fun a => ∃ x ∈ peers, r.peerTarget cfg x.1 x.2 = some a) r
        (peers.foldl (fun r x => r.notePeer cfg x.1 x.2) r) := by
  induction peers generalizing r with
  | nil => exact ⟨h, .refl r⟩
  | cons x rest ih =>
    obtain ⟨hone, hfound⟩ := notePeer_found h fun a => hv x List.mem_cons_self a
    obtain ⟨hone', hfound'⟩ := ih hone fun y hy a ha hun =>
      hfound.vacant (hv y (List.mem_cons_of_mem x hy) a (hfound.peerTarget y.1 y.2 ▸ ha)) hun
    refine ⟨hone', (hfound.mono fun a ha => ⟨x, List.mem_cons_self, ha⟩).trans
      (hfound'.mono fun a ha => ?_)⟩
    obtain ⟨y, hy, ha⟩ := ha
    exact ⟨y, List.mem_cons_of_mem x hy, hfound.peerTarget y.1 y.2 ▸ ha⟩

/-- The peers of an answer, where it starts watches at vacant addresses only. -/
theorem peers_found {answer : Except String Value} (h : r.OneWatch)
    (hv : ∀ a ∈ r.targets cfg answer, r.vacant a = true) :
    let r' := if cfg.discoverPeers then
        (peersOf answer).foldl (fun r x => r.notePeer cfg x.1 x.2) r
      else r
    r'.OneWatch ∧ Found (fun a => r.unwatched a = true → a ∈ r.targets cfg answer) r r' := by
  simp only
  split
  · next hd =>
    have hmem : ∀ x ∈ peersOf answer, ∀ a, r.peerTarget cfg x.1 x.2 = some a →
        r.unwatched a = true → a ∈ r.targets cfg answer := by
      intro x hx a ha hun
      rw [targets, if_pos hd, List.mem_filter, List.mem_filterMap]
      exact ⟨⟨x, hx, ha⟩, hun⟩
    obtain ⟨hone, hfound⟩ := notePeers_found (peersOf answer) h fun x hx a ha hun =>
      hv a (hmem x hx a ha hun)
    exact ⟨hone, hfound.mono fun a ⟨x, hx, ha⟩ => hmem x hx a ha⟩
  · exact ⟨h, .refl r⟩

/-! ## What a poll leaves -/

/-- After the answer is stored. -/
structure Stored (cfg : WatchCfg) (r r' : Router) (addr : String) (answer : Except String Value) :
    Prop where
  one : r'.OneWatch
  holder : ∀ id, r'.holder id = r.holder id
  task : ∀ j u, r.tasks.get j = some u → r'.tasks.get j = some u
  counted : ∀ j u, r'.tasks.get j = some u → u.counted = true → r.tasks.get j = some u
  elsewhere : ∀ j a, r.elsewhere j a = true → a ∉ r.targets cfg answer → r'.elsewhere j a = true
  rows : ∀ b, b ≠ addr → r'.daemons.get b = r.daemons.get b
  row : answer.isOk = true → r'.daemons.has addr = true

theorem storeStatus_get_of_ne {now : Nat} {d : Views} {addr b : String}
    {answer : Except String Value} (h : b ≠ addr) :
    (storeStatus now d addr answer).2.get b = d.get b := by
  cases answer with
  | ok snap => exact Table.get_set_of_ne h
  | error e => exact Table.get_modify_of_ne h

theorem storeStatus_has {now : Nat} {d : Views} {addr b : String} {answer : Except String Value}
    (h : d.has b = true) : (storeStatus now d addr answer).2.has b = true := by
  cases answer with
  | ok snap => exact Table.has_set.mpr (.inr h)
  | error e =>
    obtain ⟨v, hv⟩ := Table.has_iff.mp h
    rw [storeStatus, Table.has, Table.get_modify]
    split <;> simp [hv]

theorem storeStatus_fst (now : Nat) (d : Views) (addr : String) (answer : Except String Value) :
    (storeStatus now d addr answer).1 = replied answer := by
  cases answer <;> rfl

theorem isOk_of_replied {answer : Except String Value} {id : String} (h : replied answer = some id) :
    answer.isOk = true := by
  cases answer with
  | ok snap => rfl
  | error e => cases h

theorem pollStatus_stored {now : Nat} {addr : String} {answer : Except String Value} (h : r.OneWatch)
    (hv : ∀ a ∈ r.targets cfg answer, r.vacant a = true) :
    (r.pollStatus cfg now addr answer).1 = replied answer ∧
      Stored cfg r (r.pollStatus cfg now addr answer).2 addr answer := by
  obtain ⟨hone, hfound⟩ := peers_found h hv
  simp only [pollStatus]
  generalize (if cfg.discoverPeers then
    (peersOf answer).foldl (fun r x => r.notePeer cfg x.1 x.2) r else r) = r1 at hone hfound
  refine ⟨storeStatus_fst now r1.daemons addr answer, ?_, hfound.holder, hfound.old, ?_, ?_, ?_, ?_⟩
  · exact hone.stay rfl rfl hone.yielded fun j u _ hu =>
      hu.of (fun _ _ _ hown => hown) fun _ hrow => storeStatus_has hrow
  · intro j u hu hc
    rcases hfound.new j u hu with hu | ⟨-, -, -, hno⟩
    · exact hu
    · rw [hno] at hc
      cases hc
  · intro j a ha hno
    rw [elsewhere_iff] at ha ⊢
    intro k u hu hk he
    rcases hfound.new k u hu with hu | ⟨hun, -, htarget, -⟩
    · exact ha k u hu hk he
    · exact hno (he ▸ htarget hun)
  · intro b hb
    rw [← hfound.daemons]
    exact storeStatus_get_of_ne hb
  · intro hok
    cases answer with
    | ok snap => exact Table.has_set.mpr (.inl rfl)
    | error e => cases hok

/-! ## The steps keep one watch -/

theorem not_counted_of_ne {t : WatchTask} {id : String} (hn : t.node = some id)
    (hp : t.lastPoll ≠ some id) : t.counted = false := by
  simp [WatchTask.counted, hn, hp]

theorem not_counted_of_none {t : WatchTask} (hp : t.lastPoll = none) : t.counted = false := by
  cases hn : t.node <;> simp [WatchTask.counted, hn, hp]

/-- The task goes on at its address with its node. -/
theorem OneWatch.go_on (h : r.OneWatch) (ht : r.tasks.get i = some t) {t' : WatchTask}
    (htasks : r'.tasks = r.tasks.set i t') (hnext : r'.nextTask = r.nextTask)
    (hfree : r'.trespass = false) (hholder : ∀ id, r'.holder id = r.holder id)
    (hrows : ∀ a, r.daemons.has a = true → r'.daemons.has a = true) (haddr : t'.addr = t.addr)
    (hown : r'.Tended t') : r'.OneWatch :=
  h.replace ht htasks hnext hfree (.inl haddr)
    (fun _ _ _ _ hu => hu.of (fun _ id _ hown => (hholder id).trans hown) fun _ => hrows _) hown

/-- A task that is counted is still counted in another phase. -/
theorem Tended.phase (h : r.Tended t) {t' : WatchTask} (haddr : t'.addr = t.addr)
    (hnode : t'.node = t.node) (hpoll : t'.lastPoll = t.lastPoll)
    (hphase : t'.phase = .polling ∨ t'.phase = .streaming ∨ t'.phase = .resyncing)
    (hholder : ∀ id, r'.holder id = r.holder id)
    (hrows : ∀ a, r.daemons.has a = true → r'.daemons.has a = true) : r'.Tended t' where
  counted hc := by
    have hc' : t.counted = true := by simpa [WatchTask.counted, hnode, hpoll] using hc
    obtain ⟨hown, hrow⟩ := h.counted hc'
    rw [astray_eq_false] at hown ⊢
    rw [hnode, haddr]
    exact ⟨fun id hid => (hholder id).trans (hown id hid), hrows _ hrow⟩
  trying l hl := by
    rcases hphase with hp | hp | hp <;> rw [hp] at hl <;> cases hl
  connecting hp' := by
    rcases hphase with hp | hp | hp <;> rw [hp] at hp' <;> cases hp'

theorem holder_erase {id id' : String} :
    holder { r with nodes := r.nodes.erase id } id' = if id' = id then none else r.holder id' := by
  simp only [holder, Table.get_erase]
  split <;> rfl

theorem holder_modify {id id' : String} {f : NodeWatch → NodeWatch} :
    holder { r with nodes := r.nodes.modify id f } id' =
      if id' = id then (r.nodes.get id').map fun w => (f w).addr else r.holder id' := by
  simp only [holder, Table.get_modify]
  split
  · rw [Option.map_map]
    rfl
  · rfl

/-- Another task's row stays when a row is dropped where this task is. -/
theorem OneWatch.others_has (h : r.OneWatch) (ht : r.tasks.get i = some t) {j : Nat} {u : WatchTask}
    (hj : j ≠ i) (hu : r.tasks.get j = some u) (hrow : r.daemons.has u.addr = true) :
    (r.daemons.erase t.addr).has u.addr = true :=
  Table.has_erase.mpr ⟨fun he => hj (h.apart j i u t hu ht he), hrow⟩

theorem OneWatch.giveUp (h : r.OneWatch) (ht : r.tasks.get i = some t) {t' : WatchTask} {now : Nat}
    (haddr : t'.addr = t.addr) (hc : t'.counted = false)
    (hown : forgets cfg now r t' = true → r.astray t' = false) : (r.giveUp cfg now i t').OneWatch := by
  rw [Router.giveUp]
  split
  · next hf =>
    have hown' := astray_eq_false.mp (hown hf)
    refine h.leave (i := i) rfl rfl h.yielded fun j u hj hu hten => hten.of (fun _ id hid hold => ?_) ?_
    · cases hn : t'.node with
      | none => exact hold
      | some id' =>
        refine holder_erase.trans ?_
        rw [if_neg]
        · exact hold
        · rintro rfl
          have he := hold.symm.trans (hown' id hn)
          rw [haddr] at he
          exact hj (h.apart j i u t hu ht (Option.some.inj he))
    · intro _ hrow
      rw [haddr]
      exact h.others_has ht hj hu hrow
  · exact h.go_on ht rfl rfl h.yielded (fun _ => rfl) (fun _ ha => ha) haddr
      (.uncounted hc (fun l hl => (by cases hl)) fun hp => by cases hp)

theorem OneWatch.failed (h : r.OneWatch) (ht : r.tasks.get i = some t) {now : Nat}
    (hmove : ∀ next rest, t.node = none → t.untried = next :: rest → r.elsewhere i next = true)
    (hown : ∀ id, t.node = some id → r.alternatesOf id t.addr = [] →
      forgets cfg now r { t with failingSince := some (t.failingSince.getD now), lastPoll := none } =
        true → r.astray t = false) : (r.failed cfg now i t).OneWatch := by
  rw [Router.failed]
  split
  · next next rest hn hun =>
    refine h.replace ht rfl rfl h.yielded (.inr (hmove next rest hn hun)) ?_
      (.uncounted (not_counted_of_none rfl) (fun l hl => (by cases hl)) fun hp => by cases hp)
    intro j u hj hu hten
    exact hten.of (fun _ _ _ hold => hold) fun _ hrow =>
      Table.has_set.mpr (.inr (h.others_has ht hj hu hrow))
  · next id hn =>
    simp only
    split
    · next halts =>
      exact h.giveUp ht rfl (not_counted_of_none rfl) fun hf => hown id hn halts hf
    · refine h.go_on ht rfl rfl h.yielded (fun _ => rfl) (fun _ ha => ha) rfl
        (.uncounted (not_counted_of_none rfl) (fun l hl => ?_) fun hp => by cases hp)
      cases hl
      simp [alternatesOf]
  · next hn _ =>
    refine h.giveUp ht rfl (not_counted_of_none rfl) fun _ => ?_
    exact astray_eq_false.mpr fun id hid => by rw [show t.node = none from hn] at hid; cases hid

/-- A claim that succeeds: the node is this watch's, and only the row of the watch it was taken from
is gone. -/
theorem claimNode_claimed {now : Nat} {id addr : String}
    (hc : (r.claimNode cfg now id addr).1 = true) :
    (r.holder id = none ∨ r.holder id = some addr ∨
        ∃ b, r.holder id = some b ∧ b ≠ addr ∧ fresh cfg now r b = false) ∧
      (∀ id', (r.claimNode cfg now id addr).2.holder id' =
        if id' = id then some addr else r.holder id') ∧
      (∀ a, r.daemons.has a = true → (r.claimNode cfg now id addr).2.daemons.has a = true ∨
        (r.holder id = some a ∧ a ≠ addr ∧ fresh cfg now r a = false)) ∧
      (r.claimNode cfg now id addr).2.tasks = r.tasks ∧
      (r.claimNode cfg now id addr).2.nextTask = r.nextTask ∧
      (r.claimNode cfg now id addr).2.trespass = r.trespass := by
  unfold claimNode at hc ⊢
  cases hw : r.nodes.get id with
  | none =>
    refine ⟨.inl (by rw [holder, hw, Option.map_none]), fun id' => holder_set, fun a ha => .inl ha,
      rfl, rfl, rfl⟩
  | some w =>
    have hh : r.holder id = some w.addr := by rw [holder, hw, Option.map_some]
    simp only [hw] at hc ⊢
    split
    · next he =>
      refine ⟨.inr (.inl (he ▸ hh)), fun id' => ?_, fun a ha => .inl ha, rfl, rfl, rfl⟩
      split
      · next hid => rw [hid, hh, he]
      · rfl
    · next he =>
      simp only [he, if_false] at hc
      split
      · next hf => simp [hf] at hc
      · next hf =>
        have hf' : fresh cfg now r w.addr = false := Bool.not_eq_true _ ▸ hf
        refine ⟨.inr (.inr ⟨w.addr, hh, he, hf'⟩), fun id' => holder_set, fun a ha => ?_, rfl, rfl, rfl⟩
        by_cases hadd : a = w.addr
        · exact .inr ⟨hadd ▸ hh, hadd ▸ he, hadd ▸ hf'⟩
        · exact .inl (Table.has_erase.mpr ⟨hadd, ha⟩)

/-- A claim that fails leaves the node with its watch. -/
theorem claimNode_merged {now : Nat} {id addr : String}
    (hc : (r.claimNode cfg now id addr).1 = false) :
    (∀ id', (r.claimNode cfg now id addr).2.holder id' = r.holder id') ∧
      (r.claimNode cfg now id addr).2.daemons = r.daemons ∧
      (r.claimNode cfg now id addr).2.tasks = r.tasks ∧
      (r.claimNode cfg now id addr).2.nextTask = r.nextTask ∧
      (r.claimNode cfg now id addr).2.trespass = r.trespass := by
  unfold claimNode at hc ⊢
  cases hw : r.nodes.get id with
  | none => simp [hw] at hc
  | some w =>
    simp only [hw] at hc ⊢
    split
    · next he => simp [he] at hc
    · next he =>
      simp only [he, if_false] at hc
      split
      · refine ⟨fun id' => holder_set.trans ?_, rfl, rfl, rfl, rfl⟩
        split
        · next hid => rw [hid, holder, hw, Option.map_some]
        · rfl
      · next hf => simp [hf] at hc

theorem OneWatch.answered (h : r.OneWatch) (ht : r.tasks.get i = some t) {now : Nat} {id : String}
    (hrow : r.daemons.has t.addr = true) (hown : r.astray t = false)
    (hclaim : t.node = some id ∨ overtakes cfg now r id t.addr = false) :
    (r.answered cfg now i t id).OneWatch := by
  rw [Router.answered]
  simp only
  split
  · next hn =>
    have hown' := astray_eq_false.mp hown
    refine h.go_on ht rfl rfl h.yielded (fun _ => rfl) (fun _ ha => ha) rfl ⟨fun _ => ?_, ?_, ?_⟩
    · exact ⟨astray_eq_false.mpr hown', hrow⟩
    · exact fun l hl => (by cases hl)
    · exact fun _ => by simp [WatchTask.counted, hn]
  · next hn =>
    have hno := hclaim.resolve_left hn
    -- A task at the address the node is taken from has no answer.
    have hidle : ∀ b, r.holder id = some b → b ≠ t.addr → fresh cfg now r b = false →
        ∀ j u, r.tasks.get j = some u → u.counted = true → u.addr ≠ b := by
      intro b hb hbt hf j u hu hc he
      have hyes : overtakes cfg now r id t.addr = true := by
        simp only [overtakes, hb, Option.any_some, Bool.and_eq_true, bne_iff_ne, Bool.not_eq_true',
          List.any_eq_true, beq_iff_eq, Table.mem_values]
        exact ⟨⟨hbt, hf⟩, u, ⟨j, hu⟩, he, hc⟩
      rw [hno] at hyes
      cases hyes
    split
    · next hc =>
      obtain ⟨hfrom, hholder, hrows, htasks, hnext, hfree⟩ := claimNode_claimed hc
      have hholder' : ∀ id', holder { (r.claimNode cfg now id t.addr).2 with
            nodes := (r.claimNode cfg now id t.addr).2.nodes.modify id fun w =>
              { w with alternates := t.untried.foldl (fun l a => insertAddr a l) w.alternates } } id' =
          if id' = id then some t.addr else r.holder id' := by
        intro id'
        rw [holder_modify, ← hholder id']
        split <;> rfl
      have hrow' : ∀ j u, r.tasks.get j = some u → u.counted = true → r.daemons.has u.addr = true →
          (r.claimNode cfg now id t.addr).2.daemons.has u.addr = true := by
        intro j u hu hc hhas
        refine (hrows u.addr hhas).resolve_right ?_
        rintro ⟨hb, hbt, hf⟩
        exact hidle u.addr hb hbt hf j u hu hc rfl
      refine h.replace ht (congrArg (Table.set · i _) htasks) hnext (hfree.trans h.yielded) (.inl rfl)
        ?_ ⟨fun _ => ⟨?_, ?_⟩, fun l hl => (by cases hl), fun _ => ?_⟩
      · intro j u hj hu hten
        refine hten.of (fun hcu id' hid hold => (hholder' id').trans ?_) fun hcu => hrow' j u hu hcu
        rw [if_neg]
        · exact hold
        · rintro rfl
          rcases hfrom with hfrom | hfrom | ⟨b, hfrom, hbt, hf⟩
          · rw [hfrom] at hold
            cases hold
          · rw [hfrom] at hold
            exact hj (h.apart j i u t hu ht (Option.some.inj hold).symm)
          · rw [hfrom] at hold
            exact hidle b hfrom hbt hf j u hu hcu (Option.some.inj hold).symm
      · refine astray_eq_false.mpr fun id' hid => (hholder' id').trans ?_
        cases hid
        rw [if_pos rfl]
      · refine (hrows t.addr hrow).resolve_right ?_
        rintro ⟨-, hbt, -⟩
        exact hbt rfl
      · simp [WatchTask.counted]
    · next hc =>
      obtain ⟨hholder, hdaemons, htasks, hnext, hfree⟩ :=
        claimNode_merged (Bool.not_eq_true _ ▸ hc)
      refine h.leave (i := i) (congrArg (Table.erase · i) htasks) hnext (hfree.trans h.yielded) ?_
      intro j u hj hu hten
      refine hten.of (fun _ id' _ hold => (hholder id').trans hold) fun _ hhas => ?_
      have hkeep := h.others_has ht hj hu hhas
      rw [← hdaemons] at hkeep
      exact hkeep

theorem OneWatch.tried (h : r.OneWatch) (ht : r.tasks.get i = some t) {now : Nat} {alt : String}
    {rest : List String} {reply : Option String} (hphase : t.phase = .trying (alt :: rest))
    (hmove : ∀ id, t.node = some id → reply = some id →
      r.astray t = false ∧ r.daemons.has alt = true ∧ r.elsewhere i alt = true)
    (hown : ∀ t' : WatchTask, t'.addr = t.addr → t'.node = t.node → t'.seed = t.seed →
      t'.failingSince = t.failingSince → rest = [] → forgets cfg now r t' = true →
      r.astray t = false) : (r.tried cfg now i t alt rest reply).OneWatch := by
  have hne := (h.each i t ht).trying _ hphase
  rw [List.mem_cons, not_or] at hne
  rw [Router.tried]
  split
  · next id hn =>
    split
    · next hr =>
      obtain ⟨hstay, hrow, hfree⟩ := hmove id hn hr
      have hold := astray_eq_false.mp hstay id hn
      have hholder : ∀ id', (r.moveWatch id t.addr alt).holder id' =
          if id' = id then some alt else r.holder id' := by
        intro id'
        refine (holder_modify (r := r)).trans ?_
        split
        · next hid =>
          rw [holder, Option.map_eq_some_iff] at hold
          obtain ⟨w, hw, -⟩ := hold
          rw [hid, hw, Option.map_some]
        · rfl
      refine h.replace ht rfl rfl h.yielded (.inr hfree) ?_ ⟨fun _ => ⟨?_, ?_⟩, ?_, ?_⟩
      · intro j u hj hu hten
        refine hten.of (fun _ id' hid hold' => (hholder id').trans ?_) fun _ hhas =>
          h.others_has ht hj hu hhas
        rw [if_neg]
        · exact hold'
        · rintro rfl
          exact hj (h.apart j i u t hu ht (Option.some.inj (hold'.symm.trans hold)))
      · refine astray_eq_false.mpr fun id' hid => (hholder id').trans ?_
        rw [if_pos (Option.some.inj (hid.symm.trans hn))]
      · exact Table.has_erase.mpr ⟨fun he => hne.1 he.symm, hrow⟩
      · exact fun l hl => (by cases hl)
      · exact fun hp => (by cases hp)
    · next hr =>
      have hc : WatchTask.counted { t with lastPoll := reply } = false := not_counted_of_ne hn hr
      split
      · next hrest => exact h.giveUp ht rfl hc fun hf => hown _ rfl rfl rfl rfl hrest hf
      · refine h.go_on ht rfl rfl h.yielded (fun _ => rfl) (fun _ ha => ha) rfl
          (.uncounted hc (fun l hl => ?_) fun hp => by cases hp)
        cases hl
        exact hne.2
  · exact h

theorem OneWatch.reread (h : r.OneWatch) (ht : r.tasks.get i = some t) {reply : Option String}
    (hown : ∀ id, reply = some id → r.astray t = false ∧ r.daemons.has t.addr = true) :
    (r.reread i t reply).OneWatch := by
  cases reply with
  | none =>
    exact h.go_on ht rfl rfl h.yielded (fun _ => rfl) (fun _ ha => ha) rfl
      (.uncounted (not_counted_of_none rfl) (fun l hl => (by cases hl)) fun hp => by cases hp)
  | some id =>
    refine h.go_on ht rfl rfl h.yielded (fun _ => rfl) (fun _ ha => ha) rfl
      ⟨fun _ => hown id rfl, fun l hl => (by cases hl), fun hp => (by cases hp)⟩

theorem astray_congr (hholder : ∀ id, r'.holder id = r.holder id) : r'.astray t = r.astray t := by
  simp only [astray, hholder]

theorem forgets_congr {now : Nat} {t' : WatchTask} (haddr : t'.addr = t.addr) (hnode : t'.node = t.node)
    (hseed : t'.seed = t.seed) (hsince : t'.failingSince = t.failingSince) :
    forgets cfg now r t' = forgets cfg now r t := by
  simp only [forgets, haddr, hnode, hseed, hsince]

/-- A poll that fails for the first time forgets nothing. -/
theorem forgets_since {now : Nat} {t' : WatchTask} (haddr : t'.addr = t.addr) (hnode : t'.node = t.node)
    (hseed : t'.seed = t.seed) (hsince : t'.failingSince = some (t.failingSince.getD now))
    (hf : forgets cfg now r t' = true) : forgets cfg now r t = true := by
  cases hs : t.failingSince with
  | none => simp [forgets, hsince, hs] at hf
  | some s =>
    rw [← hf]
    exact (forgets_congr haddr hnode hseed (by rw [hsince, hs]; rfl)).symm

/-- An error without a row to write it to changes nothing. -/
theorem pollStatus_not_stored {now : Nat} {addr : String} {answer : Except String Value}
    (h : r.stores addr answer = false) : r.pollStatus cfg now addr answer = (none, r) := by
  cases answer with
  | ok snap => simp [stores, Except.isOk, Except.toBool] at h
  | error e =>
    have hno : r.daemons.get addr = none := by
      simpa [stores, Except.isOk, Except.toBool, Table.has_eq_false] using h
    simp [pollStatus, peersOf, storeStatus, Table.modify_of_get_none hno]

theorem overtakes_of_stored {now : Nat} {addr id : String} {answer : Except String Value}
    (h : Stored cfg r r' addr answer) (ho : overtakes cfg now r' id addr = true) :
    overtakes cfg now r id addr = true := by
  rw [overtakes, h.holder id] at ho
  obtain ⟨b, hb, ho⟩ := (Option.any_eq_true _ _).mp ho
  simp only [Bool.and_eq_true, bne_iff_ne, List.any_eq_true, Table.mem_values, beq_iff_eq] at ho
  obtain ⟨⟨hne, hfresh⟩, u, ⟨j, hu⟩, he, hc⟩ := ho
  have hfresh' : fresh cfg now r b = fresh cfg now r' b := by rw [fresh, fresh, h.rows b hne]
  simp only [overtakes, hb, Option.any_some, Bool.and_eq_true, bne_iff_ne, List.any_eq_true,
    Table.mem_values, beq_iff_eq]
  exact ⟨⟨hne, hfresh' ▸ hfresh⟩, u, ⟨j, h.counted j u hu hc⟩, he, hc⟩

theorem OneWatch.polled (h : r.OneWatch) (ht : r.tasks.get i = some t) {answer : Except String Value}
    {now : Nat} (hyield : yields cfg now r t answer = true)
    (hvacant : ∀ a ∈ r.targets cfg answer, r.vacant a = true)
    (hmove : movesClear cfg r i t answer = true) (hclaim : claimsClear cfg now r t answer = true)
    (hs : r.polled cfg i t answer now = some r') : r'.OneWatch := by
  have hstay : r.stores (polledAddr t) answer = true → r.astray t = false := by
    intro hst
    simpa [yields, hst] using hyield
  have hanswer : ∀ id, replied answer = some id → r.astray t = false := fun id hid =>
    hstay (by rw [stores, isOk_of_replied hid, Bool.true_or])
  have hwrites : (if r.stores (polledAddr t) answer then r.writes t else r) = r := by
    split
    · next hst => rw [writes, astray_of_lost (hstay hst), Bool.or_false]
    · rfl
  obtain ⟨hreply, hstored⟩ := @pollStatus_stored _ _ now (polledAddr t) _ h hvacant
  have ht' := hstored.task i t ht
  have hastray : (r.pollStatus cfg now (polledAddr t) answer).2.astray t = r.astray t :=
    astray_congr hstored.holder
  -- A task that has lost its node does not reach the end of a round in which it forgets.
  have hforget : ∀ t', (forgets cfg now r t' = true → forgets cfg now r t = true) →
      (r.pollStatus cfg now (polledAddr t) answer).2.lastOfRound t = true →
      forgets cfg now (r.pollStatus cfg now (polledAddr t) answer).2 t' = true →
      (r.pollStatus cfg now (polledAddr t) answer).2.astray t = false := by
    intro t' hsame hlast hf
    rw [hastray]
    by_contra hno
    have hst : r.stores (polledAddr t) answer = false := Bool.not_eq_true _ ▸ fun hst => hno (hstay hst)
    rw [pollStatus_not_stored hst] at hlast hf
    simp [yields, hno, hst, hlast, hsame hf] at hyield
  simp only [Router.polled, hwrites, hreply] at hs
  cases hphase : t.phase with
  | starting => simp [hphase] at hs
  | connecting => simp [hphase] at hs
  | polling =>
    have haddr : polledAddr t = t.addr := by simp [polledAddr, hphase]
    cases hid : replied answer with
    | some id =>
      simp only [hphase, hid, Option.some.injEq] at hs
      subst hs
      refine hstored.one.answered ht' ?_ (hastray.trans (hanswer id hid)) ?_
      · have hrow := hstored.row (isOk_of_replied hid)
        rw [haddr] at hrow ⊢
        exact hrow
      · simp only [claimsClear, hphase, hid, Bool.or_eq_true, beq_iff_eq, Bool.not_eq_true'] at hclaim
        refine hclaim.imp_right fun hno => Bool.not_eq_true _ ▸ fun hyes => ?_
        rw [haddr] at hstored hyes
        rw [overtakes_of_stored hstored hyes] at hno
        cases hno
    | none =>
      simp only [hphase, hid, Option.some.injEq] at hs
      subst hs
      refine hstored.one.failed ht' ?_ ?_
      · intro next rest hn hun
        simp only [movesClear, hphase, hn, hun, hid, Bool.and_eq_true, decide_eq_true_eq] at hmove
        exact hstored.elsewhere i next hmove.1 hmove.2
      · intro id hn halts hf
        have hsince : forgets cfg now r { t with
              failingSince := some (t.failingSince.getD now), lastPoll := none } = true →
            forgets cfg now r t = true := forgets_since rfl rfl rfl rfl
        refine hforget _ hsince ?_ hf
        simp [lastOfRound, hphase, hn, halts]
  | trying alts =>
    cases alts with
    | nil => simp [hphase] at hs
    | cons alt rest =>
      have haddr : polledAddr t = alt := by simp [polledAddr, hphase]
      simp only [hphase, Option.some.injEq] at hs
      subst hs
      refine hstored.one.tried ht' hphase ?_ ?_
      · intro id hn hid
        have hrow := hstored.row (isOk_of_replied hid)
        simp only [movesClear, hphase, hn, hid, bne_self_eq_false, Bool.false_or, Bool.and_eq_true,
          decide_eq_true_eq] at hmove
        exact ⟨hastray.trans (hanswer id hid), haddr ▸ hrow, hstored.elsewhere i alt hmove.1 hmove.2⟩
      · intro t' haddr' hnode hseed hsince hrest hf
        refine hforget t' (fun hf' => ?_) ?_ hf
        · exact (forgets_congr haddr' hnode hseed hsince).symm.trans hf'
        · simp [lastOfRound, hphase, hrest]
  | streaming | resyncing =>
    have haddr : polledAddr t = t.addr := by simp [polledAddr, hphase]
    simp only [hphase, Option.some.injEq] at hs
    subst hs
    refine hstored.one.reread ht' fun id hid => ⟨hastray.trans (hanswer id hid), ?_⟩
    have hrow := hstored.row (isOk_of_replied hid)
    rw [haddr] at hrow ⊢
    exact hrow

theorem OneWatch.announced (h : r.OneWatch) {node target : String} {others : List String}
    (hok : Act.orderly cfg r (.announced node target others) = true) :
    (r.announced cfg node target others).OneWatch := by
  simp only [Act.orderly, Bool.or_eq_true, Bool.and_eq_true, bne_iff_ne, Bool.not_eq_true'] at hok
  rw [Router.announced]
  split
  · next w hw =>
    have hget : r.nodes.get node = some w := by
      split at hw
      · cases hw
      · exact hw
    split
    · exact h
    · exact h.alternates hget
  · next hw =>
    refine h.ensureWatched fun hun => ?_
    rcases hok with (⟨hne, hhas⟩ | hun') | hv
    · rw [if_neg hne] at hw
      rw [Table.has, hw] at hhas
      cases hhas
    · rw [hun] at hun'
      cases hun'
    · exact hv

theorem inPhase_eq_some {phase : WatchPhase} (h : r.inPhase i phase = some t) :
    r.tasks.get i = some t ∧ t.phase = phase := by
  simpa [inPhase, Option.filter_eq_some_iff] using h

theorem OneWatch.frame (h : r.OneWatch) (ht : r.tasks.get i = some t) {ev : Value} {now : Nat}
    (hok : r.astray t = false ∨ r.daemons.has t.addr = false) :
    (r.frame i t ev now).OneWatch := by
  rw [Router.frame]
  have hrows : ∀ a, r.daemons.has a = true →
      (applyFrame now r.daemons t.addr t.node ev t.lastSeq).2.1.has a = true := by
    intro a ha
    by_cases happ : (applyFrame now r.daemons t.addr t.node ev t.lastSeq).1 = .yes
    · obtain ⟨view, -, ⟨-, he⟩ | ⟨-, -, _, _, _, -, -, -, -, he⟩⟩ := applyFrame_applied happ
      · rw [he]
        exact Table.has_set.mpr (.inr ha)
      · rw [he]
        exact Table.has_set.mpr (.inr ha)
    · rw [applyFrame_not_applied happ]
      exact ha
  split
  · next happ =>
    obtain ⟨view, hview, -⟩ := applyFrame_applied happ
    have hown := hok.resolve_right fun hno => by
      rw [Table.has, hview] at hno
      cases hno
    refine h.go_on ht rfl rfl ?_ (fun _ => rfl) hrows rfl
      ((h.each i t ht).phase rfl rfl rfl ?_ (fun _ => rfl) hrows)
    · exact Bool.or_eq_false_iff.mpr ⟨h.yielded, astray_of_lost hown⟩
    · split
      · exact .inr (.inr rfl)
      · exact .inr (.inl rfl)
  · refine h.go_on ht rfl rfl h.yielded (fun _ => rfl) hrows rfl
      ((h.each i t ht).phase rfl rfl rfl ?_ (fun _ => rfl) hrows)
    split
    · exact .inr (.inr rfl)
    · exact .inr (.inl rfl)

theorem OneWatch.connected (h : r.OneWatch) (ht : r.tasks.get i = some t)
    (hp : t.phase = .connecting) (result : Except String Unit) : (r.connected i t result).OneWatch := by
  have hten := h.each i t ht
  cases result with
  | ok _ =>
    exact h.go_on ht rfl rfl h.yielded (fun _ => rfl) (fun _ ha => ha) rfl
      (hten.phase rfl rfl rfl (.inr (.inl rfl)) (fun _ => rfl) fun _ ha => ha)
  | error e =>
    obtain ⟨hown, -⟩ := hten.counted (hten.connecting hp)
    have hrows : ∀ a, r.daemons.has a = true → (r.connected i t (.error e)).daemons.has a = true :=
      fun a ha => Table.has_set.mpr (.inr ha)
    exact h.go_on ht rfl rfl (Bool.or_eq_false_iff.mpr ⟨h.yielded, astray_of_lost hown⟩)
      (fun _ => rfl) hrows rfl (hten.phase rfl rfl rfl (.inl rfl) (fun _ => rfl) hrows)

theorem OneWatch.step (h : r.OneWatch) {a : Act} (hok : a.orderly cfg r = true)
    (hs : r.step cfg a = some r') : r'.OneWatch := by
  cases a with
  | announced node target others =>
    cases hs
    exact h.announced hok
  | start i =>
    obtain ⟨t, hget, rfl⟩ := Option.map_eq_some_iff.mp hs
    obtain ⟨ht, -⟩ := inPhase_eq_some hget
    have hrows : ∀ a, r.daemons.has a = true → (r.start i t).daemons.has a = true := by
      intro a ha
      simp only [Router.start, setTask]
      split
      · exact ha
      · exact Table.has_set.mpr (.inr ha)
    exact h.go_on ht rfl rfl h.yielded (fun _ => rfl) hrows rfl
      ((h.each i t ht).phase rfl rfl rfl (.inl rfl) (fun _ => rfl) hrows)
  | polled i answer now =>
    obtain ⟨t, ht, hs⟩ := Option.bind_eq_some_iff.mp hs
    simp only [Act.orderly, ht, Option.all_some, Bool.and_eq_true, List.all_eq_true] at hok
    obtain ⟨⟨⟨hyield, hvacant⟩, hmove⟩, hclaim⟩ := hok
    exact h.polled ht hyield hvacant hmove hclaim hs
  | connected i result =>
    obtain ⟨t, hget, rfl⟩ := Option.map_eq_some_iff.mp hs
    obtain ⟨ht, hp⟩ := inPhase_eq_some hget
    exact h.connected ht hp result
  | frame i ev now =>
    obtain ⟨t, hget, rfl⟩ := Option.map_eq_some_iff.mp hs
    obtain ⟨ht, -⟩ := inPhase_eq_some hget
    simp only [Act.orderly, ht, Option.all_some, Bool.or_eq_true, Bool.not_eq_true'] at hok
    exact h.frame ht hok
  | streamLost i =>
    obtain ⟨t, hget, rfl⟩ := Option.map_eq_some_iff.mp hs
    obtain ⟨ht, -⟩ := inPhase_eq_some hget
    exact h.go_on ht rfl rfl h.yielded (fun _ => rfl) (fun _ ha => ha) rfl
      ((h.each i t ht).phase rfl rfl rfl (.inl rfl) (fun _ => rfl) fun _ ha => ha)

/-- The watches of the seeds. -/
theorem seeds_oneWatch (cfg : WatchCfg) :
    (cfg.seeds.foldl (fun r d => r.ensureWatched cfg d []) empty).OneWatch := by
  have hfold : ∀ (seeds : List String) (r : Router), r.OneWatch →
      (∀ a, r.unwatched a = true → r.vacant a = true) →
      (seeds.foldl (fun r d => r.ensureWatched cfg d []) r).OneWatch := by
    intro seeds
    induction seeds with
    | nil => exact fun r h _ => h
    | cons d rest ih =>
      intro r h hv
      exact ih _ (h.ensureWatched (hv d)) fun a ha =>
        (ensureWatched_found (S := fun _ => True) h trivial).vacant (hv a) ha
  refine hfold cfg.seeds empty ⟨?_, ?_, ?_, rfl⟩ fun a _ => rfl
  · exact fun i t ht => by cases ht
  · exact fun i j t u ht => by cases ht
  · exact fun i t ht => by cases ht

end Router

/-- In a run in which no task acts after it has lost its node, and none comes to an address where
another is, at most one task past its claim of a node has its last poll answered by it; the address is
the one in `nodes` and has a row; and no task has written a view while another watch had its node. -/
theorem one_watch_per_node {cfg : WatchCfg} {r : Router}
    (h : (router cfg).Reach (Router.Act.orderly cfg) r) :
    (∀ n i j t u, r.tasks.get i = some t → r.tasks.get j = some u →
      t.node = some n → t.lastPoll = some n → u.node = some n → u.lastPoll = some n → i = j) ∧
    (∀ n i t, r.tasks.get i = some t → t.node = some n → t.lastPoll = some n →
      r.holder n = some t.addr ∧ r.daemons.has t.addr = true) ∧
    r.trespass = false := by
  have hone : r.OneWatch := h.invariant (I := Router.OneWatch)
    (fun r hr => hr ▸ Router.seeds_oneWatch cfg) fun r a r' hr hok hs => hr.step hok hs
  have hheld : ∀ n i t, r.tasks.get i = some t → t.node = some n → t.lastPoll = some n →
      r.holder n = some t.addr ∧ r.daemons.has t.addr = true := by
    intro n i t ht hn hp
    obtain ⟨hown, hrow⟩ := (hone.each i t ht).counted (by simp [WatchTask.counted, hn, hp])
    exact ⟨Router.astray_eq_false.mp hown n hn, hrow⟩
  refine ⟨fun n i j t u ht hu hn hp hn' hp' => ?_, hheld, hone.yielded⟩
  have haddr := (hheld n i t ht hn hp).1.symm.trans (hheld n j u hu hn' hp').1
  exact hone.apart i j t u ht hu (Option.some.inj haddr)

namespace Sample

/-- Two seeds, which are two addresses of one daemon. -/
def twoSeeds : WatchCfg := ⟨["a:1", "b:1"], 10, 600, false, fun _ => false⟩

def fromN : Except String Value := .ok (.obj [("node_id", .str "n")])

/-- The second address is merged. When the first is lost, the watch goes to it. -/
def mergedAndMoved : List Router.Act := [
  .start 0, .start 1, .polled 0 fromN 0, .connected 0 (.ok ()), .polled 1 fromN 1, .streamLost 0,
  .polled 0 (.error "refused") 5, .polled 0 fromN 6]

/-- The first address is out of reach for a while, and the second takes the node. -/
def outOfReach : List Router.Act := [
  .start 0, .start 1, .polled 0 fromN 0, .connected 0 (.ok ()), .streamLost 0,
  .polled 0 (.error "timeout") 10, .polled 1 fromN 40, .polled 0 fromN 41]

end Sample

theorem one_watch_per_node_moved : ∃ r, (router Sample.twoSeeds).Reach
    (Router.Act.orderly Sample.twoSeeds) r ∧ r.holder "n" = some "b:1" ∧
      r.daemons.has "b:1" = true := by
  have hrun : ((router Sample.twoSeeds).run (Router.Act.orderly Sample.twoSeeds)
      (Sample.twoSeeds.seeds.foldl (fun r d => r.ensureWatched Sample.twoSeeds d []) .empty)
      Sample.mergedAndMoved).any (fun r => (r.tasks.get 0).any fun t =>
        t.node == some "n" && t.lastPoll == some "n" && t.addr == "b:1") = true := by decide +kernel
  obtain ⟨r, hreach, hp⟩ := System.Reach.of_run hrun rfl
  obtain ⟨t, ht, hp⟩ := (Option.any_eq_true _ _).mp hp
  simp only [Bool.and_eq_true, beq_iff_eq] at hp
  obtain ⟨⟨hn, hpoll⟩, haddr⟩ := hp
  exact ⟨r, hreach, haddr ▸ (one_watch_per_node hreach).2.1 "n" 0 t ht hn hpoll⟩

/-- Two tasks answer for one node, and the one that lost it has written a view. -/
theorem two_watches : ∃ r t u, (router Sample.twoSeeds).Reach System.Free r ∧
    r.tasks.get 0 = some t ∧ r.tasks.get 1 = some u ∧ t.node = some "n" ∧ t.lastPoll = some "n" ∧
    u.node = some "n" ∧ u.lastPoll = some "n" ∧ r.trespass = true := by
  have hrun : ((router Sample.twoSeeds).run System.Free
      (Sample.twoSeeds.seeds.foldl (fun r d => r.ensureWatched Sample.twoSeeds d []) .empty)
      Sample.outOfReach).any (fun r =>
        ((r.tasks.get 0).any fun t => t.node == some "n" && t.lastPoll == some "n") &&
        ((r.tasks.get 1).any fun t => t.node == some "n" && t.lastPoll == some "n") &&
        r.trespass) = true := by decide +kernel
  obtain ⟨r, hreach, hp⟩ := System.Reach.of_run hrun rfl
  simp only [Bool.and_eq_true] at hp
  obtain ⟨⟨h0, h1⟩, htres⟩ := hp
  obtain ⟨t, ht, h0⟩ := (Option.any_eq_true _ _).mp h0
  obtain ⟨u, hu, h1⟩ := (Option.any_eq_true _ _).mp h1
  simp only [Bool.and_eq_true, beq_iff_eq] at h0 h1
  exact ⟨r, t, u, hreach, ht, hu, h0.1, h0.2, h1.1, h1.2, htres⟩

end Mentat
