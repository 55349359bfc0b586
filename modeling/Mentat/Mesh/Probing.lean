import Mathlib.Data.List.ProdSigma
import Mentat.Lib.Feed
import Mentat.Mesh.Peers

/-!
# Probing a peer's addresses

`mesh.rs`: a prober thread for each peer tries every pair of a local address and one of the peer's, and
puts what it finds into the peer's row under the lock. Between two of its probes the other threads do
as they please: another prober records, a push brings new MACs, the peer links again. At the end of a
round the rows of addresses that have gone are dropped, and the ports that reach the peer through
another box are looked for.

`probe_round` says what the row has after a round, whatever came between.
-/

namespace Mentat

/-- One attempt at a pair. -/
structure Probe where
  localAddr : String
  remote : String
  /-- The interface it left on, for a fabric address. -/
  iface : Option String
  /-- The round trip in milliseconds, or why there was none. -/
  outcome : Except String Nat
  /-- What answered ARP for the remote address on that interface. -/
  arp : Option String
  now : Nat

/-- `PairProbe` with all its fields. -/
structure ProbeCell where
  ok : Bool
  rttMs : Nat
  lastOkMs : Option Nat
  error : String
  neighbourMac : Option String
  direct : Option Bool

def ProbeCell.pair (c : ProbeCell) : PairProbe := ⟨c.ok, c.rttMs, c.direct⟩

def ProbeCell.untried : ProbeCell := ⟨false, 0, none, "", none, none⟩

/-- A bound probe that answered resolved the remote address on its interface. -/
def Probe.mac (p : Probe) : Option String :=
  match p.outcome, p.iface with
  | .ok _, some _ => p.arp
  | _, _ => none

/-- A probe's outcome in its cell. `own` is the MAC that the peer announced for the address. -/
def ProbeCell.record (c : ProbeCell) (own : Option String) (p : Probe) : ProbeCell :=
  let direct := p.mac.bind fun seen => own.map fun o => seen == o
  match p.outcome with
  | .ok rtt => ⟨true, rtt, some p.now, "", p.mac, direct⟩
  | .error e => ⟨false, c.rttMs, c.lastOkMs, e, p.mac, direct⟩

abbrev ProbeTable := Table String (Table String ProbeCell)

/-- Fabric addresses whose probes reached the peer on two or more of its interfaces, with the remote
addresses they reached, unless every answer came from the address's own MAC. A peer address with no
known interface counts as an interface of its own. -/
def ambiguousPorts (table : ProbeTable) (bindIfaces peerIfaces : Table String String) :
    Table String (List String) :=
  let answered (row : Table String ProbeCell) := row.rows.filter fun r => r.2.ok
  let reached (row : Table String ProbeCell) := (answered row).map (·.1)
  let ifaces (row : Table String ProbeCell) :=
    ((reached row).map fun r => (peerIfaces.get r).getD r).dedup
  (table.filter fun l row => bindIfaces.has l &&
    !(answered row).all (fun r => r.2.direct == some true) && decide (1 < (ifaces row).length)).map
      fun _ row => reached row

/-- Drop rows for addresses outside `locals` and `remotes`. -/
def prunePairs (table : ProbeTable) (locals remotes : List String) : ProbeTable :=
  (table.filter fun l _ => locals.contains l).map fun _ row => row.filter fun r _ => remotes.contains r

/-- What of a peer's row probing reads and writes. -/
structure PeerProbes where
  addrMacs : Table String String
  addrIfaces : Table String String
  pairs : ProbeTable
  ambiguous : List String

inductive ProbeAct where
  | record (peer : NodeId) (p : Probe)
  /-- The end of a round. -/
  | finish (peer : NodeId) (locals remotes : List String) (bindIfaces : Table String String)
  /-- A status push, with what it has of interfaces and MACs. -/
  | push (peer : NodeId) (ifaces macs : Option (Table String String))
  /-- A link that is taken. -/
  | link (peer : NodeId) (ifaces : Table String String)
  | forget (peer : NodeId)

namespace ProbeAct

def peer : ProbeAct → NodeId
  | .record id _ => id
  | .finish id _ _ _ => id
  | .push id _ _ => id
  | .link id _ => id
  | .forget id => id

/-- What it makes of the peer's row. A relink keeps the pairs. -/
def act : ProbeAct → Option PeerProbes → Option PeerProbes
  | .record _ p, row => row.map fun r =>
    let cells := (r.pairs.get p.localAddr).getD ∅
    let cell := ((cells.get p.remote).getD .untried).record (r.addrMacs.get p.remote) p
    { r with pairs := r.pairs.set p.localAddr (cells.set p.remote cell) }
  | .finish _ locals remotes bindIfaces, row => row.map fun r =>
    let pairs := prunePairs r.pairs locals remotes
    { r with pairs := pairs, ambiguous := (ambiguousPorts pairs bindIfaces r.addrIfaces).keys }
  | .push _ ifaces macs, row => row.map fun r =>
    { r with addrIfaces := ifaces.getD r.addrIfaces, addrMacs := macs.getD r.addrMacs }
  | .link _ ifaces, row => some {
      addrIfaces := ifaces
      addrMacs := (row.map (·.addrMacs)).getD ∅
      pairs := (row.map (·.pairs)).getD ∅
      ambiguous := [] }
  | .forget _, _ => none

def probe : ProbeAct → Option Probe
  | .record _ p => some p
  | _ => none

/-- It neither ends a round nor forgets a peer. -/
def keeps : ProbeAct → Bool
  | .finish _ _ _ _ => false
  | .forget _ => false
  | _ => true

end ProbeAct

abbrev PeersProbes := Table NodeId PeerProbes

def PeersProbes.run (t : PeersProbes) (acts : List ProbeAct) : PeersProbes :=
  Table.feed ProbeAct.peer ProbeAct.act t acts

/-! ## In the peer's row

The acts of the other threads are what `registerPeer` and `peerStatus` do to what probing sees of a
row. -/

structure PeerProbes.Views (v : PeerProbes) (p : PeerInfo) : Prop where
  pairs : p.probePairs = v.pairs.map fun _ cells => cells.map fun _ c => c.pair
  macs : p.addrMacs = v.addrMacs
  ifaces : p.addrIfaces = v.addrIfaces

section Rows

variable {env : MeshEnv} {myId : NodeId} {peers peers' : Peers} {shut : Option FrameWriter}
  {v : Option PeerProbes}

theorem registerPeer_views {p : PeerIdent} {w : FrameWriter}
    (h : registerPeer env myId peers p w = some (peers', shut))
    (hv : Option.Rel PeerProbes.Views v (peers.get p.nodeId)) :
    Option.Rel PeerProbes.Views ((ProbeAct.link p.nodeId p.addrIfaces).act v)
      (peers'.get p.nodeId) := by
  unfold registerPeer at h
  simp only at h
  split at h
  · cases h
  cases h
  have hkept : (peers.filter fun id q =>
      q.alive || id == p.nodeId || !sameBox env p.addrs q.addrs).get p.nodeId =
      peers.get p.nodeId := by
    cases hg : peers.get p.nodeId <;> simp [hg]
  rw [Table.get_set_self, hkept]
  cases hrow : peers.get p.nodeId with
  | none =>
    rw [hrow] at hv
    cases hv
    exact .some ⟨rfl, rfl, rfl⟩
  | some row =>
    rw [hrow] at hv
    cases hv with
    | some hv => exact .some ⟨hv.pairs, hv.macs, rfl⟩

/-- The addresses of a status push, with what it says of each. -/
def pushed (data : Value) (key : String) : Option (Table String String) :=
  (data.idx key).asObject.map fun fields =>
    tableOf (fields.filterMap fun kv => kv.2.asStr.map fun s => (kv.1, s))

theorem peerStatus_views {peer : NodeId} {data : Value}
    (hv : Option.Rel PeerProbes.Views v (peers.get peer)) :
    Option.Rel PeerProbes.Views
      ((ProbeAct.push peer (pushed data "addr_ifaces") (pushed data "addr_macs")).act v)
      ((peerStatus env peers peer data).get peer) := by
  rw [peerStatus, Table.get_modify_self]
  cases hrow : peers.get peer with
  | none =>
    rw [hrow] at hv
    cases hv
    exact .none
  | some row =>
    rw [hrow] at hv
    cases hv with
    | @some v' _ hv =>
      refine .some ⟨hv.pairs, ?_, ?_⟩
      · show _ = (pushed data "addr_macs").getD v'.addrMacs
        rw [← hv.macs]
        rfl
      · show _ = (pushed data "addr_ifaces").getD v'.addrIfaces
        rw [← hv.ifaces]
        rfl

end Rows

/-! ## One cell -/

def PeerProbes.cell (r : PeerProbes) (l remote : String) : Option ProbeCell :=
  (r.pairs.get l).bind (·.get remote)

/-- The probes of one pair, in order. -/
def probesOf (ps : List Probe) (l remote : String) : List Probe :=
  ps.filter fun p => p.localAddr == l && p.remote == remote

def Probe.rtt (p : Probe) : Option Nat := p.outcome.toOption

/-- What a cell has of earlier answers. -/
structure Remembers (before : Option ProbeCell) (ps : List Probe) (c : ProbeCell) : Prop where
  lastOk : c.lastOkMs = ((ps.filter fun p => p.rtt.isSome).getLast?.map (·.now)).or
    (before.bind (·.lastOkMs))
  rtt : c.rttMs = ((ps.filterMap Probe.rtt).getLast?).getD ((before.map (·.rttMs)).getD 0)

/-- What a cell shows after some probes of its pair. -/
structure Shows (before : Option ProbeCell) (ps : List Probe) (c : ProbeCell) : Prop
    extends Remembers before ps c where
  last : ∃ p, ps.getLast? = some p ∧ c.ok = p.rtt.isSome ∧ c.neighbourMac = p.mac ∧
    ∀ e, p.outcome = .error e → c.error = e
  clean : c.ok = true → c.error = "" ∧ c.lastOkMs.isSome = true
  direct : c.direct.isSome = true → c.ok = true

theorem remembers_before (c : ProbeCell) : Remembers (some c) [] c := by
  refine ⟨?_, rfl⟩
  rw [List.filter_nil, List.getLast?_nil, Option.map_none, Option.none_or, Option.bind_some]

theorem remembers_untried : Remembers none [] .untried := ⟨rfl, rfl⟩

/-- Recording one more probe of the pair. -/
theorem Remembers.record {before : Option ProbeCell} {ps : List Probe} {c : ProbeCell}
    (h : Remembers before ps c) (own : Option String) (p : Probe) :
    Shows before (ps ++ [p]) (c.record own p) := by
  have hlast : (ps ++ [p]).getLast? = some p := List.getLast?_concat
  cases ho : p.outcome with
  | ok rtt =>
    have hrtt : p.rtt = some rtt := by rw [Probe.rtt, ho]; rfl
    have hcell : c.record own p = ⟨true, rtt, some p.now, "", p.mac,
        p.mac.bind fun seen => own.map fun o => seen == o⟩ := by simp only [ProbeCell.record, ho]
    rw [hcell]
    refine ⟨⟨?_, ?_⟩, ⟨p, hlast, by rw [hrtt]; rfl, rfl, fun e he => ?_⟩, fun _ => ⟨rfl, rfl⟩,
      fun _ => rfl⟩
    · simp [List.filter_append, hrtt]
    · simp [List.filterMap_append, hrtt]
    · cases he.symm.trans ho
  | error e =>
    have hrtt : p.rtt = none := by rw [Probe.rtt, ho]; rfl
    have hmac : p.mac = none := by simp only [Probe.mac, ho]
    have hcell : c.record own p = ⟨false, c.rttMs, c.lastOkMs, e, none, none⟩ := by
      simp only [ProbeCell.record, ho, hmac, Option.bind_none]
    rw [hcell]
    refine ⟨⟨?_, ?_⟩, ⟨p, hlast, by rw [hrtt]; rfl, hmac.symm, fun e' he => ?_⟩,
      fun h => (nomatch h), fun h => (nomatch h)⟩
    · simpa [List.filter_append, hrtt] using h.lastOk
    · simpa [List.filterMap_append, hrtt] using h.rtt
    · exact Except.error.inj (ho.symm.trans he)

/-! ## A round -/

/-- The cell of a pair after some probes of it, if there were any or it had one. -/
def CellAfter (before : Option ProbeCell) (ps : List Probe) (after : Option ProbeCell) : Prop :=
  (ps = [] ∧ after = before) ∨ ∃ c, after = some c ∧ Shows before ps c

theorem CellAfter.record {before after : Option ProbeCell} {ps : List Probe}
    (h : CellAfter before ps after) (own : Option String) (p : Probe) :
    CellAfter before (ps ++ [p]) (some ((after.getD .untried).record own p)) := by
  refine .inr ⟨_, rfl, ?_⟩
  obtain ⟨rfl, rfl⟩ | ⟨c, rfl, hc⟩ := h
  · cases after with
    | none => exact remembers_untried.record own p
    | some c => exact (remembers_before c).record own p
  · exact hc.toRemembers.record own p

/-- A record changes one cell. -/
theorem cell_record {id : NodeId} {p : Probe} {row row' : PeerProbes}
    (h : (ProbeAct.record id p).act (some row) = some row') (l remote : String) :
    row'.cell l remote = if l = p.localAddr ∧ remote = p.remote
      then some (((row.cell l remote).getD .untried).record (row.addrMacs.get p.remote) p)
      else row.cell l remote := by
  obtain rfl := Option.some.inj h
  simp only [PeerProbes.cell]
  by_cases hl : l = p.localAddr
  · rw [hl, Table.get_set_self, Option.bind_some]
    have hold : ∀ r, ((row.pairs.get p.localAddr).getD ∅).get r =
        (row.pairs.get p.localAddr).bind (·.get r) := by
      intro r
      cases row.pairs.get p.localAddr <;> rfl
    by_cases hr : remote = p.remote
    · rw [hr, Table.get_set_self, if_pos ⟨rfl, rfl⟩, hold]
    · rw [Table.get_set_of_ne hr, if_neg fun he => hr he.2, hold]
  · rw [Table.get_set_of_ne hl, if_neg fun he => hl he.1]

/-- What the acts on a peer's row make of it, as long as none ends a round or forgets the peer. -/
theorem acts_cells {row₀ : PeerProbes} {acts : List ProbeAct} (hkeeps : ∀ a ∈ acts, a.keeps = true) :
    ∃ row, acts.foldl (fun v a => a.act v) (some row₀) = some row ∧ ∀ l remote,
      CellAfter (row₀.cell l remote) (probesOf (acts.filterMap ProbeAct.probe) l remote)
        (row.cell l remote) := by
  induction acts using List.reverseRecOn with
  | nil => exact ⟨row₀, rfl, fun l remote => .inl ⟨rfl, rfl⟩⟩
  | append_singleton acts a ih =>
    obtain ⟨row, hrow, hcells⟩ := ih fun b hb => hkeeps b (List.mem_append_left _ hb)
    have hka := hkeeps a (List.mem_append_right _ (List.mem_singleton_self a))
    rw [List.foldl_append, hrow, List.filterMap_append]
    cases a with
    | finish => cases hka
    | forget => cases hka
    | push id ifaces macs =>
      refine ⟨_, rfl, fun l remote => ?_⟩
      rw [List.filterMap_cons_none rfl, List.filterMap_nil, List.append_nil]
      exact hcells l remote
    | link id ifaces =>
      refine ⟨_, rfl, fun l remote => ?_⟩
      rw [List.filterMap_cons_none rfl, List.filterMap_nil, List.append_nil]
      exact hcells l remote
    | record id p =>
      refine ⟨_, rfl, fun l remote => ?_⟩
      have hone : [ProbeAct.record id p].filterMap ProbeAct.probe = [p] := rfl
      rw [@cell_record id p row _ rfl, hone, probesOf, List.filter_append]
      by_cases hp : l = p.localAddr ∧ remote = p.remote
      · rw [if_pos hp, hp.1, hp.2, List.filter_cons_of_pos (by simp), List.filter_nil]
        exact (hcells _ _).record _ p
      · have hother : ¬ (p.localAddr == l && p.remote == remote) = true := by
          rw [Bool.and_eq_true, beq_iff_eq, beq_iff_eq]
          exact fun he => hp ⟨he.1.symm, he.2.symm⟩
        rw [if_neg hp, List.filter_cons_of_neg (by simpa using hother), List.filter_nil,
          List.append_nil]
        exact hcells l remote

/-! ## Its end -/

theorem cell_prunePairs (table : ProbeTable) (locals remotes : List String) (l remote : String) :
    ((prunePairs table locals remotes).get l).bind (·.get remote) =
      if l ∈ locals ∧ remote ∈ remotes then (table.get l).bind (·.get remote) else none := by
  rw [prunePairs, Table.get_map, Table.get_filter]
  cases table.get l with
  | none => simp
  | some row =>
    by_cases hl : l ∈ locals
    · rw [Option.filter_some_pos (by simpa using hl)]
      simp only [Option.map_some, Option.bind_some, Table.get_filter]
      by_cases hr : remote ∈ remotes
      · cases hc : row.get remote <;> simp [hl, hr]
      · cases hc : row.get remote <;> simp [hr]
    · rw [Option.filter_some_neg (by simpa using hl)]
      simp [hl]

theorem one_lt_length_dedup {l : List String} :
    1 < l.dedup.length ↔ ∃ a ∈ l, ∃ b ∈ l, a ≠ b := by
  rw [← List.card_toFinset, Finset.one_lt_card]
  simp only [List.mem_toFinset]

/-- A port is ambiguous if it is a fabric one, two of its probes reached the peer on different
interfaces, and some answer did not come from the address's own MAC. -/
theorem mem_ambiguousPorts {table : ProbeTable} {bindIfaces peerIfaces : Table String String}
    {l : String} : l ∈ (ambiguousPorts table bindIfaces peerIfaces).keys ↔
      bindIfaces.has l = true ∧ ∃ row, table.get l = some row ∧
        (∃ r c, row.get r = some c ∧ c.ok = true ∧ c.direct ≠ some true) ∧
        ∃ r c s d, row.get r = some c ∧ c.ok = true ∧ row.get s = some d ∧ d.ok = true ∧
          (peerIfaces.get r).getD r ≠ (peerIfaces.get s).getD s := by
  have hanswered : ∀ (row : Table String ProbeCell) (x : String × ProbeCell),
      x ∈ row.rows.filter (fun r => r.2.ok) ↔ row.get x.1 = some x.2 ∧ x.2.ok = true := by
    intro row x
    rw [List.mem_filter]
    exact and_congr_left' Table.mem_rows
  rw [Table.mem_keys]
  simp only [ambiguousPorts, Table.get_map, Table.get_filter, Option.map_eq_some_iff,
    Option.filter_eq_some_iff, Bool.and_eq_true, Bool.not_eq_true', List.all_eq_false,
    decide_eq_true_eq, one_lt_length_dedup, List.map_map, List.mem_map, hanswered]
  constructor
  · rintro ⟨-, row, ⟨hrow, ⟨hbind, x, hx, hdirect⟩, -, ⟨y, hy, rfl⟩, -, ⟨z, hz, rfl⟩, hne⟩, -⟩
    exact ⟨hbind, row, hrow, ⟨x.1, x.2, hx.1, hx.2, by simpa using hdirect⟩,
      y.1, y.2, z.1, z.2, hy.1, hy.2, hz.1, hz.2, hne⟩
  · rintro ⟨hbind, row, hrow, ⟨r, c, hc, hok, hdirect⟩, y, d, z, e, hd, hdok, he, heok, hne⟩
    exact ⟨_, row, ⟨hrow, ⟨hbind, (r, c), ⟨hc, hok⟩, by simpa using hdirect⟩,
      _, ⟨(y, d), ⟨hd, hdok⟩, rfl⟩, _, ⟨(z, e), ⟨he, heok⟩, rfl⟩, hne⟩, rfl⟩

/-- After a round over all pairs the peer's row has a cell for each of them and no other, which shows
what the pair's probes found, and its ports are flagged by these cells. In the time between, probes of
other peers, pushes and relinks of any peer may come in any order; this one is not forgotten. -/
theorem probe_round {t : PeersProbes} {acts : List ProbeAct} {peer : NodeId} {row₀ : PeerProbes}
    {locals remotes : List String} {bindIfaces : Table String String} (h0 : t.get peer = some row₀)
    (hkeeps : ∀ a ∈ acts, a.peer = peer → a.keeps = true)
    (hround : ((acts.filter fun a => a.peer = peer).filterMap ProbeAct.probe).map
      (fun p => (p.localAddr, p.remote)) = locals.product remotes) :
    let probes := (acts.filter fun a => a.peer = peer).filterMap ProbeAct.probe
    ∃ row, (t.run (acts ++ [.finish peer locals remotes bindIfaces])).get peer = some row ∧
      (∀ l r, (row.cell l r).isSome = true ↔ l ∈ locals ∧ r ∈ remotes) ∧
      (∀ l r c, row.cell l r = some c → Shows (row₀.cell l r) (probesOf probes l r) c) ∧
      ∀ l, l ∈ row.ambiguous ↔ bindIfaces.has l = true ∧
        (∃ r c, row.cell l r = some c ∧ c.ok = true ∧ c.direct ≠ some true) ∧
        ∃ r c s d, row.cell l r = some c ∧ c.ok = true ∧ row.cell l s = some d ∧ d.ok = true ∧
          (row.addrIfaces.get r).getD r ≠ (row.addrIfaces.get s).getD s := by
  intro probes
  obtain ⟨row, hrow, hcells⟩ := @acts_cells row₀ (acts.filter fun a => a.peer = peer) fun a ha => by
    rw [List.mem_filter] at ha
    exact hkeeps a ha.1 (of_decide_eq_true ha.2)
  have hrun : (t.run (acts ++ [.finish peer locals remotes bindIfaces])).get peer =
      (ProbeAct.finish peer locals remotes bindIfaces).act (some row) := by
    rw [PeersProbes.run, Table.get_feed, List.filter_append, List.foldl_append, h0, hrow]
    simp [ProbeAct.peer]
  have hprobed : ∀ {l r : String}, l ∈ locals → r ∈ remotes → probesOf probes l r ≠ [] := by
    intro l r hl hr
    have hpair : (l, r) ∈ probes.map fun p => (p.localAddr, p.remote) := by
      rw [hround]
      exact List.mem_product.mpr ⟨hl, hr⟩
    obtain ⟨p, hp, he⟩ := List.mem_map.mp hpair
    obtain ⟨rfl, rfl⟩ := Prod.mk.inj he
    exact List.ne_nil_of_mem (List.mem_filter.mpr ⟨hp, by simp⟩)
  have hfinal : ∀ l r, PeerProbes.cell { row with
      pairs := prunePairs row.pairs locals remotes
      ambiguous := (ambiguousPorts (prunePairs row.pairs locals remotes) bindIfaces
        row.addrIfaces).keys } l r =
      if l ∈ locals ∧ r ∈ remotes then row.cell l r else none :=
    fun l r => cell_prunePairs row.pairs locals remotes l r
  refine ⟨_, hrun, fun l r => ?_, fun l r c hc => ?_, fun l => ?_⟩
  · rw [hfinal]
    constructor
    · intro h
      by_cases hin : l ∈ locals ∧ r ∈ remotes
      · exact hin
      · rw [if_neg hin] at h
        cases h
    · intro hin
      rw [if_pos hin]
      obtain ⟨hnil, -⟩ | ⟨c, hc, -⟩ := hcells l r
      · exact absurd hnil (hprobed hin.1 hin.2)
      · rw [hc]
        rfl
  · rw [hfinal] at hc
    split at hc
    · next hin =>
      obtain ⟨hnil, -⟩ | ⟨c', hc', hshows⟩ := hcells l r
      · exact absurd hnil (hprobed hin.1 hin.2)
      · cases hc.symm.trans hc'
        exact hshows
    · cases hc
  · have hcell : ∀ {r : String} {c : ProbeCell}, ((prunePairs row.pairs locals remotes).get l).bind
        (·.get r) = some c ↔ ∃ cells, (prunePairs row.pairs locals remotes).get l = some cells ∧
          cells.get r = some c := Option.bind_eq_some_iff
    refine mem_ambiguousPorts.trans (and_congr_right fun _ => ?_)
    simp only [PeerProbes.cell, hcell]
    constructor
    · rintro ⟨cells, hcells, ⟨r, c, hc, hok, hd⟩, r', c', s, d, hc', hok', hs, hdok, hne⟩
      exact ⟨⟨r, c, ⟨cells, hcells, hc⟩, hok, hd⟩,
        r', c', s, d, ⟨cells, hcells, hc'⟩, hok', ⟨cells, hcells, hs⟩, hdok, hne⟩
    · rintro ⟨⟨r, c, ⟨cells, hcells, hc⟩, hok, hd⟩, r', c', s, d, ⟨cells', hcells', hc'⟩, hok',
        ⟨cells'', hcells'', hs⟩, hdok, hne⟩
      obtain rfl := Option.some.inj (hcells.symm.trans hcells')
      obtain rfl := Option.some.inj (hcells.symm.trans hcells'')
      exact ⟨cells, hcells, ⟨r, c, hc, hok, hd⟩, r', c', s, d, hc', hok', hs, hdok, hne⟩

namespace Sample

def unprobedPeer : PeerProbes := ⟨∅, ∅, ∅, []⟩

/-- The one pair is tried, and the peer pushes its status and links again before the round ends. -/
def onePair : List ProbeAct :=
  [.push "b" none none, .record "b" ⟨"10.0.0.1", "10.0.0.2", none, .ok 3, none, 100⟩, .link "b" ∅]

end Sample

theorem probe_round_pair : ∃ row,
    (PeersProbes.run ((∅ : PeersProbes).set "b" Sample.unprobedPeer)
      (Sample.onePair ++ [.finish "b" ["10.0.0.1"] ["10.0.0.2"] ∅])).get "b" = some row ∧
    ∀ l r, (row.cell l r).isSome = true ↔ l ∈ ["10.0.0.1"] ∧ r ∈ ["10.0.0.2"] := by
  obtain ⟨row, hrow, hcells, -⟩ := @probe_round ((∅ : PeersProbes).set "b" Sample.unprobedPeer)
    Sample.onePair "b" Sample.unprobedPeer ["10.0.0.1"] ["10.0.0.2"] ∅ (Table.get_set_self _ _ _)
    (by decide) (by decide)
  exact ⟨row, hrow, hcells⟩

end Mentat
