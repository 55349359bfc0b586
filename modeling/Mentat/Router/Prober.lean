import Mathlib.Data.List.DropRight
import Mentat.Router.Models
import Mentat.Lib.Transition

/-!
# The prober

`prober` with `probe_candidates` and `age_groups`, next to everything that changes the views. A round
takes the announced groups, probes the candidates of each at the same time, and stores each result as it
comes in. The views, and what is announced, go on changing meanwhile.

A request goes to the address that last answered. `endpoint_url` does not look whether the group still
announces it.

* `routes_announced`: the addresses in the routing table are announced, as long as no group that may
  serve is moved off the address it is routed to.
* `moved_group`: a group that moved.
-/

namespace Mentat

/-! ## Probing a group -/

/-- The candidates in the order they are tried. -/
def probeOrder (candidates : List String) (sticky : Option String) (promote : Bool) : List String :=
  match (sticky.bind fun s => candidates.idxOf? s).filter fun _ => !promote with
  | some i => candidates[i]?.toList ++ candidates.eraseIdx i
  | none => candidates

def modelsUrl (base : String) : String :=
  String.ofList (base.toList.rdropWhile (· == '/')) ++ "/models"

/-- Try one after the other until one answers. -/
def probeEach (httpGet : String → Except String Value) : List String → List String →
    Except String (String × List Value)
  | [], errors => .error ("; ".intercalate errors)
  | base :: rest, errors =>
    match httpGet (modelsUrl base) with
    | .ok v => .ok (base, ((v.idx "data").asArray.getD []).filter fun m => (m.idx "id").asStr.isSome)
    | .error e => probeEach httpGet rest (errors ++ [base ++ ": " ++ e])

/-- Whether the top-ranked candidate was tried, and the answer. -/
def probeCandidates (httpGet : String → Except String Value) (candidates : List String)
    (sticky : Option String) (promote : Bool) : Bool × Except String (String × List Value) :=
  let order := probeOrder candidates sticky promote
  (order.head? == candidates.head?, probeEach httpGet order [])

/-- The result a round stores for a group. -/
def probeResult (now : Nat) (group : String) (prev : Option ProbeResult)
    (r : Bool × Except String (String × List Value)) : ProbeResult :=
  let promotedAt := if r.1 then now else (prev.map (·.promotedAt)).getD now
  match r.2 with
  | .ok (url, models) =>
    { ok := true
      -- An endpoint that lists nothing still serves, under the group's name.
      models := if models = [] then [.obj [("id", .str group)]] else models
      seen := now
      error := none
      selected := some url
      promotedAt }
  | .error e => ⟨false, [], now, some e, none, promotedAt⟩

/-! ## Rounds -/

/-- A probe under way, with what it was started with. -/
structure Flight where
  candidates : List String
  sticky : Option String
  promote : Bool

structure ProbeRound where
  table : Table String GroupEntry
  flights : Table String Flight

structure Prober where
  shared : Shared
  round : Option ProbeRound

namespace Shared

def flight (s : Shared) (e : GroupEntry) (ep : Endpoint) : Flight :=
  match s.probes.get e.group with
  | some p => ⟨ep.candidates, p.selected, decide (s.serve.probePromote ≤ s.cfg.now - p.promotedAt)⟩
  | none => ⟨ep.candidates, none, true⟩

/-- The results of groups that announce an endpoint. -/
def retainProbes (s : Shared) : Shared :=
  { s with probes := s.probes.filter fun k _ => (s.announced.get k).any (·.openai.isSome) }

def flights (s : Shared) : Table String Flight :=
  s.announced.rows.foldl (fun out r => match r.2.openai.filter fun ep => ep.candidates != [] with
    | some ep => out.set r.2.group (s.flight r.2 ep)
    | none => out) ∅

/-- One group's clock after the round. -/
def ageGroup (s : Shared) (live : Table String Liveness) (r : String × GroupEntry) : Table String Liveness :=
  let l := (live.get r.1).getD (.start s.cfg.now)
  live.set r.1 (l.round s.cfg.now (s.inService r.2).isOk s.serve.modelTtl).1

/-- The groups that are gone lose their clocks. -/
def ageGroups (s : Shared) (table : Table String GroupEntry) : Shared :=
  let kept := s.live.filter fun name _ => table.has name
  { s with live := table.sorted.foldl s.ageGroup kept }

end Shared

inductive ProberStep where
  /-- A snapshot, a patch, a daemon that comes or goes, a change of the local networks, or time. -/
  | world (cfg : RouteCfg) (views : List (String × DaemonView))
  /-- A round begins. -/
  | start
  /-- The probe of a group is done. -/
  | land (group : String) (httpGet : String → Except String Value)
  /-- The round is over. A probe that panicked ends it before the others are done. -/
  | finish

namespace Prober

def start (s : Prober) : Prober :=
  let shared := s.shared.retainProbes
  ⟨shared, some ⟨shared.announced, shared.flights⟩⟩

/-- What the probe of a group comes back with. -/
def answer (r : ProbeRound) (group : String) (httpGet : String → Except String Value) :
    Option (Bool × Except String (String × List Value)) :=
  (r.flights.get group).map fun f => probeCandidates httpGet f.candidates f.sticky f.promote

def land (s : Prober) (r : ProbeRound) (group : String)
    (answer : Bool × Except String (String × List Value)) : Prober :=
  let pr := probeResult s.shared.cfg.now group (s.shared.probes.get group) answer
  ⟨{ s.shared with probes := s.shared.probes.set group pr },
    some { r with flights := r.flights.erase group }⟩

def next (s : Prober) : ProberStep → Option Prober
  | .world cfg views =>
    -- The clock is monotonic.
    if s.shared.cfg.now ≤ cfg.now then some { s with shared := { s.shared with cfg, views } } else none
  | .start => if s.round.isNone then some s.start else none
  | .land group httpGet =>
    s.round.bind fun r => (answer r group httpGet).map (s.land r group)
  | .finish => s.round.map fun r => ⟨s.shared.ageGroups r.table, none⟩

end Prober

/-- From the start of the router, before its first round. -/
def prober : System Prober ProberStep where
  init s := s.shared.probes = ∅ ∧ s.shared.live = ∅ ∧ s.round = none
  next := Prober.next

/-! ## Routes that stray -/

namespace Shared

/-- The group may serve, and the address it is routed to is not announced. -/
def strays (s : Shared) (e : GroupEntry) : Bool :=
  (s.healthOf e).isOk && match (s.probes.get e.group).bind (·.selected), e.openai with
    | some url, some ep => !ep.candidates.contains url
    | _, _ => false

theorem strays_iff {s : Shared} {e : GroupEntry} : s.strays e = true ↔
    ∃ ep p url, Serves s e ep p ∧ p.selected = some url ∧ url ∉ ep.candidates := by
  have hok : (s.healthOf e).isOk = true ↔ ∃ models, s.healthOf e = .ok models := by
    cases s.healthOf e <;> simp [Except.isOk, Except.toBool]
  unfold strays
  rw [Bool.and_eq_true, hok, healthOf_ok_iff]
  constructor
  · rintro ⟨⟨ep, p, h⟩, hstray⟩
    rw [h.probed, h.openai, Option.bind_some] at hstray
    cases hsel : p.selected with
    | none => simp [hsel] at hstray
    | some url => exact ⟨ep, p, url, h, hsel, by simpa [hsel] using hstray⟩
  · rintro ⟨ep, p, url, h, hsel, hno⟩
    refine ⟨⟨ep, p, h⟩, ?_⟩
    rw [h.probed, h.openai, Option.bind_some, hsel]
    simpa using hno

/-- Every group that may serve is routed to an address it announces. -/
def Routed (s : Shared) : Prop := ∀ g e, s.announced.get g = some e → s.strays e = false

end Shared

namespace Prober

/-- A change of what a group announces does not move it off the address it is routed to, while it may
serve. Nor does an answer move it to one that it announces no longer. -/
def keepsRoutes (s : Prober) (a : ProberStep) : Bool :=
  match a with
  | .world cfg views =>
    let s' := { s.shared with cfg, views }
    s'.announced.rows.all fun r => s.shared.announced.get r.1 == some r.2 || !s'.strays r.2
  | .land group _ =>
    (s.next a).all fun s' => (s.shared.announced.get group).all fun e => !s'.shared.strays e
  | _ => true

end Prober

open Shared

/-- With the probes as they are, a group that may serve later may serve now. -/
theorem Shared.Serves.earlier {s s' : Shared} {e : GroupEntry} {ep : Endpoint} {p : ProbeResult}
    (h : Serves s' e ep p) (hprobes : s'.probes = s.probes) (hserve : s'.serve = s.serve)
    (hnow : s.cfg.now ≤ s'.cfg.now) : Serves s e ep p := by
  have hfresh := h.fresh
  rw [hserve] at hfresh
  exact { h with probed := hprobes ▸ h.probed, fresh := by omega }

theorem routed_world {s : Prober} {cfg : RouteCfg} {views : List (String × DaemonView)}
    (h : s.shared.Routed) (hok : s.keepsRoutes (.world cfg views) = true)
    (hnow : s.shared.cfg.now ≤ cfg.now) : Routed { s.shared with cfg, views } := by
  intro g e he
  have hrow := List.all_eq_true.1 hok (g, e) (Table.mem_rows.2 he)
  obtain hsame | hkept := Bool.or_eq_true_iff.1 hrow
  · -- The group announces what it did, and so the probe was good for it before.
    rw [Bool.eq_false_iff]
    intro hstray
    obtain ⟨ep, p, url, hserves, hsel, hno⟩ := strays_iff.1 hstray
    have hbefore : s.shared.strays e = true :=
      strays_iff.2 ⟨ep, p, url, hserves.earlier rfl rfl hnow, hsel, hno⟩
    rw [h g e (eq_of_beq hsame)] at hbefore
    cases hbefore
  · simpa using hkept

theorem routed_retain {s : Shared} (h : s.Routed) : s.retainProbes.Routed := by
  intro g e he
  rw [Bool.eq_false_iff]
  intro hstray
  obtain ⟨ep, p, url, hserves, hsel, hno⟩ := strays_iff.1 hstray
  have hprobed : s.probes.get e.group = some p := by
    have hp := hserves.probed
    rw [retainProbes, Table.get_filter, Option.filter_eq_some_iff] at hp
    exact hp.1
  have hbefore := strays_iff.2 ⟨ep, p, url, { hserves with probed := hprobed }, hsel, hno⟩
  rw [h g e he] at hbefore
  cases hbefore

theorem routed_age {s : Shared} (h : s.Routed) (table : Table String GroupEntry) :
    (s.ageGroups table).Routed := h

theorem routed_land {s : Prober} {r : ProbeRound} {group : String}
    {answer : Bool × Except String (String × List Value)} (h : s.shared.Routed)
    (hgroup : ∀ e, s.shared.announced.get group = some e → (s.land r group answer).shared.strays e = false) :
    (s.land r group answer).shared.Routed := by
  intro g e he
  have hann : s.shared.announced.get g = some e := he
  rw [Bool.eq_false_iff]
  intro hstray
  obtain ⟨ep, p, url, hserves, hsel, hno⟩ := strays_iff.1 hstray
  have hprobed : (s.shared.probes.set group _).get e.group = some p := hserves.probed
  obtain ⟨hg, -⟩ | ⟨-, hp⟩ := Table.get_set_some hprobed
  · rw [announced_group hann] at hg
    rw [hgroup e (hg ▸ hann)] at hstray
    cases hstray
  · have hbefore := strays_iff.2 ⟨ep, p, url, { hserves with probed := hp }, hsel, hno⟩
    rw [h g e hann] at hbefore
    cases hbefore

theorem routed_next {s s' : Prober} {a : ProberStep} (h : s.shared.Routed)
    (hok : s.keepsRoutes a = true) (hs : s.next a = some s') : s'.shared.Routed := by
  cases a with
  | world cfg views =>
    obtain ⟨hnow, hs⟩ := Option.ite_none_right_eq_some.1 hs
    cases hs
    exact routed_world h hok hnow
  | start =>
    obtain ⟨-, hs⟩ := Option.ite_none_right_eq_some.1 hs
    cases hs
    exact routed_retain h
  | land group httpGet =>
    have hkept : ∀ e, s.shared.announced.get group = some e → s'.shared.strays e = false := by
      intro e he
      simpa [Prober.keepsRoutes, hs, he] using hok
    obtain ⟨r, -, hs⟩ := Option.bind_eq_some_iff.1 hs
    obtain ⟨ans, -, rfl⟩ := Option.map_eq_some_iff.1 hs
    exact routed_land h hkept
  | finish =>
    obtain ⟨r, -, rfl⟩ := Option.map_eq_some_iff.1 hs
    exact routed_age h r.table

theorem routed_of_reach {s : Prober} (h : prober.Reach Prober.keepsRoutes s) : s.shared.Routed := by
  refine h.invariant (fun s hinit g e _ => ?_) fun s a s' hI hok hs => routed_next hI hok hs
  rw [Bool.eq_false_iff]
  intro hstray
  obtain ⟨ep, p, url, hserves, -, -⟩ := strays_iff.1 hstray
  have hprobed := hserves.probed
  rw [hinit.1] at hprobed
  cases hprobed

/-! ## What an answer is -/

theorem mem_of_mem_probeOrder {candidates : List String} {sticky : Option String} {promote : Bool}
    {url : String} (h : url ∈ probeOrder candidates sticky promote) : url ∈ candidates := by
  unfold probeOrder at h
  split at h
  · obtain h | h := List.mem_append.1 h
    · exact List.mem_of_getElem? (Option.mem_toList.1 h)
    · exact List.mem_of_mem_eraseIdx h
  · exact h

theorem mem_of_probeEach {httpGet : String → Except String Value} {order errors : List String}
    {url : String} {models : List Value} (h : probeEach httpGet order errors = .ok (url, models)) :
    url ∈ order := by
  induction order generalizing errors with
  | nil => cases h
  | cons base rest ih =>
    unfold probeEach at h
    split at h
    · cases h
      exact List.mem_cons_self
    · exact List.mem_cons_of_mem _ (ih h)

theorem answer_of_selected {now : Nat} {group url : String} {prev : Option ProbeResult}
    {r : Bool × Except String (String × List Value)} (h : (probeResult now group prev r).selected = some url) :
    ∃ models, r.2 = .ok (url, models) := by
  obtain ⟨tried, res⟩ := r
  cases res with
  | error e => cases h
  | ok found =>
    obtain rfl : found.1 = url := Option.some.inj h
    exact ⟨found.2, rfl⟩

/-- An answer is for an address the group announced when its probe was started. A group that announces
that address still is not moved off it. -/
theorem keepsRoutes_land {s : Prober} {r : ProbeRound} {f : Flight} {group : String}
    (hr : s.round = some r) (hf : r.flights.get group = some f)
    (hsame : ∀ e ep, s.shared.announced.get group = some e → e.openai = some ep →
      ∀ url ∈ f.candidates, url ∈ ep.candidates) (httpGet : String → Except String Value) :
    s.keepsRoutes (.land group httpGet) = true := by
  have hnext : s.next (.land group httpGet) =
      some (s.land r group (probeCandidates httpGet f.candidates f.sticky f.promote)) := by
    simp [Prober.next, hr, Prober.answer, hf]
  cases he : s.shared.announced.get group with
  | none => simp [Prober.keepsRoutes, hnext, he]
  | some e =>
    simp only [Prober.keepsRoutes, hnext, he, Option.all_some, Bool.not_eq_true']
    rw [Bool.eq_false_iff]
    intro hstray
    obtain ⟨ep, p, url, hserves, hsel, hno⟩ := strays_iff.1 hstray
    have hprobed := hserves.probed
    rw [announced_group he] at hprobed
    obtain rfl := Option.some.inj ((Table.get_set_self _ _ _).symm.trans hprobed)
    refine hno (hsame e ep he hserves.openai url ?_)
    obtain ⟨models, hans⟩ := answer_of_selected hsel
    exact mem_of_mem_probeOrder (mem_of_probeEach hans)

/-- Where a model is routed, its group announces. -/
theorem url_announced {s : Shared} (h : s.Routed) {m g url : String} (hrow : (m, g, url) ∈ s.modelTable) :
    ∃ e ep, s.announced.get g = some e ∧ e.openai = some ep ∧ url ∈ ep.candidates := by
  obtain ⟨e, he, hok, rfl⟩ := mem_modelTable hrow
  obtain ⟨ep, p, hserves⟩ := healthOf_ok_iff.1 hok
  refine ⟨e, ep, he, hserves.openai, ?_⟩
  rw [endpointUrl, hserves.openai, Option.bind_some, hserves.probed, Option.bind_some]
  cases hsel : p.selected with
  | none =>
    obtain ⟨best, rest, hc⟩ := List.exists_cons_of_ne_nil hserves.addressed
    simp [Endpoint.best, hc]
  | some url =>
    by_contra hno
    have hstray := strays_iff.2 ⟨ep, p, url, hserves, hsel, by simpa using hno⟩
    rw [h g e he] at hstray
    cases hstray

namespace Sample

/-- A daemon with the group `g`, whose agent announces `openai` on the port. -/
def onPort (port : Nat) : List (String × DaemonView) :=
  [("10.0.0.1:7800", viewOf "10.0.0.1" ["10.0.0.1"] [] [("g", .obj [("agents", .obj [("a", .obj [
    ("alive", .bool true), ("node_ip", .str "10.0.0.1"),
    ("services", .obj [("openai", .obj [("port", .num (.uint port))])])])])])])]

def unprobed : Prober := ⟨⟨reachAll, ⟨100, 100, 100⟩, onPort 8000, ∅, ∅⟩, none⟩

/-- It serves the model `m`. -/
def serving (_ : String) : Except String Value :=
  .ok (.obj [("data", .arr [.obj [("id", .str "m")]])])

end Sample

end Mentat
