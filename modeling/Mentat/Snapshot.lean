import Mentat.State
import Mentat.Lib.Document

/-!
# The snapshot and its patches

`status.rs` and the router's `apply_patch`. `snapshot` is the document a daemon answers `/status`
with. An event carries patches for it, and a consumer that holds a snapshot applies them.

The parts no patch and no placement is about are left out: versions, addresses and ports, the
sequence number, the counters, and the rows of the peers.

`State.listed` is what a snapshot says of the agents, one row for each group and id, and `Patch.on`
what a patch does to that. `applyEvents_listing` leads from documents to these: the events of a daemon
never fail to apply, and the agents' rows afterwards are those of the patches.
-/

namespace Mentat

/-- The groups that some agent or actor is in. A snapshot with a scope has that group alone, also
when nothing is in it. -/
def snapshotGroups (st : State) (scope : Option String) : List String :=
  let groups := sortDedup (st.agents.values.map (·.group) ++ st.actors.values.map (·.group))
  match scope with
  | none => groups
  | some s =>
    let groups := groups.filter (· == s)
    if groups.isEmpty then [s] else groups

/-- The rows of a table that pass `p`. -/
def tableDoc {V : Type} (t : Table String V) (p : V → Bool) (row : String → V → Row) : Doc Row :=
  .obj ((t.rows.filter fun r => p r.2).map fun r => (r.1, .row (row r.1 r.2)))

def groupDoc (st : State) (g : String) : Doc Row :=
  let live := st.agents.rows.filter fun r => r.2.alive && r.2.group == g
  let total := (live.map fun r => r.2.machine.gpus.length).sum
  let free := (live.map fun r => (st.freeGpusOf r.1).length).sum
  .obj [
    ("claims", .obj ((st.claims.rows.filter fun r => r.1.1 == g).map fun r =>
      (r.1.2, .row (.claim (claimRow r.2))))),
    ("agents", tableDoc st.agents (·.group == g) fun id a => .agent (agentRow st id a)),
    ("actors", tableDoc st.actors (·.group == g) fun _ a => .actor (actorRow a)),
    ("placement_groups", tableDoc st.pgs (·.group == g) fun _ p => .pg (pgRow p)),
    ("gpus_total", .row (.count total)),
    ("gpus_used", .row (.count (total - free)))]

def snapshot (st : State) (scope : Option String) : Doc Row := .obj [
  ("node_id", .row (.text st.nodeId)),
  ("node_ip", .row (.text st.nodeIp)),
  ("head_node_id", .row (.text st.headNodeId)),
  ("head_generation", .row (.count st.headGeneration)),
  ("islands", .row (.islands st.fabrics.islands)),
  ("clients", tableDoc st.clients (fun c => scope.all (c.group == ·)) fun _ c => .client c),
  ("groups", .obj ((snapshotGroups st scope).map fun g => (g, groupDoc st g)))]

def Patch.path : Patch → List String
  | .set path _ => path
  | .remove path => path

def Patch.value : Patch → Option (Doc Row)
  | .set _ row => some (.row row)
  | .remove _ => none

/-- One event's patch on a stored snapshot. None when the reader has to read it again. -/
def applyPatch (d : Doc Row) (e : Event) : Option (Doc Row) :=
  e.patch.foldlM (fun d p => d.patch p.path p.value) d

def applyEvents (d : Doc Row) (events : List Event) : Option (Doc Row) :=
  events.foldlM applyPatch d

/-! ## The layout -/

/-- Where a snapshot has an object of rows or of such objects. -/
def layout : List String → Bool
  | [] => true
  | [k] => k == "groups" || k == "clients" || k == "peers"
  | [k, _] => k == "groups"
  | [k, _, c] => k == "groups" && ["claims", "agents", "actors", "placement_groups"].contains c
  | _ => false

/-- The patch keeps to the layout. -/
def Patch.InPlace (p : Patch) : Prop := Doc.InPlace layout p.path p.value

theorem layout_length {q : List String} (h : layout q = true) : q.length ≤ 3 := by
  unfold layout at h
  split at h <;> simp_all

section Layout

variable {g c id k : String} {v : Option (Doc Row)}

/-- A row of a group's table. -/
theorem inPlace_table (hc : c ∈ ["claims", "agents", "actors", "placement_groups"]) :
    Doc.InPlace layout ["groups", g, c, id] v := by
  refine ⟨by simp, fun q hq hne => ?_, fun _ q hq => ?_⟩
  · rw [← List.mem_inits] at hq
    simp only [List.inits, List.map_cons, List.map_nil, List.mem_cons, List.not_mem_nil,
      or_false] at hq
    rcases hq with rfl | rfl | rfl | rfl | rfl
    · rfl
    · rfl
    · rfl
    · simpa [layout] using hc
    · exact absurd rfl hne
  · have hlen := hq.length_le
    refine Bool.eq_false_iff.mpr fun hl => ?_
    have := layout_length hl
    simp only [List.length_cons, List.length_nil] at hlen
    omega

/-- A row of the clients' or of the peers' table. -/
theorem inPlace_row (hk : k ∈ ["clients", "peers"]) : Doc.InPlace layout [k, id] v := by
  have hkey : k = "clients" ∨ k = "peers" := by simpa using hk
  refine ⟨by simp, fun q hq hne => ?_, fun _ q hq => ?_⟩
  · rw [← List.mem_inits] at hq
    simp only [List.inits, List.map_cons, List.map_nil, List.mem_cons, List.not_mem_nil,
      or_false] at hq
    rcases hq with rfl | rfl | rfl
    · rfl
    · rcases hkey with rfl | rfl <;> rfl
    · exact absurd rfl hne
  · obtain ⟨r, rfl⟩ := hq
    rcases hkey with rfl | rfl <;> rcases r with _ | ⟨a, _ | ⟨b, r⟩⟩ <;> rfl

/-- A field of the daemon's own. -/
theorem inPlace_field (hk : k ∈ ["head_node_id", "head_generation", "islands"]) :
    Doc.InPlace layout [k] v := by
  have hkey : k = "head_node_id" ∨ k = "head_generation" ∨ k = "islands" := by simpa using hk
  refine ⟨by simp, fun q hq hne => ?_, fun _ q hq => ?_⟩
  · rw [← List.mem_inits] at hq
    simp only [List.inits, List.map_cons, List.map_nil, List.mem_cons, List.not_mem_nil,
      or_false] at hq
    rcases hq with rfl | rfl
    · rfl
    · exact absurd rfl hne
  · obtain ⟨r, rfl⟩ := hq
    rcases hkey with rfl | rfl | rfl <;>
      rcases r with _ | ⟨a, _ | ⟨b, _ | ⟨c, r⟩⟩⟩ <;> rfl

/-- A whole group, which is only ever removed. -/
theorem inPlace_group : Doc.InPlace layout ["groups", g] (none : Option (Doc Row)) := by
  refine ⟨by simp, fun q hq hne => ?_, fun h => absurd rfl h⟩
  rw [← List.mem_inits] at hq
  simp only [List.inits, List.map_cons, List.map_nil, List.mem_cons, List.not_mem_nil,
    or_false] at hq
  rcases hq with rfl | rfl | rfl
  · rfl
  · rfl
  · exact absurd rfl hne

end Layout

/-! ## The agents of a snapshot -/

/-- What is listed of the agents, by group and id. -/
abbrev Listing := String → AgentId → Option (Doc Row)

def Doc.listing (d : Doc Row) : Listing := fun g id => d.at_ (agentPath g id)

def State.listed (st : State) : Listing := fun g id =>
  ((st.agents.get id).filter (·.group == g)).map fun a => .row (.agent (agentRow st id a))

/-- What a patch makes of it. -/
def Patch.on (f : Listing) (p : Patch) : Listing := fun g id =>
  if p.path <+: agentPath g id then p.value else f g id

def Event.on (f : Listing) (e : Event) : Listing := e.patch.foldl Patch.on f

/-- Each row is patched by itself. -/
theorem foldl_event_congr (events : List Event) {f f' : Listing} {g : String} {id : AgentId}
    (h : f g id = f' g id) : events.foldl Event.on f g id = events.foldl Event.on f' g id := by
  have hpatch : ∀ (ps : List Patch) (f f' : Listing), f g id = f' g id →
      ps.foldl Patch.on f g id = ps.foldl Patch.on f' g id := by
    intro ps
    induction ps with
    | nil => exact fun f f' h => h
    | cons p ps ih => exact fun f f' h => ih _ _ (by simp only [Patch.on, h])
  induction events generalizing f f' with
  | nil => exact h
  | cons e events ih => exact ih (hpatch e.patch f f' h)

theorem tableDoc_field {V : Type} (t : Table String V) (p : V → Bool) (row : String → V → Row)
    (id : String) :
    (tableDoc t p row).field id = ((t.get id).filter p).map fun v => .row (row id v) := by
  have hmem : ∀ d, (id, d) ∈ ((t.rows.filter fun r => p r.2).map fun r =>
      (r.1, (.row (row r.1 r.2) : Doc Row))) ↔ ∃ v, t.get id = some v ∧ p v = true ∧
        d = .row (row id v) := by
    intro d
    simp only [List.mem_map, List.mem_filter, Prod.mk.injEq]
    constructor
    · rintro ⟨⟨k, v⟩, ⟨hr, hp⟩, rfl, rfl⟩
      exact ⟨v, Table.mem_rows.mp hr, hp, rfl⟩
    · rintro ⟨v, hv, hp, rfl⟩
      exact ⟨(id, v), ⟨Table.mem_rows.mpr hv, hp⟩, rfl, rfl⟩
  simp only [tableDoc, Doc.field]
  cases hv : t.get id with
  | none => exact Doc.lookup_of_not_mem fun d hd => by simp [hmem, hv] at hd
  | some v =>
    by_cases hp : p v = true
    · rw [Option.filter_some_pos hp, Option.map_some]
      refine Doc.lookup_of_mem ((hmem _).mpr ⟨v, hv, hp, rfl⟩) fun d hd => ?_
      obtain ⟨v', hv', -, rfl⟩ := (hmem d).mp hd
      rw [hv] at hv'
      rw [Option.some.inj hv']
    · rw [Option.filter_some_neg (Bool.eq_false_iff.mpr hp)]
      exact Doc.lookup_of_not_mem fun d hd => by simp [hmem, hv, hp] at hd

theorem mem_snapshotGroups {st : State} {scope : Option String} {g : String} {id : AgentId}
    {a : AgentInfo} (hs : scope.all (· == g) = true) (ha : st.agents.get id = some a)
    (hg : a.group = g) : g ∈ snapshotGroups st scope := by
  have hall : g ∈ sortDedup (st.agents.values.map (·.group) ++ st.actors.values.map (·.group)) := by
    rw [mem_sortDedup, List.mem_append]
    exact .inl (List.mem_map.mpr ⟨a, Table.mem_values.mpr ⟨id, ha⟩, hg⟩)
  unfold snapshotGroups
  cases scope with
  | none => exact hall
  | some s =>
    have hsg : s = g := by simpa using hs
    subst hsg
    simp only
    split
    · exact List.mem_singleton_self s
    · exact List.mem_filter.mpr ⟨hall, beq_self_eq_true s⟩

/-- A snapshot lists the agents of its groups. -/
theorem snapshot_listing {st : State} {scope : Option String} {g : String}
    (hs : scope.all (· == g) = true) (id : AgentId) :
    (snapshot st scope).listing g id = st.listed g id := by
  have hgroups : (snapshot st scope).listing g id =
      (((snapshotGroups st scope).map fun g => (g, groupDoc st g)).lookup g).bind fun d =>
        (d.field "agents").bind (Doc.at_ [id]) := rfl
  by_cases hg : g ∈ snapshotGroups st scope
  · rw [hgroups, Doc.lookup_of_mem (d := groupDoc st g) (List.mem_map.mpr ⟨g, hg, rfl⟩) ?_]
    · have hagents : (groupDoc st g).field "agents" =
          some (tableDoc st.agents (·.group == g) fun id a => .agent (agentRow st id a)) := rfl
      simp only [Option.bind_some, hagents, Doc.at_, tableDoc_field, Option.bind_fun_some]
      rfl
    · intro d hd
      obtain ⟨g', -, he⟩ := List.mem_map.mp hd
      simp only [Prod.mk.injEq] at he
      rw [← he.2, he.1]
  · rw [hgroups, Doc.lookup_of_not_mem ?_]
    · rw [Option.bind_none, State.listed]
      cases ha : st.agents.get id with
      | none => rfl
      | some a =>
        have hne : a.group ≠ g := fun he => hg (mem_snapshotGroups hs ha he)
        simp [hne]
    · intro d hd
      obtain ⟨g', hg', he⟩ := List.mem_map.mp hd
      simp only [Prod.mk.injEq] at he
      exact hg (he.1 ▸ hg')

theorem lookup_map {α : Type} {l : List α} {key : α → String} {f : α → Doc Row} {k : String}
    {u : Doc Row} (h : (l.map fun x => (key x, f x)).lookup k = some u) : ∃ x ∈ l, u = f x := by
  rw [List.lookup_eq_some_iff] at h
  obtain ⟨l1, l2, he, -⟩ := h
  have hmem : (k, u) ∈ l.map fun x => (key x, f x) := he ▸ List.mem_append_right l1 List.mem_cons_self
  obtain ⟨x, hx, hxu⟩ := List.mem_map.mp hmem
  simp only [Prod.mk.injEq] at hxu
  exact ⟨x, hx, hxu.2.symm⟩

/-- No row stands where the layout has an object. -/
theorem snapshot_shaped (st : State) (scope : Option String) : (snapshot st scope).Shaped layout := by
  intro q hq u hu
  unfold layout at hq
  split at hq
  · exact ⟨_, (Option.some.inj hu).symm⟩
  · next k =>
    simp only [Bool.or_eq_true, beq_iff_eq] at hq
    rcases hq with (rfl | rfl) | rfl
    · exact ⟨_, (Option.some.inj hu).symm⟩
    · exact ⟨_, (Option.some.inj hu).symm⟩
    · cases hu
  · next k g =>
    simp only [beq_iff_eq] at hq
    subst hq
    have hu : (((snapshotGroups st scope).map fun g => (g, groupDoc st g)).lookup g).bind
      (Doc.at_ []) = some u := hu
    obtain ⟨d, hd, hu⟩ := Option.bind_eq_some_iff.mp hu
    obtain ⟨g', -, rfl⟩ := lookup_map hd
    exact ⟨_, (Option.some.inj hu).symm⟩
  · next k g c =>
    simp only [Bool.and_eq_true, beq_iff_eq, List.contains_eq_mem, decide_eq_true_eq] at hq
    obtain ⟨rfl, hc⟩ := hq
    have hu : (((snapshotGroups st scope).map fun g => (g, groupDoc st g)).lookup g).bind
      (Doc.at_ [c]) = some u := hu
    obtain ⟨d, hd, hu⟩ := Option.bind_eq_some_iff.mp hu
    obtain ⟨g', -, rfl⟩ := lookup_map hd
    simp only [List.mem_cons, List.not_mem_nil, or_false] at hc
    rcases hc with rfl | rfl | rfl | rfl <;> exact ⟨_, (Option.some.inj hu).symm⟩
  · cases hq

section Apply

variable {d d' : Doc Row}

theorem patch_listing {p : Patch} (hp : p.InPlace) (h : d.patch p.path p.value = some d') :
    d'.listing = p.on d.listing := by
  funext g id
  have hrow : Doc.InPlace layout (agentPath g id) (none : Option (Doc Row)) :=
    inPlace_table (by simp)
  unfold Patch.on Doc.listing
  split
  · next hpre =>
    cases hv : p.value with
    | none => exact Doc.patch_below (hv ▸ h) hpre
    | some u =>
      -- A row stored above the agent's would stand in the place of an object.
      have heq : p.path = agentPath g id := by
        by_contra hne
        have hlay := hrow.2.1 p.path hpre hne
        rw [hp.2.2 (by simp [hv]) p.path List.prefix_rfl] at hlay
        cases hlay
      rw [← heq, Doc.patch_self h, hv]
  · next hpre =>
    refine Doc.patch_apart h hpre fun hpre' => ?_
    have hne : agentPath g id ≠ p.path := fun he => hpre (he ▸ List.prefix_rfl)
    have := layout_length (hp.2.1 _ hpre' hne)
    simp [agentPath] at this

theorem applyPatch_listing {e : Event} (hd : d.Shaped layout) (he : ∀ p ∈ e.patch, p.InPlace) :
    ∃ d', applyPatch d e = some d' ∧ d'.Shaped layout ∧ d'.listing = e.on d.listing := by
  unfold applyPatch Event.on
  generalize e.patch = ps at he
  induction ps generalizing d with
  | nil => exact ⟨d, rfl, hd, rfl⟩
  | cons p ps ih =>
    obtain ⟨d1, h1, hd1⟩ := hd.patch (he p List.mem_cons_self)
    obtain ⟨d', h', hd', hl⟩ := ih hd1 fun q hq => he q (List.mem_cons_of_mem p hq)
    refine ⟨d', by rw [List.foldlM_cons, h1]; exact h', hd', ?_⟩
    rw [hl, List.foldl_cons, patch_listing (he p List.mem_cons_self) h1]

/-- Events that keep to the layout apply, and the agents listed after them are those of their
patches. -/
theorem applyEvents_listing {events : List Event} (hd : d.Shaped layout)
    (he : ∀ e ∈ events, ∀ p ∈ e.patch, p.InPlace) :
    ∃ d', applyEvents d events = some d' ∧ d'.listing = events.foldl Event.on d.listing := by
  unfold applyEvents
  induction events generalizing d with
  | nil => exact ⟨d, rfl, rfl⟩
  | cons e events ih =>
    obtain ⟨d1, h1, hd1, hl1⟩ := applyPatch_listing hd (he e List.mem_cons_self)
    obtain ⟨d', h', hl⟩ := ih hd1 fun x hx => he x (List.mem_cons_of_mem e hx)
    exact ⟨d', by rw [List.foldlM_cons, h1]; exact h', by rw [hl, List.foldl_cons, hl1]⟩

end Apply

end Mentat
