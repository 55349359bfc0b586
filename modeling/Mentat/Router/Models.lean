import Mathlib.Data.List.Sort
import Mentat.Router.Groups

/-!
# The models a router lists

`group_table`, `health_of`, `endpoint_url`, `model_table` and `model_objects`: the groups of the stored
views that have not been retired, those of them whose last probe admits them, and what they serve. The
first group in the order of the names has a model that two groups serve.

* `objects_of_table`: the listing has the names of the routing table, each owned by the group it is
  routed to.
-/

namespace Mentat

/-! ## In the order of the keys -/

namespace Table

variable {V : Type}

/-- A `BTreeMap` is walked in the order of its keys. -/
def sorted (t : Table String V) : List (String × V) := t.rows.insertionSort (·.1 ≤ ·.1)

theorem mem_sorted {t : Table String V} {r : String × V} : r ∈ t.sorted ↔ t.get r.1 = some r.2 := by
  rw [sorted, List.mem_insertionSort]
  exact mem_rows

theorem sorted_map {W : Type} (f : String → V → W) (t : Table String V) :
    (t.map f).sorted = t.sorted.map fun r => (r.1, f r.1 r.2) := by
  rw [sorted, rows_map, sorted]
  exact (List.map_insertionSort (fun a b : String × V => a.1 ≤ b.1) (fun a b : String × W => a.1 ≤ b.1)
    _ _ fun _ _ _ _ => Iff.rfl).symm

end Table

/-! ## What the router holds -/

structure ProbeResult where
  ok : Bool
  /-- The endpoint's own `/models` entries, verbatim. -/
  models : List Value
  seen : Nat
  error : Option String
  /-- The candidate this group is routed to. -/
  selected : Option String
  promotedAt : Nat

/-- One group's serving clock. -/
structure Liveness where
  okAt : Nat
  /-- The retirement has been logged. -/
  told : Bool

namespace Liveness

def start (now : Nat) : Liveness := ⟨now, false⟩

def retired (l : Liveness) (now ttl : Nat) : Bool := decide (ttl < now - l.okAt)

/-- Fold in one probe round. True on the round that retires the group. -/
def round (l : Liveness) (now : Nat) (ok : Bool) (ttl : Nat) : Liveness × Bool :=
  if ok then (start now, false)
  else if l.told || !l.retired now ttl then (l, false)
  else ({ l with told := true }, true)

end Liveness

structure ServeCfg where
  modelTtl : Nat
  probeFresh : Nat
  probePromote : Nat

/-- What the tables are made from. -/
structure Shared where
  /-- With the clock. -/
  cfg : RouteCfg
  serve : ServeCfg
  views : List (String × DaemonView)
  probes : Table String ProbeResult
  live : Table String Liveness

namespace Shared

def announced (s : Shared) : Table String GroupEntry := announcedGroups s.cfg s.views

/-- The groups a caller may see. -/
def groupTable (s : Shared) : Table String GroupEntry :=
  s.announced.filter fun name _ => match s.live.get name with
    | some l => !l.retired s.cfg.now s.serve.modelTtl
    | none => true

/-- The model names when the group may serve traffic, and why not otherwise. -/
def healthOf (s : Shared) (e : GroupEntry) : Except String (List Value) :=
  match e.openai with
  | none => .error "no announced OpenAI endpoint"
  | some ep =>
    if ep.candidates = [] then
      .error ("announced " ++ ep.announced ++ ", and no address of that node passes ALLOWED_SOURCES")
    else if e.placed && e.running == 0 then .error "no running actors"
    else match s.probes.get e.group with
      | none => .error "not probed yet"
      | some p =>
        if !p.ok then
          .error ("endpoint probe failed: " ++ p.error.getD "unknown" ++ (match ep.note with
            | some n => " (agent reports: " ++ n ++ ")"
            | none => ""))
        else if s.serve.probeFresh < s.cfg.now - p.seen then .error "endpoint probe stale"
        else .ok p.models

/-- Whichever candidate the prober settled on, falling back to the best-ranked one. -/
def endpointUrl (s : Shared) (e : GroupEntry) : Option String :=
  e.openai.bind fun ep => ((s.probes.get e.group).bind (·.selected)).or ep.best

/-- A group with an MCP server and no engine serves while an agent of it is alive. -/
def inService (s : Shared) (e : GroupEntry) : Except String Unit :=
  if e.openai.isNone && e.mcp.isSome then
    if e.agentsAlive = 0 then .error "no alive agent announces its MCP server" else .ok ()
  else (s.healthOf e).map fun _ => ()

end Shared

def modelIds (models : List Value) : List String := models.filterMap fun m => (m.idx "id").asStr

/-- The engine's own object with `owned_by` set to the serving group. -/
def listedModel (m : Value) (group : String) : Value :=
  match m with
  | .obj fields => .obj (putField fields "owned_by" (.str group))
  | m => m

namespace Shared

/-- What one group puts into the routing table. -/
def addRoutes (s : Shared) (out : Table String (String × String)) (e : GroupEntry) :
    Table String (String × String) :=
  match s.healthOf e with
  | .ok models =>
    (modelIds models).foldl (fun out m => out.orInsert m (e.group, (s.endpointUrl e).getD "")) out
  | .error _ => out

/-- The group and the base URL of each model. -/
def modelTable (s : Shared) : List (String × String × String) :=
  (s.groupTable.sorted.foldl (fun out r => s.addRoutes out r.2) ∅).sorted

/-- What one group puts into the listing. -/
def addObjects (s : Shared) (out : Table String Value) (e : GroupEntry) : Table String Value :=
  match s.healthOf e with
  | .ok models => models.foldl (fun out m => match (m.idx "id").asStr with
      | some id => out.orInsert id (listedModel m e.group)
      | none => out) out
  | .error _ => out

/-- What `/v1/models` replies. -/
def modelObjects (s : Shared) : List Value :=
  (s.groupTable.sorted.foldl (fun out r => s.addObjects out r.2) ∅).sorted.map (·.2)

end Shared

/-! ## The listing and the table -/

theorem idx_listedModel {m : Value} {id : String} (h : (m.idx "id").asStr = some id) (group : String) :
    (listedModel m group).idx "owned_by" = .str group ∧ (listedModel m group).idx "id" = .str id := by
  have hid : m.idx "id" = .str id := by
    cases hm : m.idx "id" <;> rw [hm] at h <;> cases h
    rfl
  cases m with
  | obj fields =>
    refine ⟨congrArg (·.getD .null) (lookup_putField fields "owned_by" (.str group)), ?_⟩
    refine Eq.trans (congrArg (·.getD .null) (lookup_putField_of_ne ?_ fields (.str group))) hid
    decide
  | _ => cases hid

/-! Both tables, with the owner of each name only. -/

namespace Shared

def addOwners (s : Shared) (out : Table String Value) (e : GroupEntry) : Table String Value :=
  match s.healthOf e with
  | .ok models => (modelIds models).foldl (fun out m => out.orInsert m (.str e.group)) out
  | .error _ => out

theorem addRoutes_map (s : Shared) (out : Table String (String × String)) (e : GroupEntry) :
    (s.addRoutes out e).map (fun _ r => Value.str r.1) = s.addOwners (out.map fun _ r => .str r.1) e := by
  unfold addRoutes addOwners
  cases s.healthOf e with
  | error _ => rfl
  | ok models =>
    simp only
    induction modelIds models generalizing out with
    | nil => rfl
    | cons m ms ih => rw [List.foldl_cons, ih, Table.map_orInsert, List.foldl_cons]

theorem addObjects_map (s : Shared) (out : Table String Value) (e : GroupEntry) :
    (s.addObjects out e).map (fun _ v => v.idx "owned_by") =
      s.addOwners (out.map fun _ v => v.idx "owned_by") e := by
  unfold addObjects addOwners
  cases s.healthOf e with
  | error _ => rfl
  | ok models =>
    simp only [modelIds, List.foldl_filterMap]
    induction models generalizing out with
    | nil => rfl
    | cons m ms ih =>
      rw [List.foldl_cons, ih, List.foldl_cons]
      cases hid : (m.idx "id").asStr with
      | none => rfl
      | some id => rw [Table.map_orInsert, (idx_listedModel hid e.group).1]

/-- An entry is listed under its own id. -/
theorem addObjects_id (s : Shared) {out : Table String Value}
    (h : ∀ k v, out.get k = some v → v.idx "id" = .str k) (e : GroupEntry) :
    ∀ k v, (s.addObjects out e).get k = some v → v.idx "id" = .str k := by
  unfold addObjects
  cases s.healthOf e with
  | error _ => exact h
  | ok models =>
    simp only
    induction models generalizing out with
    | nil => exact h
    | cons m ms ih =>
      refine ih ?_
      intro k v hv
      cases hid : (m.idx "id").asStr with
      | none =>
        simp only [hid] at hv
        exact h k v hv
      | some id =>
        simp only [hid] at hv
        obtain hv | ⟨rfl, rfl⟩ := Table.get_orInsert hv
        · exact h k v hv
        · exact (idx_listedModel hid e.group).2

/-- The names of the listing are those of the table, each owned by the group it is routed to. -/
theorem objects_of_table (s : Shared) :
    s.modelObjects.map (fun m => (m.idx "id", m.idx "owned_by")) =
      s.modelTable.map fun r => (.str r.1, .str r.2.1) := by
  have hroutes (l : List (String × GroupEntry)) (out : Table String (String × String)) :
      (l.foldl (fun out r => s.addRoutes out r.2) out).map (fun _ r => Value.str r.1) =
        l.foldl (fun out r => s.addOwners out r.2) (out.map fun _ r => .str r.1) := by
    induction l generalizing out with
    | nil => rfl
    | cons r l ih => rw [List.foldl_cons, ih, addRoutes_map, List.foldl_cons]
  have hobjects (l : List (String × GroupEntry)) (out : Table String Value) :
      (l.foldl (fun out r => s.addObjects out r.2) out).map (fun _ v => v.idx "owned_by") =
        l.foldl (fun out r => s.addOwners out r.2) (out.map fun _ v => v.idx "owned_by") := by
    induction l generalizing out with
    | nil => rfl
    | cons r l ih => rw [List.foldl_cons, ih, addObjects_map, List.foldl_cons]
  have hid (l : List (String × GroupEntry)) : ∀ k v,
      (l.foldl (fun out r => s.addObjects out r.2) ∅).get k = some v → v.idx "id" = .str k := by
    induction l using List.reverseRecOn with
    | nil => rintro k v ⟨⟩
    | append_singleton l r ih =>
      rw [List.foldl_append]
      exact s.addObjects_id ih r.2
  -- The owners of either, in the order of the names.
  have howners : (s.groupTable.sorted.foldl (fun out r => s.addObjects out r.2) ∅).sorted.map
        (fun r => (r.1, r.2.idx "owned_by")) =
      (s.groupTable.sorted.foldl (fun out r => s.addRoutes out r.2) ∅).sorted.map
        fun r => (r.1, Value.str r.2.1) := by
    have ho := Table.sorted_map (fun _ v => v.idx "owned_by")
      (s.groupTable.sorted.foldl (fun out r => s.addObjects out r.2) ∅)
    have hr := Table.sorted_map (fun _ r => Value.str r.1)
      (s.groupTable.sorted.foldl (fun out r => s.addRoutes out r.2) ∅)
    rw [← ho, ← hr, hroutes, hobjects]
    rfl
  have hpairs := congrArg (List.map fun x : String × Value => (Value.str x.1, x.2)) howners
  rw [List.map_map, List.map_map] at hpairs
  rw [modelTable, modelObjects, List.map_map]
  refine Eq.trans (List.map_congr_left fun r hr => ?_) hpairs
  exact Prod.ext (hid _ _ _ (Table.mem_sorted.1 hr)) rfl

/-! ## Where a model is routed -/

theorem announced_group {s : Shared} {g : String} {e : GroupEntry} (h : s.announced.get g = some e) :
    e.group = g := by
  rw [announced, announcedGroups_get, Option.map_eq_some_iff] at h
  obtain ⟨w, -, rfl⟩ := h
  rfl

theorem mem_addRoutes {s : Shared} {out : Table String (String × String)} {e : GroupEntry} {m : String}
    {r : String × String} (h : (s.addRoutes out e).get m = some r) :
    out.get m = some r ∨
      (∃ models, s.healthOf e = .ok models) ∧ r = (e.group, (s.endpointUrl e).getD "") := by
  unfold addRoutes at h
  cases hh : s.healthOf e with
  | error _ =>
    rw [hh] at h
    exact .inl h
  | ok models =>
    simp only [hh] at h
    generalize modelIds models = ids at h
    induction ids using List.reverseRecOn with
    | nil => exact .inl h
    | append_singleton ms m' ih =>
      rw [List.foldl_append] at h
      obtain h | ⟨-, rfl⟩ := Table.get_orInsert h
      · exact ih h
      · exact .inr ⟨⟨models, rfl⟩, rfl⟩

/-- A model is routed to where `endpoint_url` sends the traffic of a group that may serve. -/
theorem mem_modelTable {s : Shared} {m g url : String} (h : (m, g, url) ∈ s.modelTable) :
    ∃ e, s.announced.get g = some e ∧ (∃ models, s.healthOf e = .ok models) ∧
      url = (s.endpointUrl e).getD "" := by
  have hfold (l : List (String × GroupEntry)) (hl : ∀ r ∈ l, s.announced.get r.1 = some r.2) :
      ∀ r, (l.foldl (fun out r => s.addRoutes out r.2) ∅).get m = some r →
        ∃ e, s.announced.get r.1 = some e ∧ (∃ models, s.healthOf e = .ok models) ∧
          r.2 = (s.endpointUrl e).getD "" := by
    induction l using List.reverseRecOn with
    | nil => rintro r ⟨⟩
    | append_singleton l x ih =>
      intro r hr
      rw [List.foldl_append] at hr
      obtain hr | ⟨hok, rfl⟩ := mem_addRoutes hr
      · exact ih (fun y hy => hl y (List.mem_append_left _ hy)) r hr
      · have hx := hl x (List.mem_append_right _ (List.mem_singleton_self x))
        exact ⟨x.2, by rw [announced_group hx, hx], hok, rfl⟩
  refine hfold _ (fun r hr => ?_) (g, url) (Table.mem_sorted.1 h)
  have hr := Table.mem_sorted.1 hr
  rw [groupTable, Table.get_filter, Option.filter_eq_some_iff] at hr
  exact hr.1

/-- A group that may serve: an endpoint with an address, running actors if it ever had any, and a probe
that answered lately. -/
structure Serves (s : Shared) (e : GroupEntry) (ep : Endpoint) (p : ProbeResult) : Prop where
  openai : e.openai = some ep
  addressed : ep.candidates ≠ []
  running : (e.placed && e.running == 0) = false
  probed : s.probes.get e.group = some p
  ok : p.ok = true
  fresh : s.cfg.now - p.seen ≤ s.serve.probeFresh

theorem healthOf_ok_iff {s : Shared} {e : GroupEntry} :
    (∃ models, s.healthOf e = .ok models) ↔ ∃ ep p, Serves s e ep p := by
  constructor
  · rintro ⟨models, h⟩
    unfold healthOf at h
    split at h
    · cases h
    next ep he =>
    split at h
    · cases h
    next hc =>
    split at h
    · cases h
    next hr =>
    split at h
    · cases h
    next p hp =>
    split at h
    · cases h
    next hok =>
    split at h
    · cases h
    next hfresh => exact ⟨ep, p, he, hc, Bool.eq_false_iff.2 hr, hp, by simpa using hok, not_lt.1 hfresh⟩
  · rintro ⟨ep, p, h⟩
    refine ⟨p.models, ?_⟩
    simp [healthOf, h.openai, h.addressed, h.running, h.probed, h.ok, not_lt.2 h.fresh]

end Shared

end Mentat
