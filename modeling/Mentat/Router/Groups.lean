import Mathlib.Data.String.Basic
import Mathlib.Data.Prod.Lex
import Mathlib.Order.Synonym
import Mentat.Lib.Argmax
import Mentat.Router.View

/-!
# The routing table

`announced_groups` with `collect_node_addrs`, `endpoint_of` and `best_openai`: the groups the stored
views describe, each with its endpoints. The views are in a hash map, and are visited in the order it
gives them. A group described twice goes to the daemon with more running actors, then more agents, then
the smaller address. A node described twice has the longest of its address lists, and of two of one
length the one that is visited first.

* `groups_order_free`: where the longest lists of a node agree, the order does not show. For a group
  with one agent that announces `openai` it is also needed.
* `visited_first`: two views that list one node's addresses the other way round.
-/

namespace Mentat

structure RouteCfg where
  pollInterval : Nat
  now : Nat
  /-- `ALLOWED_SOURCES` lets it pass. -/
  permits : String → Bool
  onLocalNet : String → Bool

structure Endpoint where
  /-- The best first. -/
  candidates : List String
  announced : String
  note : Option String
deriving DecidableEq

def Endpoint.best (e : Endpoint) : Option String := e.candidates.head?

structure GroupEntry where
  group : String
  daemon : String
  agentsAlive : Nat
  running : Nat
  openai : Option Endpoint
  mcp : Option Endpoint
  provider : String
  placed : Bool
deriving DecidableEq

abbrev NodeAddrs := Table String (List String)

/-! ## The addresses of a node -/

def listed (v : Value) : List String := (v.asArray.getD []).filterMap Value.asStr

def longer (new prev : List String) : Bool := decide (prev.length < new.length)

def record (out : NodeAddrs) (ids addrs : List String) : NodeAddrs :=
  if addrs = [] then out
  else (ids.filter (· != "")).foldl (fun out id => out.keep longer id addrs) out

/-- The names of a node and its addresses: the daemon's own, then its peers'. -/
def nodeRows (snap : Value) : List (List String × List String) :=
  let own := listed (snap.idx "addrs")
  let ownIp := (snap.idx "node_ip").asStr.getD ""
  (ownIp :: own, if own = [] then [ownIp] else own) ::
    ((snap.idx "peers").asObject.getD []).map fun x =>
      let addrs := listed (x.2.idx "addrs")
      let ip := (x.2.idx "node_ip").asStr.getD ""
      (ip :: (x.2.idx "link_ip").asStr.getD "" :: addrs, if addrs = [] then [ip] else addrs)

def collectNodeAddrs (snap : Value) (out : NodeAddrs) : NodeAddrs :=
  (nodeRows snap).foldl (fun out x => record out x.1 x.2) out

def nodesOf (views : List (String × DaemonView)) : NodeAddrs :=
  views.foldl (fun out x => match x.2.status with
    | some snap => collectNodeAddrs snap out
    | none => out) ∅

/-! ## The endpoints of a group -/

def baseUrl (host : String) (port : Nat) (path : String) : String :=
  "http://" ++ (host ++ (":" ++ toString port ++ path))

/-- The addresses that may be used, each once, those on a wire of the router's own first. -/
def routed (cfg : RouteCfg) (hosts : List String) : List String :=
  let kept := (hosts.filter fun h => h != "" && cfg.permits h).eraseDups
  kept.filter (cfg.onLocalNet ·) ++ kept.filter (!cfg.onLocalNet ·)

def nodeIpOf (agent : Value) : String := (agent.idx "node_ip").asStr.getD ""

def serviceOf (agent : Value) (svc : String) : Value := (agent.idx "services").idx svc

/-- The host the operator set. -/
def hostNamed (agent : Value) (svc : String) : Option String :=
  ((serviceOf agent svc).idx "host").asStr.filter (· != "")

def hostsAt (cfg : RouteCfg) (nodes : NodeAddrs) (ip : String) : List String :=
  routed cfg ((nodes.get ip).getD [ip])

def endpointOf (cfg : RouteCfg) (nodes : NodeAddrs) (agent : Value) (svc : String) : Option Endpoint :=
  let entry := serviceOf agent svc
  let note := (entry.idx "note").asStr.filter (· != "")
  let path := (entry.idx "path").asStr.getD ""
  (entry.idx "port").asU64.map fun port => match hostNamed agent svc with
    | some host => ⟨[baseUrl host port path], baseUrl host port path, note⟩
    | none => ⟨(hostsAt cfg nodes (nodeIpOf agent)).map (baseUrl · port path),
        "port " ++ toString port ++ path ++ " on node " ++ nodeIpOf agent, note⟩

/-- `None` comes before an address. -/
def bestBefore (x y : Option String) : Bool :=
  match x, y with
  | none, some _ => true
  | some a, some b => decide (a < b)
  | _, none => false

/-- `min_by`: the first of the least. -/
def firstMin {α : Type} (lt : α → α → Bool) (l : List α) : Option α :=
  l.foldl (fun best x => match best with
    | some b => if lt x b then some x else some b
    | none => some x) none

def bestOpenai (announced : List (Endpoint × String)) : Option Endpoint × String :=
  match firstMin (fun x y => bestBefore x.1.best y.1.best) announced with
  | some (e, provider) => (some e, provider)
  | none => (none, "")

/-- The agent that also announces `openai` is preferred. -/
def bestMcp (announced : List (Bool × Endpoint)) : Option Endpoint :=
  (firstMin (fun x y => (!x.1 && y.1) || (x.1 == y.1 && bestBefore x.2.best y.2.best)) announced).map
    (·.2)

def aliveAgents (group : Value) : List Value :=
  (((group.idx "agents").asObject.getD []).map (·.2)).filter fun a =>
    (a.idx "alive").asBool == some true

def runningActors (group : Value) : Nat :=
  ((group.idx "actors").asObject.getD []).countP fun x => (x.2.idx "state").asStr == some "running"

def groupEntry (cfg : RouteCfg) (nodes : NodeAddrs) (addr name : String) (group : Value) :
    GroupEntry :=
  let agents := aliveAgents group
  let openai := bestOpenai (agents.filterMap fun a => (endpointOf cfg nodes a "openai").map fun e =>
    (e, ((serviceOf a "openai").idx "provider").asStr.getD ""))
  { group := name
    daemon := addr
    agentsAlive := agents.length
    running := runningActors group
    openai := openai.1
    mcp := bestMcp (agents.filterMap fun a => (endpointOf cfg nodes a "mcp").map fun m =>
      (serviceOf a "openai" == .null, m))
    provider := openai.2
    placed := ((group.idx "actors").asObject.getD []) != [] }

def replaces (entry prev : GroupEntry) : Bool :=
  decide (prev.running < entry.running) ||
    (entry.running == prev.running && decide (prev.agentsAlive < entry.agentsAlive)) ||
    (entry.running == prev.running && entry.agentsAlive == prev.agentsAlive &&
      decide (entry.daemon < prev.daemon))

/-- The snapshot of a view that is fresh. -/
def freshStatus (cfg : RouteCfg) (v : DaemonView) : Option Value :=
  v.status.filter fun _ => v.seen.any fun s => decide (cfg.now - s ≤ cfg.pollInterval * 3)

def groupsOf (snap : Value) : List (String × Value) := (snap.idx "groups").asObject.getD []

def announcedGroups (cfg : RouteCfg) (views : List (String × DaemonView)) : Table String GroupEntry :=
  views.foldl (fun out x => match freshStatus cfg x.2 with
    | some snap => (groupsOf snap).foldl (fun out g =>
        out.keep replaces g.1 (groupEntry cfg (nodesOf views) x.1 g.1 g.2)) out
    | none => out) ∅

/-! ## Both tables are of the best -/

variable {cfg : RouteCfg} {views views' : List (String × DaemonView)} {k : String}

/-- What one view says of nodes. -/
def nodeEntries (x : String × DaemonView) : List (String × List String) :=
  (x.2.status.toList.flatMap nodeRows).flatMap fun r =>
    if r.2 = [] then [] else (r.1.filter (· != "")).map (·, r.2)

/-- The first of the longest lists one view has for a node. -/
def described (k : String) (x : String × DaemonView) : Option (List String) :=
  (((nodeEntries x).filter (·.1 = k)).map (·.2)).argmax List.length

theorem record_eq (out : NodeAddrs) (ids addrs : List String) :
    record out ids addrs = (if addrs = [] then [] else (ids.filter (· != "")).map (·, addrs)).foldl
      (fun out x => out.keep longer x.1 x.2) out := by
  rw [record]
  split
  · rfl
  · rw [List.foldl_map]

theorem nodesOf_eq (views : List (String × DaemonView)) :
    nodesOf views = (views.flatMap nodeEntries).foldl (fun out x => out.keep longer x.1 x.2) ∅ := by
  rw [nodesOf, List.foldl_flatMap]
  congr 1
  funext out x
  rw [nodeEntries]
  cases x.2.status with
  | none => rfl
  | some snap =>
    rw [Option.toList_some, List.flatMap_singleton, List.foldl_flatMap]
    simp only [collectNodeAddrs, record_eq]

theorem longer_iff (new prev : List String) : longer new prev = true ↔ prev.length < new.length :=
  decide_eq_true_iff

/-- A node has the first of the longest of the views' lists. -/
theorem nodesOf_get (views : List (String × DaemonView)) (k : String) :
    (nodesOf views).get k = (views.filterMap (described k)).argmax List.length := by
  rw [nodesOf_eq, Table.get_foldl_keep longer_iff, List.filter_flatMap, List.map_flatMap, argmax_flatMap]
  rfl

/-- The rows of a group in a view that is fresh. -/
def standings (cfg : RouteCfg) (g : String) (x : String × DaemonView) : List (String × Value) :=
  (((freshStatus cfg x.2).toList.flatMap groupsOf).filter (·.1 = g)).map fun r => (x.1, r.2)

/-- More running actors, then more agents, then the smaller address. -/
def standing (w : String × Value) : ℕ ×ₗ ℕ ×ₗ Stringᵒᵈ :=
  toLex (runningActors w.2, toLex ((aliveAgents w.2).length, OrderDual.toDual w.1))

def GroupEntry.standing (e : GroupEntry) : ℕ ×ₗ ℕ ×ₗ Stringᵒᵈ :=
  toLex (e.running, toLex (e.agentsAlive, OrderDual.toDual e.daemon))

/-- The daemon a group goes to, with its row of the group. -/
def winner (cfg : RouteCfg) (views : List (String × DaemonView)) (g : String) :
    Option (String × Value) :=
  (views.flatMap (standings cfg g)).argmax standing

theorem replaces_iff (entry prev : GroupEntry) :
    replaces entry prev = true ↔ prev.standing < entry.standing := by
  simp only [replaces, GroupEntry.standing, Prod.Lex.toLex_lt_toLex, OrderDual.toDual_lt_toDual, Bool.or_eq_true,
    Bool.and_eq_true, decide_eq_true_eq, beq_iff_eq]
  constructor
  · rintro ((h | ⟨h, h'⟩) | ⟨⟨h, h'⟩, h''⟩)
    · exact .inl h
    · exact .inr ⟨h.symm, .inl h'⟩
    · exact .inr ⟨h.symm, .inr ⟨h'.symm, h''⟩⟩
  · rintro (h | ⟨h, h' | ⟨h', h''⟩⟩)
    · exact .inl (.inl h)
    · exact .inl (.inr ⟨h.symm, h'⟩)
    · exact .inr ⟨⟨h.symm, h'.symm⟩, h''⟩

/-- A group goes to the winner, whatever the addresses of the nodes. -/
theorem announcedGroups_get (views : List (String × DaemonView)) (g : String) :
    (announcedGroups cfg views).get g =
      (winner cfg views g).map fun w => groupEntry cfg (nodesOf views) w.1 g w.2 := by
  have hfold : announcedGroups cfg views = (views.flatMap fun x =>
      ((freshStatus cfg x.2).toList.flatMap groupsOf).map fun r =>
        (r.1, groupEntry cfg (nodesOf views) x.1 r.1 r.2)).foldl
      (fun out x => out.keep replaces x.1 x.2) ∅ := by
    rw [announcedGroups, List.foldl_flatMap]
    congr 1
    funext out x
    cases freshStatus cfg x.2 with
    | none => rfl
    | some snap => simp only [Option.toList_some, List.flatMap_singleton, List.foldl_map]
  have hentry : ∀ w : String × Value,
      (groupEntry cfg (nodesOf views) w.1 g w.2).standing = standing w := fun w => rfl
  rw [hfold, Table.get_foldl_keep replaces_iff, List.filter_flatMap, List.map_flatMap, winner,
    ← argmax_map hentry, List.map_flatMap]
  congr 1
  congr 1
  funext x
  simp only [standings, List.filter_map, List.map_map, Function.comp_def]
  refine List.map_congr_left fun r hr => ?_
  have hname : r.1 = g := by simpa using List.of_mem_filter hr
  rw [hname]

/-! ## Any order -/

/-- The views' longest lists for a node come to the same addresses. -/
def Undisputed (cfg : RouteCfg) (views : List (String × DaemonView)) (k : String) : Prop :=
  ∀ l ∈ views.filterMap (described k), ∀ m ∈ views.filterMap (described k), l.length = m.length →
    (∀ n ∈ views.filterMap (described k), n.length ≤ l.length) → routed cfg l = routed cfg m

instance : Decidable (Undisputed cfg views k) := by
  unfold Undisputed
  infer_instance

/-- It announces a port, and the addresses of its node are put to it. -/
def Derives (agent : Value) (svc : String) : Prop :=
  ((serviceOf agent svc).idx "port").asU64.isSome = true ∧ hostNamed agent svc = none

instance {agent : Value} {svc : String} : Decidable (Derives agent svc) := by
  unfold Derives
  infer_instance

/-- No tie is among the lists an endpoint is made from. -/
def Agreed (cfg : RouteCfg) (views : List (String × DaemonView)) : Prop :=
  ∀ x ∈ views, ∀ r ∈ (freshStatus cfg x.2).toList.flatMap groupsOf,
    winner cfg views r.1 = some (x.1, r.2) → ∀ a ∈ aliveAgents r.2, ∀ svc ∈ ["openai", "mcp"],
      Derives a svc → Undisputed cfg views (nodeIpOf a)

instance : Decidable (Agreed cfg views) := by
  unfold Agreed
  infer_instance

/-- A list that is longest is the one a node has when its view comes first. -/
theorem hostsAt_front {l : List String} (hl : l ∈ views.filterMap (described k))
    (hmax : ∀ n ∈ views.filterMap (described k), n.length ≤ l.length) :
    ∃ views', views.Perm views' ∧ hostsAt cfg (nodesOf views') k = routed cfg l := by
  obtain ⟨x, hx, hxl⟩ := List.mem_filterMap.mp hl
  obtain ⟨s, t, rfl⟩ := List.append_of_mem hx
  have hperm : (s ++ x :: t).Perm (x :: (s ++ t)) := List.perm_middle
  refine ⟨x :: (s ++ t), hperm, ?_⟩
  rw [hostsAt, nodesOf_get, List.filterMap_cons_some hxl, argmax_cons_of_le, Option.getD_some]
  intro n hn
  refine hmax n ((hperm.filterMap (described k)).symm.mem_iff.mp ?_)
  rw [List.filterMap_cons_some hxl]
  exact List.mem_cons_of_mem l hn

theorem undisputed_iff : Undisputed cfg views k ↔
    ∀ views', views.Perm views' → hostsAt cfg (nodesOf views') k = hostsAt cfg (nodesOf views) k := by
  constructor
  · intro h views' hp
    have hsame := argmax_perm (f := List.length) (routed cfg) (hp.filterMap (described k)) h
    rw [← nodesOf_get, ← nodesOf_get] at hsame
    rw [hostsAt, hostsAt, ← Option.getD_map (routed cfg), ← Option.getD_map (routed cfg), hsame]
  · intro h l hl m hm hlen hmax
    obtain ⟨vl, hvl, hl'⟩ := @hostsAt_front cfg _ _ _ hl hmax
    obtain ⟨vm, hvm, hm'⟩ := @hostsAt_front cfg _ _ _ hm fun n hn => hlen ▸ hmax n hn
    rw [← hl', ← hm', h vl hvl, h vm hvm]

theorem standings_fst {g : String} {x : String × DaemonView} {w : String × Value}
    (h : w ∈ standings cfg g x) : w.1 = x.1 := by
  obtain ⟨r, -, rfl⟩ := List.mem_map.mp h
  rfl

theorem winner_mem {g : String} {w : String × Value} (h : winner cfg views g = some w) :
    ∃ x ∈ views, ∃ r ∈ (freshStatus cfg x.2).toList.flatMap groupsOf, r.1 = g ∧ w = (x.1, r.2) := by
  obtain ⟨x, hx, hw⟩ := List.mem_flatMap.mp (List.argmax_mem h)
  obtain ⟨r, hr, rfl⟩ := List.mem_map.mp hw
  rw [List.mem_filter, decide_eq_true_eq] at hr
  exact ⟨x, hx, r, hr.1, hr.2, rfl⟩

/-- The daemon a group goes to does not depend on the order. -/
theorem winner_perm (hn : (views.map (·.1)).Nodup) (hp : views.Perm views') (g : String) :
    winner cfg views g = winner cfg views' g := by
  rw [winner, winner, argmax_flatMap, argmax_flatMap]
  have hsame := argmax_perm (f := standing) id
    (hp.filterMap fun x => (standings cfg g x).argmax standing) fun p hp q hq htie _ => by
      obtain ⟨x, hx, hp⟩ := List.mem_filterMap.mp hp
      obtain ⟨y, hy, hq⟩ := List.mem_filterMap.mp hq
      have hdaemon : p.1 = q.1 := by
        simp only [standing, EmbeddingLike.apply_eq_iff_eq, Prod.mk.injEq] at htie
        exact htie.2.2
      rw [standings_fst (List.argmax_mem hp), standings_fst (List.argmax_mem hq)] at hdaemon
      rw [List.inj_on_of_nodup_map hn hx hy hdaemon, hq] at hp
      exact (Option.some.inj hp).symm
  simpa using hsame

theorem endpointOf_congr {nodes nodes' : NodeAddrs} {agent : Value} {svc : String}
    (h : Derives agent svc → hostsAt cfg nodes (nodeIpOf agent) = hostsAt cfg nodes' (nodeIpOf agent)) :
    endpointOf cfg nodes agent svc = endpointOf cfg nodes' agent svc := by
  simp only [endpointOf]
  cases hport : ((serviceOf agent svc).idx "port").asU64 with
  | none => rfl
  | some port =>
    cases hhost : hostNamed agent svc with
    | some host => rfl
    | none => simp only [Option.map_some, h ⟨by rw [hport, Option.isSome_some], hhost⟩]

theorem groupEntry_congr {nodes nodes' : NodeAddrs} {group : Value}
    (h : ∀ a ∈ aliveAgents group, ∀ svc ∈ ["openai", "mcp"],
      endpointOf cfg nodes a svc = endpointOf cfg nodes' a svc) (addr name : String) :
    groupEntry cfg nodes addr name group = groupEntry cfg nodes' addr name group := by
  have hopenai : (aliveAgents group).filterMap (fun a => (endpointOf cfg nodes a "openai").map fun e =>
        (e, ((serviceOf a "openai").idx "provider").asStr.getD "")) =
      (aliveAgents group).filterMap fun a => (endpointOf cfg nodes' a "openai").map fun e =>
        (e, ((serviceOf a "openai").idx "provider").asStr.getD "") :=
    List.filterMap_congr fun a ha => by rw [h a ha "openai" (by simp)]
  have hmcp : (aliveAgents group).filterMap (fun a => (endpointOf cfg nodes a "mcp").map fun m =>
        (serviceOf a "openai" == .null, m)) =
      (aliveAgents group).filterMap fun a => (endpointOf cfg nodes' a "mcp").map fun m =>
        (serviceOf a "openai" == .null, m) :=
    List.filterMap_congr fun a ha => by rw [h a ha "mcp" (by simp)]
  simp only [groupEntry, hopenai, hmcp]

/-- With one agent that announces it, a group's `openai` is that agent's. -/
theorem groupEntry_openai {nodes : NodeAddrs} {group a : Value} {addr name : String}
    (ha : (aliveAgents group).filter (fun b => ((serviceOf b "openai").idx "port").asU64.isSome) = [a]) :
    (groupEntry cfg nodes addr name group).openai = endpointOf cfg nodes a "openai" := by
  have hsome : ((serviceOf a "openai").idx "port").asU64.isSome = true := by
    have hmem : a ∈ (aliveAgents group).filter fun b =>
        ((serviceOf b "openai").idx "port").asU64.isSome := by rw [ha]; exact List.mem_singleton_self a
    exact (List.mem_filter.mp hmem).2
  have honly : (aliveAgents group).filterMap (fun a => (endpointOf cfg nodes a "openai").map fun e =>
        (e, ((serviceOf a "openai").idx "provider").asStr.getD "")) =
      [a].filterMap fun a => (endpointOf cfg nodes a "openai").map fun e =>
        (e, ((serviceOf a "openai").idx "provider").asStr.getD "") := by
    rw [← ha, List.filterMap_filter]
    refine List.filterMap_congr fun b _ => ?_
    split
    · rfl
    · next hno => simp [endpointOf, Option.not_isSome_iff_eq_none.mp hno]
  obtain ⟨port, hport⟩ := Option.isSome_iff_exists.mp hsome
  simp only [groupEntry, honly]
  simp [endpointOf, hport, bestOpenai, firstMin]

theorem baseUrl_injective (port : Nat) (path : String) :
    Function.Injective (baseUrl · port path) := by
  intro a b h
  exact (String.append_left_inj _).mp ((String.append_right_inj _).mp h)

/-- Of views under distinct addresses: where no endpoint is made from tied lists, every order of the
views gives the same groups with the same daemons and endpoints. And when every order does, a group
whose one agent that announces `openai` gives a port has no tie among its node's lists. -/
theorem groups_order_free (hn : (views.map (·.1)).Nodup) :
    (Agreed cfg views → ∀ views', views.Perm views' → ∀ g,
      (announcedGroups cfg views').get g = (announcedGroups cfg views).get g) ∧
    ((∀ views', views.Perm views' → ∀ g,
        (announcedGroups cfg views').get g = (announcedGroups cfg views).get g) →
      ∀ g w a, winner cfg views g = some w → hostNamed a "openai" = none →
        (aliveAgents w.2).filter (fun b => ((serviceOf b "openai").idx "port").asU64.isSome) = [a] →
        Undisputed cfg views (nodeIpOf a)) := by
  constructor
  · intro hagreed views' hp g
    rw [announcedGroups_get, announcedGroups_get, ← winner_perm hn hp g]
    cases hw : winner cfg views g with
    | none => rfl
    | some w =>
      obtain ⟨x, hx, r, hr, rfl, rfl⟩ := winner_mem hw
      refine congrArg some (groupEntry_congr (fun a ha svc hsvc => endpointOf_congr fun hder => ?_) _ _)
      exact undisputed_iff.mp (hagreed x hx r hr hw a ha svc hsvc hder) views' hp
  · intro hsame g w a hw hhost ha
    refine undisputed_iff.mpr fun views' hp => ?_
    have hentry := hsame views' hp g
    rw [announcedGroups_get, announcedGroups_get, ← winner_perm hn hp g, hw, Option.map_some,
      Option.map_some, Option.some.injEq] at hentry
    have hopenai := congrArg GroupEntry.openai hentry
    rw [groupEntry_openai ha, groupEntry_openai ha] at hopenai
    have hport : ((serviceOf a "openai").idx "port").asU64.isSome = true := by
      have hmem : a ∈ (aliveAgents w.2).filter fun b =>
          ((serviceOf b "openai").idx "port").asU64.isSome := by rw [ha]; exact List.mem_singleton_self a
      exact (List.mem_filter.mp hmem).2
    obtain ⟨port, hport⟩ := Option.isSome_iff_exists.mp hport
    simp only [endpointOf, hport, hhost, Option.map_some, Option.some.injEq, Endpoint.mk.injEq,
      and_true] at hopenai
    exact List.map_injective_iff.mpr (baseUrl_injective port _) hopenai

namespace Sample

def reachAll : RouteCfg := ⟨10, 0, fun _ => true, fun _ => false⟩

/-- The view of a daemon that lists its own addresses, a peer and what its groups are. -/
def viewOf (nodeIp : String) (addrs : List String) (peers groups : List (String × Value)) : DaemonView :=
  { status := some (.obj [("node_ip", .str nodeIp), ("addrs", .arr (addrs.map .str)),
      ("peers", .obj peers), ("groups", .obj groups)])
    seen := some 0
    error := none
    nodeId := none
    seed := false }

def peerAt (nodeIp : String) (addrs : List String) : Value :=
  .obj [("node_ip", .str nodeIp), ("addrs", .arr (addrs.map .str))]

/-- One agent, at 10.0.0.1, that announces `openai` on port 8000. -/
def oneAgent : Value := .obj [("agents", .obj [("a", .obj [("alive", .bool true),
  ("node_ip", .str "10.0.0.1"),
  ("services", .obj [("openai", .obj [("port", .num (.uint 8000))])])])])]

/-- A daemon with the group, and one that has it as a peer and lists its addresses as given. -/
def twoDaemons (addrs : List String) : List (String × DaemonView) := [
  ("10.0.0.1:7800", viewOf "10.0.0.1" ["10.0.0.1", "10.0.1.1"] [] [("g", oneAgent)]),
  ("10.0.0.2:7800", viewOf "10.0.0.2" ["10.0.0.2"] [("n", peerAt "10.0.0.1" addrs)] [])]

end Sample

/-- The peer knows one of the two addresses. -/
theorem groups_order_free_neighbours :
    (announcedGroups Sample.reachAll (Sample.twoDaemons ["10.0.0.1"]).reverse).get "g" =
      (announcedGroups Sample.reachAll (Sample.twoDaemons ["10.0.0.1"])).get "g" :=
  (groups_order_free (by decide +kernel)).1 (by decide +kernel) _ (List.reverse_perm _).symm "g"

/-- The peer lists them the other way round. -/
theorem visited_first :
    (announcedGroups Sample.reachAll (Sample.twoDaemons ["10.0.1.1", "10.0.0.1"]).reverse).get "g" ≠
      (announcedGroups Sample.reachAll (Sample.twoDaemons ["10.0.1.1", "10.0.0.1"])).get "g" := by
  decide +kernel

end Mentat
