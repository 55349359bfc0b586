import Mentat.Publishes

/-!
# What a section owes the other tables

The clients of a snapshot and the claims, actors and placement groups of each of its groups are kept
in tables of their own, and each event patches the rows it changes. A row has a slot, the same for the
tables and for the snapshot.

A snapshot lists a group while an agent or an actor is in it. A claim or a placement group of a group
that is not listed shows in no snapshot, yet its events do, so nothing can be said of such a state.
`Rooted` excludes it.

`Reports st st'` is what a piece of a section owes: the events it adds lead from the rows and groups of
`st` to those of `st'`. Here are the rules for it, and the functions that every section shares: placing
groups, and deaths.
-/

namespace Mentat

/-! ## Rows and groups -/

/-- Where the snapshot has a row of a client, or of a group's actors, placement groups or claims. -/
inductive Slot where
  | client (id : ClientId)
  | actor (group : String) (id : ActorId)
  | pg (group : String) (id : PgId)
  | claim (group name : String)
deriving DecidableEq

namespace Slot

def path : Slot → List String
  | client id => ["clients", id]
  | actor g id => actorPath g id
  | pg g id => pgPath g id
  | claim g name => claimPath g name

def group : Slot → Option String
  | client _ => none
  | actor g _ => some g
  | pg g _ => some g
  | claim g _ => some g

theorem path_prefix {s s' : Slot} : s.path <+: s'.path ↔ s = s' := by
  cases s <;> cases s' <;>
    simp [path, actorPath, pgPath, claimPath, List.cons_prefix_cons]

theorem not_prefix_group (s : Slot) (g : String) : ¬ s.path <+: ["groups", g] := by
  cases s <;> simp [path, actorPath, pgPath, claimPath, List.cons_prefix_cons]

theorem group_prefix {s : Slot} {g : String} : ["groups", g] <+: s.path ↔ s.group = some g := by
  cases s <;> simp [path, group, actorPath, pgPath, claimPath, List.cons_prefix_cons, eq_comm]

theorem agentPath_not_prefix (g : String) (id : AgentId) (s : Slot) : ¬ agentPath g id <+: s.path := by
  cases s <;> simp [path, agentPath, actorPath, pgPath, claimPath, List.cons_prefix_cons]

theorem inPlace (s : Slot) (v : Option (Doc Row)) : Doc.InPlace layout s.path v := by
  cases s with
  | client id => exact inPlace_row (by simp)
  | actor g id => exact inPlace_table (by simp)
  | pg g id => exact inPlace_table (by simp)
  | claim g name => exact inPlace_table (by simp)

theorem not_layout (s : Slot) : layout s.path = false := by
  cases s <;> rfl

end Slot

namespace State

variable (st : State)

/-- The row the tables have in a slot. -/
def slot : Slot → Option (Doc Row)
  | .client id => (st.clients.get id).map fun c => .row (.client c)
  | .actor g id => ((st.actors.get id).filter (·.group == g)).map fun a => .row (.actor (actorRow a))
  | .pg g id => ((st.pgs.get id).filter (·.group == g)).map fun p => .row (.pg (pgRow p))
  | .claim g name => (st.claims.get (g, name)).map fun c => .row (.claim (claimRow c))

/-- An agent or an actor is in the group. -/
def lists (g : String) : Bool :=
  st.agents.values.any (·.group == g) || st.actors.values.any (·.group == g)

/-- Every row of a group is in one that a snapshot lists. -/
def Rooted : Prop := ∀ s g, s.group = some g → (st.slot s).isSome = true → st.lists g = true

variable {st}

theorem lists_iff {g : String} : st.lists g = true ↔
    (∃ id a, st.agents.get id = some a ∧ a.group = g) ∨ ∃ id a, st.actors.get id = some a ∧ a.group = g := by
  simp only [lists, Bool.or_eq_true, List.any_eq_true, Table.mem_values, beq_iff_eq]
  constructor
  · rintro (⟨a, ⟨id, h⟩, hg⟩ | ⟨a, ⟨id, h⟩, hg⟩)
    · exact .inl ⟨id, a, h, hg⟩
    · exact .inr ⟨id, a, h, hg⟩
  · rintro (⟨id, a, h, hg⟩ | ⟨id, a, h, hg⟩)
    · exact .inl ⟨a, ⟨id, h⟩, hg⟩
    · exact .inr ⟨a, ⟨id, h⟩, hg⟩

/-- The groups that are listed are those the rows of the agents and actors name. -/
theorem lists_congr {st' : State}
    (hag : ∀ id, (st'.agents.get id).map (·.group) = (st.agents.get id).map (·.group))
    (hac : ∀ id, (st'.actors.get id).map (·.group) = (st.actors.get id).map (·.group)) :
    st'.lists = st.lists := by
  have hrows : ∀ (s : State) (g : String), s.lists g = true ↔
      (∃ id, (s.agents.get id).map (·.group) = some g) ∨ ∃ id, (s.actors.get id).map (·.group) = some g := by
    intro s g
    simp only [lists_iff, Option.map_eq_some_iff]
  funext g
  rw [Bool.eq_iff_iff, hrows, hrows]
  simp only [hag, hac]

end State

/-! ## What a patch makes of them -/

def Patch.onSlot (s : Slot) (v : Option (Doc Row)) (p : Patch) : Option (Doc Row) :=
  if p.path <+: s.path then p.value else v

def Patch.onGroup (g : String) (b : Bool) (p : Patch) : Bool :=
  if p.path <+: ["groups", g] then false else if ["groups", g] <+: p.path then true else b

section Apply

variable {d d' : Doc Row}

theorem patch_slot {p : Patch} (hp : p.InPlace) (h : d.patch p.path p.value = some d') (s : Slot) :
    d'.at_ s.path = p.onSlot s (d.at_ s.path) := by
  unfold Patch.onSlot
  split
  · next hpre =>
    cases hv : p.value with
    | none => exact Doc.patch_below (hv ▸ h) hpre
    | some u =>
      -- A row stored above the slot would stand in the place of an object.
      have heq : p.path = s.path := by
        by_contra hne
        have hlay := (s.inPlace none).2.1 p.path hpre hne
        rw [hp.2.2 (by simp [hv]) p.path List.prefix_rfl] at hlay
        cases hlay
      rw [← heq, Doc.patch_self h, hv]
  · next hpre =>
    refine Doc.patch_apart h hpre fun hpre' => ?_
    have hne : s.path ≠ p.path := fun he => hpre (he ▸ List.prefix_rfl)
    have hlay := hp.2.1 _ hpre' hne
    rw [s.not_layout] at hlay
    cases hlay

theorem patch_group {p : Patch} (hp : p.InPlace) (h : d.patch p.path p.value = some d') (g : String) :
    (d'.at_ ["groups", g]).isSome = p.onGroup g (d.at_ ["groups", g]).isSome := by
  unfold Patch.onGroup
  split
  · next hpre =>
    have hv : p.value = none := by
      by_contra hv
      have hlay := hp.2.2 hv ["groups", g] hpre
      cases hlay
    rw [Doc.patch_below (hv ▸ h) hpre]
    rfl
  · next hpre =>
    split
    · next hbelow =>
      obtain ⟨fields, hobj⟩ := Doc.patch_above h hbelow fun he => hpre (he ▸ List.prefix_rfl)
      rw [hobj]
      rfl
    · next hbelow => rw [Doc.patch_apart h hpre hbelow]

theorem applyEvents_eq (d : Doc Row) (events : List Event) :
    applyEvents d events =
      (events.flatMap (·.patch)).foldlM (fun d p => d.patch p.path p.value) d := by
  unfold applyEvents
  induction events generalizing d with
  | nil => rfl
  | cons e events ih =>
    rw [List.foldlM_cons, List.flatMap_cons, List.foldlM_append]
    exact bind_congr fun d => ih d

/-- Events that keep to the layout apply, and each row and each group is as their patches leave it. -/
theorem applyEvents_slots {events : List Event} (hd : d.Shaped layout)
    (he : ∀ p ∈ events.flatMap (·.patch), p.InPlace) :
    ∃ d', applyEvents d events = some d' ∧
      (∀ s, d'.at_ s.path = (events.flatMap (·.patch)).foldl (Patch.onSlot s) (d.at_ s.path)) ∧
      ∀ g, (d'.at_ ["groups", g]).isSome =
        (events.flatMap (·.patch)).foldl (Patch.onGroup g) (d.at_ ["groups", g]).isSome := by
  rw [applyEvents_eq]
  generalize events.flatMap (·.patch) = ps at he
  induction ps generalizing d with
  | nil => exact ⟨d, rfl, fun _ => rfl, fun _ => rfl⟩
  | cons p ps ih =>
    have hp := he p List.mem_cons_self
    obtain ⟨d1, h1, hd1⟩ := hd.patch hp
    obtain ⟨d', h', hslots, hgroups⟩ := ih hd1 fun q hq => he q (List.mem_cons_of_mem p hq)
    refine ⟨d', by rw [List.foldlM_cons, h1]; exact h', fun s => ?_, fun g => ?_⟩
    · rw [hslots, List.foldl_cons, patch_slot hp h1]
    · rw [hgroups, List.foldl_cons, patch_group hp h1]

end Apply

/-! ## The snapshot -/

section Snapshot

variable {st : State}

theorem mem_snapshotGroups_iff {g : String} : g ∈ snapshotGroups st none ↔ st.lists g = true := by
  simp only [snapshotGroups, mem_sortDedup, List.mem_append, List.mem_map, Table.mem_values,
    State.lists_iff]
  constructor
  · rintro (⟨a, ⟨id, h⟩, hg⟩ | ⟨a, ⟨id, h⟩, hg⟩)
    · exact .inl ⟨id, a, h, hg⟩
    · exact .inr ⟨id, a, h, hg⟩
  · rintro (⟨id, a, h, hg⟩ | ⟨id, a, h, hg⟩)
    · exact .inl ⟨a, ⟨id, h⟩, hg⟩
    · exact .inr ⟨a, ⟨id, h⟩, hg⟩

theorem snapshot_group (g : String) : (snapshot st none).at_ ["groups", g] =
    if st.lists g then some (groupDoc st g) else none := by
  have hgroups : (snapshot st none).at_ ["groups", g] =
      (((snapshotGroups st none).map fun g => (g, groupDoc st g)).lookup g).bind (Doc.at_ []) := rfl
  rw [hgroups]
  split
  · next hl =>
    rw [Doc.lookup_of_mem (List.mem_map.mpr ⟨g, mem_snapshotGroups_iff.mpr hl, rfl⟩) fun d hd => ?_]
    · rfl
    · obtain ⟨g', -, he⟩ := List.mem_map.mp hd
      simp only [Prod.mk.injEq] at he
      rw [← he.2, he.1]
  · next hl =>
    rw [Doc.lookup_of_not_mem fun d hd => ?_]
    · rfl
    · obtain ⟨g', hg', he⟩ := List.mem_map.mp hd
      simp only [Prod.mk.injEq] at he
      exact hl (mem_snapshotGroups_iff.mp (he.1 ▸ hg'))

theorem claimsDoc_field (st : State) (g name : String) :
    (Doc.obj ((st.claims.rows.filter fun r => r.1.1 == g).map fun r =>
      (r.1.2, (.row (.claim (claimRow r.2)) : Doc Row)))).field name = st.slot (.claim g name) := by
  have hmem : ∀ d, (name, d) ∈ ((st.claims.rows.filter fun r => r.1.1 == g).map fun r =>
      (r.1.2, (.row (.claim (claimRow r.2)) : Doc Row))) ↔
      ∃ c, st.claims.get (g, name) = some c ∧ d = .row (.claim (claimRow c)) := by
    intro d
    simp only [List.mem_map, List.mem_filter, beq_iff_eq, Prod.mk.injEq]
    constructor
    · rintro ⟨⟨⟨g', name'⟩, c⟩, ⟨hr, rfl⟩, rfl, rfl⟩
      exact ⟨c, Table.mem_rows.mp hr, rfl⟩
    · rintro ⟨c, hc, rfl⟩
      exact ⟨((g, name), c), ⟨Table.mem_rows.mpr hc, rfl⟩, rfl, rfl⟩
  simp only [Doc.field, State.slot]
  cases hc : st.claims.get (g, name) with
  | none => exact Doc.lookup_of_not_mem fun d hd => by simp [hmem, hc] at hd
  | some c =>
    refine Doc.lookup_of_mem ((hmem _).mpr ⟨c, hc, rfl⟩) fun d hd => ?_
    obtain ⟨c', hc', rfl⟩ := (hmem d).mp hd
    rw [hc] at hc'
    rw [Option.some.inj hc']

theorem bind_at_nil (o : Option (Doc Row)) : o.bind (Doc.at_ []) = o := by
  cases o <;> rfl

/-- In a group that is listed, the snapshot has the rows of the tables. -/
theorem groupDoc_slot (st : State) (g : String) {s : Slot} (hs : s.group = some g) :
    (groupDoc st g).at_ (s.path.drop 2) = st.slot s := by
  cases s with
  | client id => cases hs
  | actor g' id =>
    cases hs
    have hdoc : (groupDoc st g).at_ ["actors", id] =
        ((tableDoc st.actors (·.group == g) fun _ a => .actor (actorRow a)).field id).bind (Doc.at_ []) := rfl
    exact hdoc.trans (by rw [bind_at_nil, tableDoc_field]; rfl)
  | pg g' id =>
    cases hs
    have hdoc : (groupDoc st g).at_ ["placement_groups", id] =
        ((tableDoc st.pgs (·.group == g) fun _ p => .pg (pgRow p)).field id).bind (Doc.at_ []) := rfl
    exact hdoc.trans (by rw [bind_at_nil, tableDoc_field]; rfl)
  | claim g' name =>
    cases hs
    rw [← claimsDoc_field]
    exact bind_at_nil _

/-- A snapshot has the rows of the tables. -/
theorem snapshot_slot (hr : st.Rooted) (s : Slot) : (snapshot st none).at_ s.path = st.slot s := by
  cases hg : s.group with
  | none =>
    cases s with
    | client id =>
      have hdoc : (snapshot st none).at_ ["clients", id] =
          ((tableDoc st.clients (fun _ => true) fun _ c => .client c).field id).bind (Doc.at_ []) := rfl
      refine hdoc.trans ?_
      rw [tableDoc_field]
      simp only [State.slot]
      cases st.clients.get id <;> rfl
    | _ => cases hg
  | some g =>
    have hpath : s.path = ["groups", g] ++ s.path.drop 2 := by
      cases s <;> cases hg <;> rfl
    rw [hpath, Doc.at_append, snapshot_group]
    split
    · exact groupDoc_slot st g hg
    · next hl =>
      cases hrow : st.slot s with
      | none => rfl
      | some d => exact absurd (hr s g hg (by rw [hrow]; rfl)) hl

theorem snapshot_lists (g : String) : ((snapshot st none).at_ ["groups", g]).isSome = st.lists g := by
  rw [snapshot_group]
  cases st.lists g <;> rfl

end Snapshot

/-! ## Patches that lead from one state to another -/

/-- The patches lead from the rows and groups of `st` to those of `st'`. -/
structure Tells (ps : List Patch) (st st' : State) : Prop where
  inPlace : ∀ p ∈ ps, p.InPlace
  rows : ∀ s, ps.foldl (Patch.onSlot s) (st.slot s) = st'.slot s
  groups : ∀ g, ps.foldl (Patch.onGroup g) (st.lists g) = st'.lists g

/-- The patch says what the state has. -/
structure Patch.True (st : State) (p : Patch) : Prop where
  inPlace : p.InPlace
  rows : ∀ s, p.path <+: s.path → p.value = st.slot s
  groups : ∀ g, ["groups", g] <+: p.path → st.lists g = true
  within : ∀ g, ¬ p.path <+: ["groups", g]

theorem Tells.append {ps qs : List Patch} {st st' st'' : State} (h : Tells ps st st')
    (h' : Tells qs st' st'') : Tells (ps ++ qs) st st'' where
  inPlace p hp := (List.mem_append.mp hp).elim (h.inPlace p) (h'.inPlace p)
  rows s := by rw [List.foldl_append, h.rows, h'.rows]
  groups g := by rw [List.foldl_append, h.groups, h'.groups]

/-- Patches that say what the new state has, and are about everything that differs. -/
theorem Tells.of_true {ps : List Patch} {st st' : State} (htrue : ∀ p ∈ ps, p.True st')
    (hslots : ∀ s, (∀ p ∈ ps, ¬ p.path <+: s.path) → st'.slot s = st.slot s)
    (hlists : ∀ g, (∀ p ∈ ps, ¬ ["groups", g] <+: p.path) → st'.lists g = st.lists g) :
    Tells ps st st' where
  inPlace p hp := (htrue p hp).inPlace
  rows s := by
    have hfold : ∀ (qs : List Patch) (v : Option (Doc Row)), (∀ p ∈ qs, p.True st') →
        ((∀ p ∈ qs, ¬ p.path <+: s.path) → v = st'.slot s) →
        qs.foldl (Patch.onSlot s) v = st'.slot s := by
      intro qs
      induction qs with
      | nil => exact fun v _ hv => hv (by simp)
      | cons p qs ih =>
        intro v ht hv
        refine ih _ (fun q hq => ht q (List.mem_cons_of_mem p hq)) fun hno => ?_
        unfold Patch.onSlot
        split
        · next hpre => exact (ht p List.mem_cons_self).rows s hpre
        · next hpre =>
          refine hv fun q hq => ?_
          rcases List.mem_cons.mp hq with rfl | hq
          · exact hpre
          · exact hno q hq
    exact hfold ps _ htrue fun hno => (hslots s hno).symm
  groups g := by
    have hfold : ∀ (qs : List Patch) (b : Bool), (∀ p ∈ qs, p.True st') →
        ((∀ p ∈ qs, ¬ ["groups", g] <+: p.path) → b = st'.lists g) →
        qs.foldl (Patch.onGroup g) b = st'.lists g := by
      intro qs
      induction qs with
      | nil => exact fun b _ hb => hb (by simp)
      | cons p qs ih =>
        intro b ht hb
        refine ih _ (fun q hq => ht q (List.mem_cons_of_mem p hq)) fun hno => ?_
        unfold Patch.onGroup
        rw [if_neg ((ht p List.mem_cons_self).within g)]
        split
        · next hpre => exact ((ht p List.mem_cons_self).groups g hpre).symm
        · next hpre =>
          refine hb fun q hq => ?_
          rcases List.mem_cons.mp hq with rfl | hq
          · exact hpre
          · exact hno q hq
    exact hfold ps _ htrue fun hno => (hlists g hno).symm

namespace Patch.True

variable {st : State} {p : Patch}

/-- The patch of one row. -/
theorem of_slot {s : Slot} (hp : p.path = s.path) (hv : p.value = st.slot s)
    (hg : ∀ g, s.group = some g → st.lists g = true) : p.True st where
  inPlace := by
    unfold Patch.InPlace
    rw [hp]
    exact s.inPlace _
  rows s' hpre := by
    rw [hp, Slot.path_prefix] at hpre
    rw [← hpre, hv]
  groups g hpre := by
    rw [hp, Slot.group_prefix] at hpre
    exact hg g hpre
  within g hpre := by
    rw [hp] at hpre
    exact s.not_prefix_group g hpre

/-- The patch of an agent's row. -/
theorem of_agent {g : String} {id : AgentId} (hp : p.path = agentPath g id) (hg : st.lists g = true) :
    p.True st where
  inPlace := by
    unfold Patch.InPlace
    rw [hp]
    exact inPlace_table (by simp)
  rows s hpre := by
    rw [hp] at hpre
    exact absurd hpre (Slot.agentPath_not_prefix g id s)
  groups g' hpre := by
    rw [hp] at hpre
    have he : g' = g := by simpa [agentPath, List.cons_prefix_cons] using hpre
    rw [he, hg]
  within g' hpre := by
    rw [hp] at hpre
    simp [agentPath, List.cons_prefix_cons] at hpre

/-- The patch of a field of the daemon's own, or of a peer's row. -/
theorem of_aside (hin : p.InPlace) {k : String} {ks : List String} (hp : p.path = k :: ks)
    (hg : k ≠ "groups") (hc : k ≠ "clients") : p.True st where
  inPlace := hin
  rows s hpre := by
    rw [hp] at hpre
    cases s <;>
      simp [Slot.path, actorPath, pgPath, claimPath, List.cons_prefix_cons, hg, hc] at hpre
  groups g hpre := by
    rw [hp] at hpre
    simp [List.cons_prefix_cons, Ne.symm hg] at hpre
  within g hpre := by
    rw [hp] at hpre
    simp [List.cons_prefix_cons, hg] at hpre

theorem of_agentPatch {id : AgentId} (h : agentPatch st id = some p) : p.True st := by
  obtain ⟨a, ha, rfl⟩ := Option.map_eq_some_iff.mp h
  exact of_agent rfl (State.lists_iff.mpr (.inl ⟨id, a, ha, rfl⟩))

theorem of_actorPatch {id : ActorId} (h : actorPatch st id = some p) : p.True st := by
  obtain ⟨a, ha, rfl⟩ := Option.map_eq_some_iff.mp h
  refine of_slot (s := .actor a.group id) rfl ?_ fun g hg => ?_
  · simp [Patch.value, State.slot, ha]
  · cases hg
    exact State.lists_iff.mpr (.inr ⟨id, a, ha, rfl⟩)

theorem of_pgPatch {id : PgId} (hg : ∀ pg, st.pgs.get id = some pg → st.lists pg.group = true)
    (h : pgPatch st id = some p) : p.True st := by
  obtain ⟨pg, hpg, rfl⟩ := Option.map_eq_some_iff.mp h
  refine of_slot (s := .pg pg.group id) rfl ?_ fun g he => ?_
  · simp [Patch.value, State.slot, hpg]
  · cases he
    exact hg pg hpg

end Patch.True

/-! ## Rows changed in place -/

section InPlace

variable {st st' : State}

theorem State.Rooted.pg (h : st.Rooted) {id : PgId} {pg : PgInfo} (hpg : st.pgs.get id = some pg) :
    st.lists pg.group = true :=
  h (.pg pg.group id) pg.group rfl (by simp [State.slot, hpg])

theorem State.Rooted.claim (h : st.Rooted) {key : String × String} {c : ClaimInfo}
    (hc : st.claims.get key = some c) : st.lists key.1 = true :=
  h (.claim key.1 key.2) key.1 rfl (by simp [State.slot, hc])

/-- Actors that come, or keep to their groups, leave no group. -/
theorem State.Rooted.of_actors (h : st.Rooted) {t : Table ActorId ActorInfo}
    (ht : ∀ k a, st.actors.get k = some a → ∃ b, t.get k = some b ∧ b.group = a.group) :
    State.Rooted { st with actors := t } := by
  intro s g hg hrow
  have hlists : st.lists g = true → State.lists { st with actors := t } g = true := by
    rw [State.lists_iff, State.lists_iff]
    rintro (hagent | ⟨k, a, ha, hg⟩)
    · exact .inl hagent
    · obtain ⟨b, hb, he⟩ := ht k a ha
      exact .inr ⟨k, b, hb, he.trans hg⟩
  cases s with
  | client id => cases hg
  | actor g' k =>
    cases hg
    obtain ⟨d, hd⟩ := Option.isSome_iff_exists.mp hrow
    obtain ⟨a, ha, -⟩ := Option.map_eq_some_iff.mp hd
    obtain ⟨ha, he⟩ := Option.filter_eq_some_iff.mp ha
    exact State.lists_iff.mpr (.inr ⟨k, a, ha, beq_iff_eq.mp he⟩)
  | pg g' k => exact hlists (h (.pg g' k) g hg hrow)
  | claim g' name => exact hlists (h (.claim g' name) g hg hrow)

theorem pg_slot_map {f : PgId → PgInfo → PgInfo} (h : st'.pgs = st.pgs.map f)
    (hf : ∀ k p, (f k p).group = p.group) {g : String} {k : PgId}
    (hrow : ∀ p, st.pgs.get k = some p → p.group = g → pgRow (f k p) = pgRow p) :
    st'.slot (.pg g k) = st.slot (.pg g k) := by
  simp only [State.slot, h, Table.get_map]
  cases hp : st.pgs.get k with
  | none => rfl
  | some p =>
    simp only [Option.map_some, Option.filter_some, hf]
    split
    · next hg => rw [Option.map_some, Option.map_some, hrow p hp (beq_iff_eq.mp hg)]
    · rfl

theorem actor_slot_map {f : ActorId → ActorInfo → ActorInfo} (h : st'.actors = st.actors.map f)
    (hf : ∀ k a, (f k a).group = a.group) {g : String} {k : ActorId}
    (hrow : ∀ a, st.actors.get k = some a → a.group = g → actorRow (f k a) = actorRow a) :
    st'.slot (.actor g k) = st.slot (.actor g k) := by
  simp only [State.slot, h, Table.get_map]
  cases ha : st.actors.get k with
  | none => rfl
  | some a =>
    simp only [Option.map_some, Option.filter_some, hf]
    split
    · next hg => rw [Option.map_some, Option.map_some, hrow a ha (beq_iff_eq.mp hg)]
    · rfl

theorem lists_actors_map {f : ActorId → ActorInfo → ActorInfo} (hag : st'.agents = st.agents)
    (h : st'.actors = st.actors.map f) (hf : ∀ k a, (f k a).group = a.group) : st'.lists = st.lists := by
  refine State.lists_congr (fun id => by rw [hag]) fun id => ?_
  rw [h, Table.get_map, Option.map_map]
  exact Option.map_congr fun a _ => hf id a

end InPlace

/-! ## Pieces of a section -/

/-- The events since `st` lead from its rows and groups to those of `st'`. -/
structure Reports (st st' : State) : Prop where
  rooted : st.Rooted → st'.Rooted
  events : st.Rooted → ∃ new, st'.events = st.events ++ new ∧ Tells (new.flatMap (·.patch)) st st'

namespace Reports

variable {st st' st'' : State} {kind why : String} {patch : List Patch}

theorem trans (h : Reports st st') (h' : Reports st' st'') : Reports st st'' where
  rooted hr := h'.rooted (h.rooted hr)
  events hr := by
    obtain ⟨new, he, ht⟩ := h.events hr
    obtain ⟨new', he', ht'⟩ := h'.events (h.rooted hr)
    refine ⟨new ++ new', by rw [he', he, List.append_assoc], ?_⟩
    rw [List.flatMap_append]
    exact ht.append ht'

/-- Without an event, no row and no group may change. -/
theorem silent (st' : State) (he : st'.events = st.events) (hs : st'.slot = st.slot)
    (hl : st'.lists = st.lists) : Reports st st' where
  rooted hr s g := by
    rw [hs, hl]
    exact hr s g
  events _ := ⟨[], by rw [he, List.append_nil], by simp, fun s => by rw [hs]; rfl, fun g => by rw [hl]; rfl⟩

theorem refl (st : State) : Reports st st := silent st rfl rfl rfl

/-- A change and one event that tells it. -/
theorem emit (st1 : State) (he : st1.events = st.events) (hr : st.Rooted → st1.Rooted)
    (ht : st.Rooted → Tells patch st st1) : Reports st (st1.emitPatch kind patch why) where
  rooted := hr
  events hroot := by
    refine ⟨[⟨kind, patch, why⟩], by simp [State.emitPatch, he], ?_⟩
    rw [List.flatMap_singleton]
    exact ⟨(ht hroot).inPlace, (ht hroot).rows, (ht hroot).groups⟩

/-- A change, and events with patches that say what the tables have then and are about everything that
has changed. -/
theorem notes (new : List Event) (he : st'.events = st.events ++ new)
    (htrue : st.Rooted → ∀ p ∈ new.flatMap (·.patch), p.True st')
    (hslots : ∀ s, (∀ p ∈ new.flatMap (·.patch), ¬ p.path <+: s.path) → st'.slot s = st.slot s)
    (hlists : ∀ g, (∀ p ∈ new.flatMap (·.patch), ¬ ["groups", g] <+: p.path) →
      st'.lists g = st.lists g) : Reports st st' where
  rooted hr s g hg hrow := by
    by_cases hp : ∃ p ∈ new.flatMap (·.patch), ["groups", g] <+: p.path
    · obtain ⟨p, hp, hpre⟩ := hp
      exact (htrue hr p hp).groups g hpre
    · have hno : ∀ p ∈ new.flatMap (·.patch), ¬ ["groups", g] <+: p.path :=
        fun p hp' hpre => hp ⟨p, hp', hpre⟩
      -- A patch about the row would be about its group.
      have hsame : st'.slot s = st.slot s := by
        refine hslots s fun p hp' hpre => ?_
        rcases List.prefix_or_prefix_of_prefix hpre (Slot.group_prefix.mpr hg) with h | h
        · exact (htrue hr p hp').within g h
        · exact hno p hp' h
      rw [hlists g hno]
      exact hr s g hg (hsame ▸ hrow)
  events hr := ⟨new, he, .of_true (htrue hr) hslots hlists⟩

theorem note (st1 : State) (he : st1.events = st.events)
    (htrue : st.Rooted → ∀ p ∈ patch, p.True st1)
    (hslots : ∀ s, (∀ p ∈ patch, ¬ p.path <+: s.path) → st1.slot s = st.slot s)
    (hlists : ∀ g, (∀ p ∈ patch, ¬ ["groups", g] <+: p.path) → st1.lists g = st.lists g) :
    Reports st (st1.emitPatch kind patch why) := by
  refine notes [⟨kind, patch, why⟩] (by simp [State.emitPatch, he]) (fun hr p hp => ?_)
    (fun s hno => ?_) fun g hno => ?_
  · rw [List.flatMap_singleton] at hp
    exact ⟨(htrue hr p hp).inPlace, (htrue hr p hp).rows, (htrue hr p hp).groups, (htrue hr p hp).within⟩
  · rw [List.flatMap_singleton] at hno
    exact hslots s hno
  · rw [List.flatMap_singleton] at hno
    exact hlists g hno

/-- A change that shows in the rows of agents alone, and an event with some of them. -/
theorem noteAgents (st1 : State) (he : st1.events = st.events)
    (hpatch : ∀ p ∈ patch, ∃ id, agentPatch st1 id = some p) (hs : st1.slot = st.slot)
    (hl : st1.lists = st.lists) : Reports st (st1.emitPatch kind patch why) :=
  note st1 he (fun _ p hp => (hpatch p hp).elim fun _ => .of_agentPatch) (fun s _ => by rw [hs])
    fun g _ => by rw [hl]

/-- One placement group's row changes, and its event may have rows of agents too. -/
theorem notePg {id : PgId} {f : PgInfo → PgInfo} (hf : ∀ p, (f p).group = p.group) {rest : List Patch}
    (hrest : ∀ p ∈ rest, ∃ a, agentPatch { st with pgs := st.pgs.modify id f } a = some p) :
    Reports st (State.emitPatch { st with pgs := st.pgs.modify id f } kind
      ((pgPatch { st with pgs := st.pgs.modify id f } id).toList ++ rest) why) := by
  have hget : ∀ pg, st.pgs.get id = some pg → (st.pgs.modify id f).get id = some (f pg) :=
    fun pg h => by rw [Table.get_modify_self, h, Option.map_some]
  refine note _ rfl (fun hr p hp => ?_) (fun s hno => ?_) fun g _ => rfl
  · rcases List.mem_append.mp hp with hp | hp
    · refine .of_pgPatch (fun pg' hpg' => ?_) (Option.mem_toList.mp hp)
      rw [Table.get_modify_self, Option.map_eq_some_iff] at hpg'
      obtain ⟨pg, hpg, rfl⟩ := hpg'
      rw [hf]
      exact hr.pg hpg
    · exact (hrest p hp).elim fun _ => .of_agentPatch
  · cases s with
    | pg g k =>
      refine pg_slot_map (f := fun k p => if k = id then f p else p) rfl (fun k p => ?_) fun p hp hg => ?_
      · split
        · exact hf p
        · rfl
      · split
        · next hk =>
          subst hk
          refine absurd ?_ (hno (.set (pgPath (f p).group k) (.pg (pgRow (f p)))) ?_)
          · rw [hf, hg]
            exact List.prefix_rfl
          · refine List.mem_append_left _ (Option.mem_toList.mpr ?_)
            rw [pgPatch, hget p hp]
            rfl
        · rfl
    | _ => rfl

theorem notePgAlone {id : PgId} {f : PgInfo → PgInfo} (hf : ∀ p, (f p).group = p.group) :
    Reports st (State.emitPatch { st with pgs := st.pgs.modify id f } kind
      (pgPatch { st with pgs := st.pgs.modify id f } id).toList why) := by
  rw [← List.append_nil (pgPatch _ id).toList]
  exact notePg hf fun p hp => absurd hp List.not_mem_nil

/-- One actor's row changes, and its event may have rows of agents too. -/
theorem noteActor {t : Table ActorId ActorInfo} {x : ActorId}
    (hget : ∀ k, k ≠ x → t.get k = st.actors.get k)
    (hgroup : (t.get x).map (·.group) = (st.actors.get x).map (·.group)) {rest : List Patch}
    (hrest : ∀ p ∈ rest, ∃ a, agentPatch { st with actors := t } a = some p) :
    Reports st (State.emitPatch { st with actors := t } kind
      ((actorPatch { st with actors := t } x).toList ++ rest) why) := by
  have hlists : State.lists { st with actors := t } = st.lists := by
    refine State.lists_congr (fun _ => rfl) fun k => ?_
    by_cases hk : k = x
    · rw [hk]
      exact hgroup
    · exact congrArg _ (hget k hk)
  refine note _ rfl (fun _ p hp => ?_) (fun s hno => ?_) fun g _ => by rw [hlists]
  · rcases List.mem_append.mp hp with hp | hp
    · exact .of_actorPatch (Option.mem_toList.mp hp)
    · exact (hrest p hp).elim fun _ => .of_agentPatch
  · cases s with
    | actor g k =>
      by_cases hk : k = x
      · subst hk
        cases ha : t.get k with
        | none =>
          rw [ha] at hgroup
          simp only [State.slot, ha, Option.map_eq_none_iff.mp hgroup.symm]
        | some a =>
          have hne : a.group ≠ g := by
            rintro rfl
            refine hno (.set (actorPath a.group k) (.actor (actorRow a))) ?_ List.prefix_rfl
            exact List.mem_append_left _ (Option.mem_toList.mpr (by rw [actorPatch, ha]; rfl))
          rw [ha, Option.map_some] at hgroup
          obtain ⟨b, hb, hbg⟩ := Option.map_eq_some_iff.mp hgroup.symm
          simp only [State.slot, ha, hb, Option.filter_some, hbg, beq_eq_false_iff_ne.mpr hne]
          rfl
      · simp only [State.slot, hget k hk]
    | _ => rfl

variable {cfg : Cfg} {ops : ClaimOps} {env : Env}

theorem mem_agentPatches {id : PgId} {p : Patch} (h : p ∈ agentPatches st id) :
    ∃ a, agentPatch st a = some p := by
  unfold agentPatches at h
  split at h
  · cases h
  · obtain ⟨a, -, hp⟩ := List.mem_filterMap.mp h
    exact ⟨a, hp⟩

theorem setPendingReason (id : PgId) (why : String) : Reports st (setPendingReason st id why) := by
  unfold Mentat.setPendingReason
  split
  · exact .refl st
  · split
    · exact .refl st
    · exact notePgAlone (f := fun pg => { pg with pendingReason := some why }) fun _ => rfl

theorem placeGroup (id : PgId) : Reports st (placeGroup cfg ops st id) := by
  unfold Mentat.placeGroup
  split
  · exact .refl st
  · split
    · exact setPendingReason id _
    · next island assignment _ =>
      exact notePg (f := fun pg => { pg with assignment, state := .created, island, pendingReason := none })
        (fun _ => rfl) fun p hp => mem_agentPatches hp

theorem tryPlace (env : Env) : Reports st (tryPlace cfg ops env st) :=
  List.foldlRecOn _ _ (.refl st) fun _ hs id _ => hs.trans (placeGroup id)

theorem fanOutDeath (x : ActorId) (reason : String) :
    Reports st (fanOutDeath cfg ops env st x reason) := by
  have hrefs : Reports st { st with refs := st.refs.map fun _ r => r.fail x reason } :=
    silent _ rfl rfl rfl
  exact hrefs.trans (tryPlace env)

theorem markActorDead (x : ActorId) (reason : String) :
    Reports st (markActorDead cfg ops env st x reason) := by
  unfold Mentat.markActorDead
  split
  · exact fanOutDeath x reason
  · next actor hx =>
    split
    · exact .refl st
    · refine (noteActor (fun k hk => Table.get_modify_of_ne hk) ?_
        fun p hp => ⟨_, Option.mem_toList.mp hp⟩).trans (fanOutDeath x reason)
      rw [Table.get_modify_self, Option.map_map]
      refine Option.map_congr fun a _ => show (a.die reason env.now).group = a.group from ?_
      unfold ActorInfo.die
      split <;> rfl

theorem buryAll (ids : List ActorId) (reason : String) :
    Reports st (buryAll cfg ops env st ids reason) :=
  buryAll_keeps cfg ops env st (I := Reports st)
    (fun _ x why hs => hs.trans (markActorDead x why)) (.refl st) ids reason

theorem killActor (x : ActorId) : Reports st (killActor cfg ops env st x) := by
  rcases killActor_cases cfg ops env st x with he | ⟨_, _, _, _, _, he⟩ | ⟨_, _, _, _, he⟩
  · rw [he]
    exact .refl st
  · rw [he]
    exact silent _ rfl rfl rfl
  · rw [he]
    exact markActorDead x _

end Reports

end Mentat
