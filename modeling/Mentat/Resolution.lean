import Mentat.Daemon.Section

/-!
# A ref resolves once

A driver may read a ref as soon as it is resolved, so what it holds must not change afterwards.
Results are sent again after an outage, exits are reported for actors already given up, and a
registration lists calls the daemon has long answered. Each path that writes a ref's state looks
first whether it is pending.

* `RefsAge`: rows of refs that only resolve or go.
* `exec_refs`: what a section makes of the refs, those it inserts apart.
* `refs_named`: a ref is a call of the actor its id names.
* `births`: the daemon with a note of the step that inserted each ref, so that an entry is told
  from a later one under the same id.
-/

namespace Mentat

/-- Every ref of `t'` is in `t`, with the same resolution if it had one. -/
def RefsAge (t t' : Table RefId RefInfo) : Prop :=
  ∀ rid r', t'.get rid = some r' →
    ∃ r, t.get rid = some r ∧ (r.state ≠ .pending → r'.state = r.state)

/-- Rows of refs that only resolve or go, and stay calls of their actors. -/
structure RefsStay (t t' : Table RefId RefInfo) : Prop where
  age : RefsAge t t'
  actor : ∀ rid r', t'.get rid = some r' → ∃ r, t.get rid = some r ∧ r'.actor = r.actor

namespace RefsStay

variable {t t' t'' : Table RefId RefInfo}

theorem refl (t : Table RefId RefInfo) : RefsStay t t where
  age _ r h := ⟨r, h, fun _ => rfl⟩
  actor _ r h := ⟨r, h, rfl⟩

theorem of_eq (h : t' = t) : RefsStay t t' := h ▸ refl t

/-- Each row, with the one it comes from. -/
theorem row (h : RefsStay t t') {rid : RefId} {r' : RefInfo} (hr' : t'.get rid = some r') :
    ∃ r, t.get rid = some r ∧ (r.state ≠ .pending → r'.state = r.state) ∧ r'.actor = r.actor := by
  obtain ⟨r, hr, hs⟩ := h.age rid r' hr'
  obtain ⟨q, hq, ha⟩ := h.actor rid r' hr'
  cases hr.symm.trans hq
  exact ⟨r, hr, hs, ha⟩

theorem of_row (h : ∀ rid r', t'.get rid = some r' →
    ∃ r, t.get rid = some r ∧ (r.state ≠ .pending → r'.state = r.state) ∧ r'.actor = r.actor) :
    RefsStay t t' where
  age rid r' hr' := (h rid r' hr').imp fun _ hr => ⟨hr.1, hr.2.1⟩
  actor rid r' hr' := (h rid r' hr').imp fun _ hr => ⟨hr.1, hr.2.2⟩

theorem trans (h : RefsStay t t') (h' : RefsStay t' t'') : RefsStay t t'' := by
  refine .of_row fun rid r'' hr'' => ?_
  obtain ⟨r', hr', hs', ha'⟩ := h'.row hr''
  obtain ⟨r, hr, hs, ha⟩ := h.row hr'
  refine ⟨r, hr, fun hne => ?_, ha'.trans ha⟩
  rw [hs' (by rw [hs hne]; exact hne), hs hne]

/-- Every row changed in place, the resolved ones not in their state. -/
theorem of_map {f : RefId → RefInfo → RefInfo} (h : t' = t.map f)
    (hf : ∀ rid r, r.state ≠ .pending → (f rid r).state = r.state)
    (ha : ∀ rid r, (f rid r).actor = r.actor) : RefsStay t t' := by
  refine .of_row fun rid r' hr' => ?_
  rw [h, Table.get_map, Option.map_eq_some_iff] at hr'
  obtain ⟨r, hr, rfl⟩ := hr'
  exact ⟨r, hr, hf rid r, ha rid r⟩

theorem of_filter {p : RefId → RefInfo → Bool} (h : t' = t.filter p) : RefsStay t t' := by
  refine .of_row fun rid r hr => ?_
  rw [h, Table.get_filter, Option.filter_eq_some_iff] at hr
  exact ⟨r, hr.1, fun _ => rfl, rfl⟩

end RefsStay

/-! ## The ids of calls -/

theorem digits_toString {n : Nat} {c : Char} (h : c ∈ (toString n).toList) : c.isDigit = true := by
  rw [Nat.toString_eq_repr, Nat.toList_repr] at h
  exact Nat.isDigit_of_mem_toDigits (by decide) (by decide) h

/-- A ref id splits into its actor and its number. -/
theorem rsplitOnce_refId (x : ActorId) (n : Nat) :
    rsplitOnce (x ++ ":" ++ toString n) = some (x, toString n) := by
  have hrev : (x ++ ":" ++ toString n).toList.reverse =
      (toString n).toList.reverse ++ ':' :: x.toList.reverse := by
    simp [String.toList_append]
  have hpos : ∀ c ∈ (toString n).toList.reverse, decide (c ≠ ':') = true := by
    intro c hc
    have hd := digits_toString (List.mem_reverse.mp hc)
    rw [decide_eq_true_eq]
    rintro rfl
    cases hd
  simp only [rsplitOnce, hrev, List.dropWhile_append_of_pos hpos, List.takeWhile_append_of_pos hpos]
  simp only [ne_eq, decide_not, List.dropWhile_cons, List.takeWhile_cons, decide_true, Bool.not_true,
    Bool.false_eq_true, if_false, List.append_nil, List.reverse_reverse, String.ofList_toList]

theorem newRefId_split (st : State) (x : ActorId) :
    rsplitOnce (st.newRefId x).1 = some (x, toString st.nextRef) :=
  rsplitOnce_refId x st.nextRef

/-- The row is a call of the actor its id names. -/
def RefInfo.Named (rid : RefId) (r : RefInfo) : Prop := r.actor = (rsplitOnce rid).map (·.1)

section Sections

variable (cfg : Cfg) (ops : ClaimOps) (env : Env) (st : State)

/-- A death leaves the calls that were answered before it. -/
theorem markActorDead_refsStay (x : ActorId) (reason : String) :
    RefsStay st.refs (markActorDead cfg ops env st x reason).refs := by
  have hfan : ∀ s : State, s.refs = st.refs →
      RefsStay st.refs (fanOutDeath cfg ops env s x reason).refs := by
    intro s hs
    refine .of_map (by rw [fanOutDeath_refs, hs]) (fun rid r hne => ?_) fun rid r => ?_
    · rw [RefInfo.fail, if_neg fun hc => hne hc.2]
    · unfold RefInfo.fail
      split <;> rfl
  unfold markActorDead
  split
  · exact hfan st rfl
  · split
    · exact .refl _
    · exact hfan _ rfl

theorem buryAll_refsStay (ids : List ActorId) (reason : String) :
    RefsStay st.refs (buryAll cfg ops env st ids reason).refs :=
  buryAll_keeps cfg ops env st (I := fun s => RefsStay st.refs s.refs)
    (fun s x why hs => hs.trans (markActorDead_refsStay cfg ops env s x why)) (.refl _) ids reason

theorem sweepLifecycle_refsStay : RefsStay st.refs (sweepLifecycle cfg ops env st).refs := by
  obtain ⟨p, e, ht⟩ := timeOutPgs_frame cfg env st
  have h1 : RefsStay st.refs (timeOutPgs cfg env st).refs := by
    rw [ht]
    refine .of_map rfl (fun rid r _ => ?_) fun rid r => ?_
    · unfold RefInfo.warn
      split <;> rfl
    · unfold RefInfo.warn
      split <;> rfl
  have h2 : RefsStay st.refs (sweepAgents cfg ops env (timeOutPgs cfg env st)).refs := by
    obtain ⟨e', hd⟩ := degradeLate_frame cfg env (timeOutPgs cfg env st)
    refine sweepAgents_keeps cfg ops env _ (I := fun s => RefsStay st.refs s.refs)
      (fun s e hs => hs) (fun s x why hs => hs.trans (markActorDead_refsStay cfg ops env s x why)) ?_
    rw [hd]
    exact h1
  refine h2.trans ?_
  unfold sweepLifecycle
  rcases sweepHistory_frame cfg env (sweepAgents cfg ops env (timeOutPgs cfg env st)) with
    hs | ⟨e', hs⟩
  · exact .of_eq (by rw [hs])
  · rw [hs]
    dsimp only
    exact .of_filter rfl

theorem agentFrame_refsStay (id : AgentId) (msg : FromAgent) :
    RefsStay st.refs (agentFrame cfg ops env st id msg).refs := by
  cases msg with
  | spawnResult x ok error pid =>
    obtain ⟨actors, h⟩ := notePid_frame st x pid
    simp only [agentFrame, spawnResult, h]
    split
    · split <;> exact .refl _
    · exact markActorDead_refsStay cfg ops env { st with actors := actors } x _
  | result ref ok error payload =>
    refine .of_map rfl (fun rid r hne => ?_) fun rid r => ?_
    · split
      · simp only [if_neg hne]
      · rfl
    · split
      · beta_reduce
        split <;> rfl
      · rfl
  | exit x exitCode signal => exact markActorDead_refsStay cfg ops env st x _
  | serviceNote service note =>
    unfold agentFrame serviceNote
    simp only
    split <;> exact .refl _

/-! ## What is inserted -/

/-- A registration inserts this ref: the agent reports it, it is not known here, and it names an
actor the agent holds. -/
def adoptsRef (r : AgentRegister) (rid : RefId) : Bool :=
  r.reported.contains rid && !st.refs.has rid &&
    (rsplitOnce rid).any fun p => ((adoptTable st r).get p.1).any fun a => a.agent == r.agentId

/-- The section inserts this ref: a call under the id it draws, or a registration that revives
it. -/
def Section.insertsRef (rid : RefId) : Section → Bool
  | .actorCall r => st.actors.has r.actorId && rid == (st.newRefId r.actorId).1
  | .register _ r => adoptsRef st r rid
  | _ => false

theorem actorCall_refs (r : ActorCall) : (actorCall env st r).1.refs = st.refs ∨
    (st.actors.has r.actorId = true ∧ ∃ ref, ref.actor = some r.actorId ∧
      (actorCall env st r).1.refs = st.refs.set (st.newRefId r.actorId).1 ref) := by
  unfold actorCall
  simp only
  split
  · exact .inl rfl
  · next a ha =>
    refine .inr ⟨Table.has_iff.mpr ⟨a, ha⟩, ?_⟩
    simp only
    split
    · exact ⟨_, rfl, rfl⟩
    · split
      · split <;> exact ⟨_, rfl, rfl⟩
      · split <;> exact ⟨_, rfl, rfl⟩

/-- A ref there is after one is adopted was there before, or is the one adopted. -/
theorem adoptRef_get {agentId : AgentId} {rid k : RefId} {ref : RefInfo}
    (h : (adoptRef env agentId st rid).refs.get k = some ref) :
    st.refs.get k = some ref ∨ (k = rid ∧ st.refs.has rid = false ∧
      ((rsplitOnce rid).any fun p => (st.actors.get p.1).any fun a => a.agent == agentId) = true ∧
      ref.Named rid) := by
  unfold adoptRef at h
  split at h
  · exact .inl h
  · next hn =>
    split at h
    · exact .inl h
    · next actor n hs =>
      split at h
      · exact .inl h
      · next a ha =>
        split at h
        · exact .inl h
        · next hag =>
          rcases Table.get_set_some h with ⟨rfl, rfl⟩ | ⟨-, h⟩
          · refine .inr ⟨rfl, Bool.eq_false_iff.mpr hn, ?_, ?_⟩
            · simp [hs, ha, not_not.mp hag]
            · simp [RefInfo.Named, hs]
          · exact .inl h

/-- A ref there is after the adoption was there before, or is one the registration inserts. -/
theorem foldl_adoptRef_get {agentId : AgentId} {rids : List RefId} {k : RefId} {ref : RefInfo}
    (h : (rids.foldl (adoptRef env agentId) st).refs.get k = some ref) :
    st.refs.get k = some ref ∨ (k ∈ rids ∧ st.refs.has k = false ∧
      ((rsplitOnce k).any fun p => (st.actors.get p.1).any fun a => a.agent == agentId) = true ∧
      ref.Named k) := by
  induction rids generalizing st with
  | nil => exact .inl h
  | cons rid rids ih =>
    obtain ⟨refs, n, hframe⟩ := adoptRef_frame env st agentId rid
    have hact : (adoptRef env agentId st rid).actors = st.actors := by rw [hframe]
    rcases ih _ h with h | ⟨hk, hnew, hag, hname⟩
    · rcases adoptRef_get env st h with h | ⟨rfl, hnew, hag, hname⟩
      · exact .inl h
      · exact .inr ⟨List.mem_cons_self, hnew, hag, hname⟩
    · refine .inr ⟨List.mem_cons_of_mem rid hk, ?_, hact ▸ hag, hname⟩
      rw [Table.has_eq_false] at hnew ⊢
      by_contra hold
      obtain ⟨q, hq⟩ := Option.ne_none_iff_exists'.mp hold
      rw [adoptRef_known env st agentId rid hq] at hnew
      cases hnew

/-- The refs after a registration: those known with their resolution, and those it inserts. -/
theorem register_refs {w : FrameWriter} {r : AgentRegister} {rid : RefId} {ref' : RefInfo}
    (h : (register cfg ops env st w r).refs.get rid = some ref') :
    (adoptsRef st r rid = true ∧ ref'.Named rid) ∨ ∃ ref, st.refs.get rid = some ref ∧
      (ref.state ≠ .pending → ref'.state = ref.state) ∧ ref'.actor = ref.actor := by
  rw [register_eq, tryPlace_refs] at h
  have hstay : RefsStay (adoptRefs env (adoptActors (insertAgent st w r) r) r).refs
      (resumeState cfg ops env st w r).refs := by
    refine (buryAll_refsStay cfg ops env (adoptRefs env (adoptActors (insertAgent st w r) r) r)
      (missingActors env (adoptRefs env (adoptActors (insertAgent st w r) r) r) r)
      "agent reconnected without this actor").trans ?_
    refine .of_map rfl (fun k ref hne => ?_) fun k ref => by split <;> rfl
    have hlost : isLost (buryMissing cfg ops env
        (adoptRefs env (adoptActors (insertAgent st w r) r) r) r) r k ref = false := by
      simp [isLost, hne]
    rw [hlost]
    rfl
  have hrefs : (adoptActors (insertAgent st w r) r).refs = st.refs := adoptActors_refs _ r
  obtain ⟨ref, href, hs, hact⟩ := hstay.row h
  rcases foldl_adoptRef_get env _ href with href | ⟨hk, hnew, hag, hname⟩
  · exact .inr ⟨ref, hrefs ▸ href, hs, hact⟩
  · refine .inl ⟨?_, hact.trans hname⟩
    rw [adoptActors_actors] at hag
    rw [hrefs] at hnew
    simp only [adoptsRef, hnew, Bool.not_false, Bool.and_true, Bool.and_eq_true,
      List.contains_iff_mem]
    exact ⟨hk, hag⟩

/-- A ref after a section is one it inserts, or one there was, with its resolution. It is a call of
the same actor, and one inserted is a call of the actor its id names. -/
theorem exec_refs {sec : Section} {rid : RefId} {r' : RefInfo}
    (h : (exec cfg ops env st sec).refs.get rid = some r') :
    (sec.insertsRef st rid = true ∧ r'.Named rid) ∨ ∃ r, st.refs.get rid = some r ∧
      (r.state ≠ .pending → r'.state = r.state) ∧ r'.actor = r.actor := by
  have hstay : ∀ {t : Table RefId RefInfo}, RefsStay st.refs t → t.get rid = some r' →
      (sec.insertsRef st rid = true ∧ r'.Named rid) ∨ ∃ r, st.refs.get rid = some r ∧
        (r.state ≠ .pending → r'.state = r.state) ∧ r'.actor = r.actor :=
    fun ht hr => .inr (ht.row hr)
  cases sec with
  | hello w hello =>
    cases hh : Mentat.hello env st w hello with
    | none =>
      rw [exec_hello_none _ _ _ hh] at h
      exact hstay (.refl _) h
    | some p =>
      obtain ⟨st', orphans⟩ := p
      rw [exec_hello_some _ _ _ hh] at h
      obtain ⟨-, -, e, rfl⟩ := hello_eq_some hh
      exact hstay (.refl _) h
  | claim client name shape =>
    obtain ⟨c, g, e, he⟩ := claim_frame ops st client name shape
    simp only [exec, he] at h
    exact hstay (.refl _) h
  | pgCreate r =>
    refine hstay (.of_eq ?_) h
    simp only [exec, pgCreate, tryPlace_refs, State.emitPatch]
  | pgRemove id =>
    refine hstay (.of_eq ?_) h
    simp only [exec, pgRemove, tryPlace_refs]
    split <;> rfl
  | actorCreate r =>
    refine hstay ?_ h
    simp only [exec, createActor]
    split
    · exact .refl _
    · next bundle _ _ _ =>
      split
      · exact .refl _
      · exact markActorDead_refsStay cfg ops env (putSpawning st r bundle) r.actorId _
  | actorCall r =>
    simp only [exec] at h
    rcases actorCall_refs env st r with he | ⟨hk, ref, hact, he⟩
    · exact hstay (.of_eq he) h
    · rw [he] at h
      rcases Table.get_set_some h with ⟨rfl, rfl⟩ | ⟨-, h⟩
      · refine .inl ⟨by simp [Section.insertsRef, hk], ?_⟩
        rw [RefInfo.Named, hact, newRefId_split]
        rfl
      · exact hstay (.refl _) h
  | killActor x =>
    refine hstay ?_ h
    simp only [exec]
    rcases killActor_cases cfg ops env st x with he | ⟨_, _, _, _, _, he⟩ | ⟨_, _, _, _, he⟩
    · exact .of_eq (by rw [he])
    · exact .of_eq (by rw [he]; rfl)
    · rw [he]
      exact markActorDead_refsStay cfg ops env st x _
  | closeLink w => exact hstay (.refl _) h
  | dropRow client moved =>
    refine hstay (.of_eq ?_) h
    simp only [exec, dropRow]
    split <;> rfl
  | reapRow client => exact hstay (.refl _) h
  | reapArm client => exact hstay (.refl _) h
  | reapCheck client group token =>
    refine hstay (.of_eq ?_) h
    rcases reapCheck_cases env st client group token with ⟨-, he⟩ | ⟨-, -, he⟩ | ⟨-, -, he⟩
    · simp only [exec, he]
    · simp only [exec, he]
    · obtain ⟨-, e, ht⟩ := reapTake_spec env st client group
      simp only [exec, he, ht]
  | reapFinish client =>
    refine hstay ?_ h
    simp only [exec, reapFinish, tryPlace_refs]
    exact .of_filter rfl
  | register w r => exact register_refs cfg ops env st h
  | agentFrame id msg => exact hstay (agentFrame_refsStay cfg ops env st id msg) h
  | agentEof id w =>
    obtain ⟨a, e, he⟩ := agentEof_frame cfg env st id w
    simp only [exec, he] at h
    exact hstay (.refl _) h
  | sweepLifecycle => exact hstay (sweepLifecycle_refsStay cfg ops env st) h
  | elect candidate =>
    simp only [exec] at h
    rcases elect_frame env st candidate with ⟨_, _, _, -, he⟩ | ⟨_, _, _, -, he⟩
    · rw [he] at h
      exact hstay (.refl _) h
    · rw [he] at h
      cases h
  | commitIslands fresh =>
    refine hstay (.of_eq ?_) h
    simp only [exec, commitIslands, tryPlace_refs, State.emitPatch]
  | peers t => exact hstay (.refl _) h

end Sections

/-! ## Whole runs -/

/-- A ref is a call of the actor that its id names. -/
theorem refs_named {cfg : Cfg} {ops : ClaimOps} {ok : State → Env × Section → Bool} {st : State}
    (h : (daemon cfg ops).Reach ok st) {rid : RefId} {r : RefInfo} (hr : st.refs.get rid = some r) :
    r.Named rid := by
  refine h.invariant (I := fun st => ∀ rid r, st.refs.get rid = some r → r.Named rid) ?_ ?_ rid r hr
  · rintro st ⟨_, _, _, rfl⟩ rid r hr
    cases hr
  · intro st a st' ih _ hn rid r' hr'
    obtain ⟨-, rfl⟩ := daemon_next cfg ops hn
    rcases exec_refs cfg ops a.1 st hr' with ⟨-, hname⟩ | ⟨r, hr, -, hact⟩
    · exact hname
    · exact hact.trans (ih rid r hr)

/-- The daemon with the number of steps it has taken, and for each ref id the step that last
inserted an entry under it. -/
structure Births where
  st : State
  tick : Nat
  born : RefId → Option Nat

def births (cfg : Cfg) (ops : ClaimOps) : System Births (Env × Section) where
  init l := (daemon cfg ops).init l.st ∧ l.tick = 0 ∧ l.born = fun _ => none
  next l a := ((daemon cfg ops).next l.st a).map fun st' =>
    ⟨st', l.tick + 1, fun rid => if a.2.insertsRef l.st rid then some l.tick else l.born rid⟩

variable {cfg : Cfg} {ops : ClaimOps}

theorem births_next {l l' : Births} {a : Env × Section} (h : (births cfg ops).next l a = some l') :
    l'.st = exec cfg ops a.1 l.st a.2 ∧ l'.tick = l.tick + 1 ∧
      ∀ rid, l'.born rid = if a.2.insertsRef l.st rid then some l.tick else l.born rid := by
  simp only [births, Option.map_eq_some_iff] at h
  obtain ⟨st', hn, rfl⟩ := h
  obtain ⟨-, rfl⟩ := daemon_next cfg ops hn
  exact ⟨rfl, rfl, fun _ => rfl⟩

/-- A note of an insertion is of a step taken. -/
theorem births_born_lt {l : Births} (h : (births cfg ops).Reach System.Free l) {rid : RefId} {n : Nat}
    (hb : l.born rid = some n) : n < l.tick := by
  refine h.invariant (I := fun l => ∀ rid n, l.born rid = some n → n < l.tick) ?_ ?_ rid n hb
  · rintro l ⟨-, -, hl⟩ rid n hb
    rw [hl] at hb
    cases hb
  · intro l a l' ih _ hn rid n hb
    obtain ⟨-, ht, hborn⟩ := births_next hn
    rw [hborn] at hb
    split at hb
    · cases hb
      omega
    · have := ih rid n hb
      omega

/-- What a step leaves of a resolved ref: it is inserted anew, or it is resolved as it was, if it is
still there. -/
theorem births_resolution {l l' : Births} {a : Env × Section} {rid : RefId} {state : RefState}
    (hn : (births cfg ops).next l a = some l') (hres : state ≠ .pending)
    (h : ∀ r, l.st.refs.get rid = some r → r.state = state) :
    l'.born rid = some l.tick ∨
      (l'.born rid = l.born rid ∧ ∀ r', l'.st.refs.get rid = some r' → r'.state = state) := by
  obtain ⟨hst, -, hborn⟩ := births_next hn
  rw [hborn]
  cases hi : a.2.insertsRef l.st rid with
  | true => exact .inl (if_pos rfl)
  | false =>
    refine .inr ⟨if_neg (by simp), fun r' hr' => ?_⟩
    rw [hst] at hr'
    rcases exec_refs cfg ops a.1 l.st hr' with ⟨hins, -⟩ | ⟨r, hr, hs, -⟩
    · rw [hi] at hins
      cases hins
    · have hr0 := h r hr
      rw [hs (by rw [hr0]; exact hres), hr0]

/-- Once a ref is resolved, the same entry holds the same resolution for as long as it is there,
whatever sections run. -/
theorem resolution_write_once {l l' : Births} {trace : List (Env × Section)} {rid : RefId}
    {r r' : RefInfo} (hreach : (births cfg ops).Reach System.Free l)
    (hrun : (births cfg ops).run System.Free l trace = some l') (h : l.st.refs.get rid = some r)
    (hres : r.state ≠ .pending) (h' : l'.st.refs.get rid = some r')
    (hsame : l'.born rid = l.born rid) : r'.state = r.state := by
  -- Either a step of the run has inserted the ref anew, or nothing has touched its resolution.
  have hkeep : l.tick ≤ l'.tick ∧ ((∃ n, l.tick ≤ n ∧ l'.born rid = some n) ∨
      (l'.born rid = l.born rid ∧ ∀ r', l'.st.refs.get rid = some r' → r'.state = r.state)) := by
    refine System.run_keeps (I := fun m : Births => l.tick ≤ m.tick ∧
      ((∃ n, l.tick ≤ n ∧ m.born rid = some n) ∨
        (m.born rid = l.born rid ∧ ∀ q, m.st.refs.get rid = some q → q.state = r.state)))
      hrun ⟨le_refl _, .inr ⟨rfl, fun q hq => ?_⟩⟩ ?_
    · cases h.symm.trans hq
      rfl
    · rintro m a m' ⟨hle, hm⟩ - hn
      obtain ⟨-, ht, hborn⟩ := births_next hn
      refine ⟨by omega, ?_⟩
      rcases hm with ⟨n, hn, hb⟩ | ⟨hb, hall⟩
      · rw [hborn]
        split
        · exact .inl ⟨m.tick, hle, rfl⟩
        · exact .inl ⟨n, hn, hb⟩
      · rcases births_resolution hn hres hall with hnew | ⟨hold, hall'⟩
        · exact .inl ⟨m.tick, hle, hnew⟩
        · exact .inr ⟨hold.trans hb, hall'⟩
  rcases hkeep.2 with ⟨n, hle, hb⟩ | ⟨-, hall⟩
  · have := births_born_lt hreach (hsame ▸ hb)
    omega
  · exact hall r' h'

/-- A call whose result has come. -/
def callAnswered : List (Env × Section) := [
  (Sample.at_ 0, .elect "n:1"),
  (Sample.at_ 1, .register 1 (Sample.registration [] [])),
  (Sample.at_ 2, .hello 2 (Sample.driver "c" true)),
  (Sample.at_ 3, Sample.group "c" "p:1"),
  (Sample.at_ 4, Sample.actor "c" "p:1" "a:1"),
  (Sample.at_ 5, Sample.call "c" "a:1"),
  (Sample.at_ 6, .agentFrame "ag" (.result "a:1:1" true "" [1]))]

/-- The link drops, the agent lists the call again without its actor, sends another result for it
and reports the exit. -/
def answeredAgain : List (Env × Section) := [
  (Sample.at_ 7, .agentEof "ag" 1),
  (Sample.at_ 8, .register 3 (Sample.registration [] ["a:1:1"])),
  (Sample.at_ 9, .agentFrame "ag" (.result "a:1:1" false "late" [])),
  (Sample.at_ 10, .agentFrame "ag" (.exit "a:1" (some 1) none))]

theorem resolution_write_once_answeredAgain :
    ∃ l l', (births Sample.cfg Sample.ops).Reach System.Free l ∧
      (births Sample.cfg Sample.ops).run System.Free l answeredAgain = some l' ∧
      ∃ r r', l.st.refs.get "a:1:1" = some r ∧ r.state = .ready true [1] ∧
        l'.st.refs.get "a:1:1" = some r' ∧ r'.state = r.state := by
  let ok (l l' : Births) : Bool :=
    (l.st.refs.get "a:1:1").any (fun r => r.state == .ready true [1]) &&
      (l'.st.refs.get "a:1:1").isSome && l'.born "a:1:1" == l.born "a:1:1"
  have hrun : ((births Sample.cfg Sample.ops).run System.Free ⟨Sample.boot, 0, fun _ => none⟩
      callAnswered).any (fun l => ((births Sample.cfg Sample.ops).run System.Free l
        answeredAgain).any (ok l)) = true := by decide +kernel
  obtain ⟨l, hreach, hl⟩ := System.Reach.of_run hrun ⟨⟨_, _, _, rfl⟩, rfl, rfl⟩
  obtain ⟨l', hl', hok⟩ := (Option.any_eq_true _ _).mp hl
  simp only [ok, Bool.and_eq_true, Option.any_eq_true, beq_iff_eq, Option.isSome_iff_exists] at hok
  obtain ⟨⟨⟨r, hr, hs⟩, r', hr'⟩, hborn⟩ := hok
  refine ⟨l, l', hreach, hl', r, r', hr, hs, hr', ?_⟩
  exact resolution_write_once hreach hl' hr (by rw [hs]; simp) hr' hborn

end Mentat
