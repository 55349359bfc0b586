import Mentat.Mesh.Announcements
import Mentat.Wire.Signing

/-!
# From announcer to listener

`run` in `announce.rs`, with which a daemon announces itself, against the two loops that read
announcements. A round signs the daemon's addresses with the next number of its boot, and sends
nothing if the datagram is too large. Between the ends anyone may send anything, but for the MAC of
bytes that no holder of the key has signed (`Unforged`).

`announcements_authentic` says that what a loop acts on was announced by a holder of the key for the
loop's own cluster, and `announcer_heard` that a daemon's round is acted on if it is the first of its
kind to arrive.
-/

namespace Mentat

open Arrival

/-- The daemon as it announces itself. -/
structure Announcer where
  nodeId : String
  control : String
  nodeIp : String
  httpPort : Nat
  universeName : String
  bootId : String

/-- What differs between two rounds. -/
structure Announcer.Round where
  /-- The clock in whole seconds. -/
  t : Nat
  addrs : List String
  addrTags : Table String (List String)

namespace Announcer

variable (A : Announcer) (W : Coding) (key : List UInt8)

def payload (r : Round) (seq : Nat) : Value := .obj [
  ("proto", .str (String.ofList Version.proto)),
  ("node_id", .str A.nodeId),
  ("control", .str A.control),
  ("http", .str (A.nodeIp ++ ":" ++ toString A.httpPort)),
  ("universe", .str A.universeName),
  ("addrs", .arr (r.addrs.map .str)),
  ("addr_tags", .obj (r.addrTags.rows.map fun kv => (kv.1, .arr (kv.2.map .str)))),
  ("boot_id", .str A.bootId),
  ("seq", .num (.uint seq)),
  ("t", .num (.uint r.t))]

/-- A round's datagram, none if it would not fit. -/
def datagram (r : Round) (seq : Nat) : Option (List UInt8) :=
  let raw := utf8 (W.sign (A.payload r seq) key).toList
  if maxDatagram < raw.length then none else some raw

/-- The rounds one after the other. A round that sends nothing has a number too. -/
def run (rounds : List Round) : List (Option (List UInt8)) :=
  rounds.mapIdx fun seq r => A.datagram W key r seq

theorem payload_keyed (r : Round) (seq : Nat) : (A.payload r seq).keyed = true := by
  have hstrs : ∀ l : List String, Value.keyedItems (l.map .str) = true := by
    intro l
    induction l with
    | nil => rfl
    | cons s l ih => simp [Value.keyedItems, Value.keyed, ih]
  have htags : (r.addrTags.rows.map
      ((fun f => f.1) ∘ fun kv => (kv.1, Value.arr (kv.2.map .str)))).Nodup := by
    have hkeys := r.addrTags.alist.keys_nodup
    simpa [Table.rows, Function.comp_def, AList.keys, List.keys] using hkeys
  have hrows : Value.keyedFields
      (r.addrTags.rows.map fun kv => (kv.1, Value.arr (kv.2.map .str))) = true := by
    rw [Value.keyedFields_iff]
    intro f hf
    obtain ⟨kv, -, rfl⟩ := List.mem_map.mp hf
    exact hstrs kv.2
  simp [payload, Value.keyed, Value.keyedFields, hstrs, htags, hrows]

end Announcer

/-! ## What a good signature says -/

namespace Coding

variable (W : Coding) (ours : String) (key : List UInt8)

/-- No other value has this one's text in canonical form. -/
def Tells (v : Value) : Prop := ∀ w : Value, W.canonical w = W.canonical v → w.sorted = v.sorted

/-- If the datagram bears the MAC of some bytes, then these were signed by a holder of the key. -/
def Unforged (signed : List Value) (raw : List UInt8) : Prop :=
  ∀ env sig m, W.fromSlice raw = some env → (env.get "sig").bind Value.asStr = some sig →
    unhex sig = .ok (some (W.hmac key m)) → ∃ p ∈ signed, utf8 (W.canonical p).toList = m

variable {W ours key} {raw : List UInt8} {p : Value}

theorem verify_ok (h : W.verify raw key = .ok (some p)) : ∃ env sig, W.fromSlice raw = some env ∧
    env.get "p" = some p ∧ (env.get "sig").bind Value.asStr = some sig ∧
    unhex sig = .ok (some (W.hmac key (utf8 (W.canonical p).toList))) := by
  unfold verify at h
  split at h
  · cases h
  · next env henv =>
    split at h
    · next payload sig hp hsig =>
      cases hu : unhex sig with
      | error e => rw [hu] at h; cases h
      | ok want =>
        rw [hu] at h
        by_cases hw : want = some (W.hmac key (utf8 (W.canonical payload).toList))
        · simp only [Except.map, hw, if_true, Except.ok.injEq, Option.some.injEq] at h
          subst h
          exact ⟨env, sig, henv, hp, hsig, by rw [hu, hw]⟩
        · simp [Except.map, hw] at h
    · cases h

theorem genuine_iff : W.genuine ours key raw = some p ↔ raw.length ≤ maxDatagram ∧
    W.claimedUniverse raw = ours ∧ W.verify raw key = .ok (some p) := by
  unfold genuine receive
  by_cases hlong : maxDatagram < raw.length
  · simp [hlong, Except.toOption, Nat.not_le.mpr hlong]
  · by_cases hmine : W.claimedUniverse raw = ours
    · cases hv : W.verify raw key with
      | error e => simp [hlong, hmine, Except.map, Except.toOption]
      | ok v => cases v <;> simp [hlong, hmine, Except.map, Except.toOption, Nat.not_lt.mp hlong]
    · simp [hlong, hmine, Except.toOption]

/-- The cluster that a genuine datagram names is the one its payload names. -/
theorem genuine_universe (h : W.genuine ours key raw = some p) :
    ((p.idx "universe").asStr).getD "default" = ours := by
  obtain ⟨-, hmine, hv⟩ := genuine_iff.mp h
  obtain ⟨env, sig, henv, hp, -⟩ := verify_ok hv
  rw [← hmine, claimedUniverse, peekUniverse, henv, Option.bind_some, hp, Option.getD_some,
    Value.get_bind_asStr]

/-- A payload whose signature is good is one that was signed. -/
theorem genuine_signed {signed : List Value} (h : W.genuine ours key raw = some p)
    (htells : ∀ q ∈ signed, W.Tells q) (hraw : W.Unforged key signed raw) :
    ∃ q ∈ signed, q.Same p := by
  obtain ⟨-, -, hv⟩ := genuine_iff.mp h
  obtain ⟨env, sig, henv, -, hsig, hmac⟩ := verify_ok hv
  obtain ⟨q, hq, hbytes⟩ := hraw env sig _ henv hsig hmac
  have htext : W.canonical p = W.canonical q := by
    have := congrArg fromUtf8 hbytes
    simp only [fromUtf8_utf8, Option.some.injEq] at this
    exact String.toList_inj.mp this.symm
  exact ⟨q, hq, Value.same_of_sorted (htells q hq p htext).symm⟩

end Coding

/-! ## What the loops read in it -/

section Reading

variable {p q : Value}

theorem told_same {A : Type} (a : Arrival) (h : p.Same q) (hk : p.keyed = true)
    {deed deed' : Option A} (hdeed : deed = deed') : a.told p deed = a.told q deed' := by
  have hstr : ∀ k, (p.idx k).asStr = (q.idx k).asStr := fun k => (h.idx hk k).asStr
  have hnum : ∀ k, (p.idx k).asU64 = (q.idx k).asU64 := fun k => (h.idx hk k).asU64
  simp only [told, hstr, hnum, hdeed]

theorem Daemon.note_same {myId : String} {a : Arrival} (h : p.Same q) (hk : p.keyed = true) :
    Daemon.note myId a p = Daemon.note myId a q := by
  have hdeed : Daemon.deed a p = Daemon.deed a q := by
    have hstr : ∀ k, (p.idx k).asStr = (q.idx k).asStr := fun k => (h.idx hk k).asStr
    simp only [Daemon.deed, hstr]
  rw [Daemon.note, Daemon.note, told_same a h hk hdeed]

theorem sameItems_strs {xs ys : List Value} (h : Value.SameItems xs ys) :
    xs.filterMap Value.asStr = ys.filterMap Value.asStr := by
  induction ys generalizing xs with
  | nil => cases h; rfl
  | cons y ys ih =>
    obtain ⟨⟩ | ⟨hy, hrest⟩ := h
    rw [List.filterMap_cons, List.filterMap_cons, hy.asStr, ih hrest]

theorem same_strs (h : p.Same q) :
    (p.asArray.getD []).filterMap Value.asStr = (q.asArray.getD []).filterMap Value.asStr := by
  cases h with
  | arr hs => exact sameItems_strs hs
  | _ => rfl

theorem Router.note_same {parseAddr : Text → Option IpAddr} {allowed : Allow} {a : Arrival}
    (h : p.Same q) (hk : p.keyed = true) :
    Router.note parseAddr allowed a p = Router.note parseAddr allowed a q := by
  have hdeed : Router.deed parseAddr allowed a p = Router.deed parseAddr allowed a q := by
    have hstr : ∀ k, (p.idx k).asStr = (q.idx k).asStr := fun k => (h.idx hk k).asStr
    simp only [Router.deed, Router.httpPort, hstr, same_strs (h.idx hk "addrs")]
  exact told_same a h hk hdeed

theorem told_eq_some {A : Type} {a : Arrival} {v : Value} {deed : Option A} {d : Announcement A} :
    a.told v deed = some d ↔ Version.majorMatches ((v.idx "proto").asStr.getD "").toList = true ∧
      (∃ t, (v.idx "t").asU64 = some t ∧ fresh t a.now = true) ∧ d.sender ≠ "" ∧ d.session ≠ "" ∧
      d = ⟨(v.idx "node_id").asStr.getD "", (v.idx "boot_id").asStr.getD "",
        (v.idx "seq").asU64.getD 0, deed⟩ := by
  unfold told
  by_cases hv : Version.majorMatches ((v.idx "proto").asStr.getD "").toList = true
  · cases ht : (v.idx "t").asU64 with
    | none => simp [hv]
    | some t =>
      by_cases hf : fresh t a.now = true
      · simp only [hv, if_true, hf, Option.some.injEq, true_and, exists_eq_left']
        constructor
        · intro h
          split at h
          · cases h
          · next hne =>
            obtain rfl := Option.some.inj h
            exact ⟨fun he => hne (.inl he), fun he => hne (.inr he), rfl⟩
        · rintro ⟨hn, hb, rfl⟩
          rw [if_neg]
          rintro (he | he)
          · exact hn he
          · exact hb he
      · simp [hv, hf]
  · simp [hv]

end Reading

/-! ## Authenticity -/

/-- What a loop has of an arrival is what the payload says, and the payload is for it. -/
structure Announced (ours : String) (a : Arrival) (p : Value) (sender session : String)
    (num : Nat) : Prop where
  node : (p.idx "node_id").asStr.getD "" = sender
  boot : (p.idx "boot_id").asStr.getD "" = session
  seq : (p.idx "seq").asU64.getD 0 = num
  cluster : (p.idx "universe").asStr.getD "default" = ours
  major : Version.Accepted ((p.idx "proto").asStr.getD "").toList
  /-- It arrived within half a minute of its making, by the clocks of both. -/
  fresh : ∃ t, (p.idx "t").asU64 = some t ∧ |a.now - t| ≤ 30

section Authentic

variable {W : Coding} {ours : String} {key : List UInt8} {arrivals : List Arrival}
  {signed : List Value}

/-- Over either loop. -/
theorem announcement_signed {A : Type} {deed : Arrival → Value → Option A}
    {note : Arrival → Value → Option (Announcement A)}
    (hnote : ∀ a v d, note a v = some d → a.told v (deed a v) = some d)
    (hsame : ∀ a p q, p.Same q → p.keyed = true → note a p = note a q)
    (hsigned : ∀ p ∈ signed, p.keyed = true ∧ W.Tells p)
    (hforged : ∀ a ∈ arrivals, W.Unforged key signed a.raw) {d : Announcement A}
    (hd : d ∈ W.announcements ours key note arrivals) :
    ∃ p ∈ signed, ∃ a ∈ arrivals, Announced ours a p d.sender d.session d.num ∧
      d.deed = deed a p := by
  obtain ⟨a, ha, hd⟩ := List.mem_filterMap.mp hd
  obtain ⟨p, hp, hn⟩ := Option.bind_eq_some_iff.mp hd
  obtain ⟨q, hq, hqp⟩ := W.genuine_signed hp (fun q hq => (hsigned q hq).2) (hforged a ha)
  have hk := (hsigned q hq).1
  have huniverse : (q.idx "universe").asStr.getD "default" = ours := by
    rw [(hqp.idx hk "universe").asStr]
    exact Coding.genuine_universe hp
  rw [← hsame a q p hqp hk] at hn
  obtain ⟨hmajor, ⟨t, ht, hfresh⟩, -, -, rfl⟩ := told_eq_some.mp (hnote a q d hn)
  exact ⟨q, hq, a, ha, ⟨rfl, rfl, rfl, huniverse, Version.majorMatches_iff.mp hmajor,
    t, ht, of_decide_eq_true hfresh⟩, rfl⟩

theorem Daemon.note_told {myId : String} {a : Arrival} {v : Value} {d : Announcement String}
    (h : Daemon.note myId a v = some d) : a.told v (Daemon.deed a v) = some d :=
  (Option.filter_eq_some_iff.mp h).1

/-- Whatever a loop acts on was signed by a holder of the key, for the loop's own cluster and half a
minute before at most, and the address it leads to is the one that was signed. -/
theorem announcements_authentic (hsigned : ∀ p ∈ signed, p.keyed = true ∧ W.Tells p)
    (hforged : ∀ a ∈ arrivals, W.Unforged key signed a.raw) :
    (∀ (myId : String) (g : Gate String String String),
      W.hearAll ours key (Daemon.note myId) arrivals = .ok g → ∀ d ∈ g.heeded,
        ∃ p ∈ signed, ∃ a ∈ arrivals, Announced ours a p d.sender d.session d.num ∧
          d.deed = Daemon.deed a p) ∧
    ∀ (parseAddr : Text → Option IpAddr) (allowed : Allow) (g : Gate String String Sighting),
      W.hearAll ours key (Router.note parseAddr allowed) arrivals = .ok g → ∀ d ∈ g.heeded,
        ∃ p ∈ signed, ∃ a ∈ arrivals, Announced ours a p d.sender d.session d.num ∧
          d.deed = Router.deed parseAddr allowed a p := by
  constructor
  · intro myId g hg d hd
    rw [W.hearAll_eq ours key _ hg] at hd
    exact announcement_signed (fun _ _ _ => Daemon.note_told) (fun _ _ _ => Daemon.note_same)
      hsigned hforged ((Gate.heeded_sublist _).subset hd)
  · intro parseAddr allowed g hg d hd
    rw [W.hearAll_eq ours key _ hg] at hd
    exact announcement_signed (fun _ _ _ h => h) (fun _ _ _ => Router.note_same) hsigned hforged
      ((Gate.heeded_sublist _).subset hd)

end Authentic

/-! ## A round that arrives -/

section Heard

variable {A : Announcer} {W : Coding} {key : List UInt8} {r : Announcer.Round} {seq : Nat}
  {raw : List UInt8} {rounds : List Announcer.Round}

theorem Announcer.run_sent (hr : rounds[seq]? = some r)
    (hsent : (A.run W key rounds)[seq]? = some (some raw)) :
    raw.length ≤ maxDatagram ∧ raw = utf8 (W.sign (A.payload r seq) key).toList := by
  rw [Announcer.run, List.getElem?_mapIdx, hr, Option.map_some, Option.some.injEq,
    Announcer.datagram] at hsent
  split at hsent
  · cases hsent
  · next hlong =>
    obtain rfl := Option.some.inj hsent
    exact ⟨Nat.not_lt.mp hlong, rfl⟩

/-- What a loop makes of a round. -/
theorem Announcer.note_payload {myId : String} {a : Arrival} (hfresh : Arrival.fresh r.t a.now = true)
    (hnode : A.nodeId ≠ "") (hother : A.nodeId ≠ myId) (hboot : A.bootId ≠ "")
    (hcontrol : A.control ≠ "") :
    Daemon.note myId a (A.payload r seq) =
      some ⟨A.nodeId, A.bootId, seq, if a.alive A.nodeId then none else some A.control⟩ := by
  have hdeed : Daemon.deed a (A.payload r seq) =
      if a.alive A.nodeId then none else some A.control := by
    have hcontrol' : ((A.payload r seq).idx "control").asStr = some A.control := rfl
    have hnode' : ((A.payload r seq).idx "node_id").asStr = some A.nodeId := rfl
    have hsome : (some A.control).filter (· ≠ "") = some A.control :=
      Option.filter_eq_some_iff.mpr ⟨rfl, decide_eq_true hcontrol⟩
    rw [Daemon.deed, hcontrol', hnode', hsome, Option.getD_some]
  have hmajor : Version.majorMatches
      (((A.payload r seq).idx "proto").asStr.getD "").toList = true := by
    show Version.majorMatches (String.ofList Version.proto).toList = true
    rw [String.toList_ofList]
    decide
  rw [Daemon.note, Option.filter_eq_some_iff, told_eq_some, hdeed]
  exact ⟨⟨hmajor, ⟨r.t, rfl, hfresh⟩, hnode, hboot, rfl⟩, decide_eq_true hother⟩

/-- A round that fits in a datagram is taken in, if it arrives within half a minute. -/
theorem receive_round {myId ours : String} {a : Arrival} (g : Gate String String String)
    (hr : rounds[seq]? = some r) (hsent : (A.run W key rounds)[seq]? = some (some a.raw))
    (hread : W.Reads (W.envelope (A.payload r seq) key)) (hours : A.universeName = ours)
    (hfresh : Arrival.fresh r.t a.now = true) (hnode : A.nodeId ≠ "") (hother : A.nodeId ≠ myId)
    (hboot : A.bootId ≠ "") (hcontrol : A.control ≠ "") :
    W.receive ours key (Coding.heed (Daemon.note myId) a) g a.raw = .ok (g.hear
      ⟨A.nodeId, A.bootId, seq, if a.alive A.nodeId then none else some A.control⟩) := by
  obtain ⟨hlen, hraw⟩ := Announcer.run_sent hr hsent
  have hkeyed := A.payload_keyed r seq
  obtain ⟨env, henv, hsame⟩ := hread
  obtain ⟨p, hverify, hp⟩ := Coding.verify_envelope hkeyed henv hsame
  have hraw' : utf8 (W.toString (W.envelope (A.payload r seq) key)).toList = a.raw := hraw.symm
  rw [hraw'] at hverify
  have hcluster : W.claimedUniverse a.raw = ours := by
    obtain ⟨env, sig, henv, hpay, -⟩ := Coding.verify_ok hverify
    rw [Coding.claimedUniverse, Coding.peekUniverse, henv, Option.bind_some, hpay, Option.getD_some,
      Value.get_bind_asStr, ← (hp.idx hkeyed "universe").asStr, ← hours]
    rfl
  have hnote : Daemon.note myId a p = some
      ⟨A.nodeId, A.bootId, seq, if a.alive A.nodeId then none else some A.control⟩ := by
    rw [← Daemon.note_same hp hkeyed]
    exact Announcer.note_payload hfresh hnode hother hboot hcontrol
  rw [Coding.receive, if_neg (Nat.not_lt.mpr hlen), if_neg (not_not.mpr hcluster), hverify]
  simp [Except.map, Coding.heed, hnote]

/-- A round that fits in a datagram and arrives within half a minute is acted on, if what came before
it is at most of earlier rounds of its boot: its number is noted, and its address is dialed unless
there is a link. -/
theorem announcer_heard {myId ours : String} {arrivals : List Arrival} {a : Arrival}
    {signed : List Value} {g : Gate String String String}
    (hg : W.hearAll ours key (Daemon.note myId) arrivals = .ok g)
    (hsigned : ∀ p ∈ signed, p.keyed = true ∧ W.Tells p)
    (hforged : ∀ a ∈ arrivals, W.Unforged key signed a.raw)
    (hbefore : ∀ p ∈ signed, (p.idx "node_id").asStr.getD "" = A.nodeId →
      (p.idx "boot_id").asStr.getD "" = A.bootId → (p.idx "seq").asU64.getD 0 < seq)
    (hr : rounds[seq]? = some r) (hsent : (A.run W key rounds)[seq]? = some (some a.raw))
    (hread : W.Reads (W.envelope (A.payload r seq) key)) (hours : A.universeName = ours)
    (hfresh : Arrival.fresh r.t a.now = true) (hnode : A.nodeId ≠ "") (hother : A.nodeId ≠ myId)
    (hboot : A.bootId ≠ "") (hcontrol : A.control ≠ "") :
    ∃ g', W.hearAll ours key (Daemon.note myId) (arrivals ++ [a]) = .ok g' ∧
      g'.heeded = g.heeded ++
        [⟨A.nodeId, A.bootId, seq, if a.alive A.nodeId then none else some A.control⟩] := by
  have hreceive := receive_round g hr hsent hread hours hfresh hnode hother hboot hcontrol
  set d : Announcement String :=
    ⟨A.nodeId, A.bootId, seq, if a.alive A.nodeId then none else some A.control⟩ with hd
  refine ⟨g.hear d, ?_, ?_⟩
  · rw [Coding.hearAll] at hg
    show List.foldlM _ _ _ = _
    rw [List.foldlM_append, hg]
    show List.foldlM (fun g a => W.receive ours key (Coding.heed (Daemon.note myId) a) g a.raw) g [a] = _
    rw [List.foldlM_cons, hreceive]
    rfl
  · -- Every number of this boot that has come is a lower one.
    have hpass : g.passes d = true := by
      rw [W.hearAll_eq ours key _ hg, Gate.passes_iff]
      rintro c ⟨pre, post, hsplit, hcn, hcb, -⟩
      have hc : c ∈ W.announcements ours key (Daemon.note myId) arrivals := by
        rw [hsplit]
        exact List.mem_append_right _ List.mem_cons_self
      obtain ⟨q, hq, b, hb, hqc, -⟩ := announcement_signed (fun _ _ _ => Daemon.note_told)
        (fun _ _ _ => Daemon.note_same) hsigned hforged hc
      have hlt := hbefore q hq (hqc.node.trans hcn) (hqc.boot.trans hcb)
      rwa [hqc.seq] at hlt
    rw [Gate.hear_heeded, if_pos hpass]

end Heard

namespace Sample

def announcer : Announcer := ⟨"b", "10.0.0.2:6379", "10.0.0.2", 6380, "default", "x1"⟩

def firstRound : Announcer.Round := ⟨1000, ["10.0.0.2"], ∅⟩

def payloadText : String :=
  "\x7b\"addr_tags\":\x7b\x7d,\"addrs\":[\"10.0.0.2\"],\"boot_id\":\"x1\",\"contr" ++
    "ol\":\"10.0.0.2:6379\",\"http\":\"10.0.0.2:6380\",\"node_id\":\"b\",\"proto\":" ++
    "\"0.99\",\"seq\":0,\"t\":1000,\"universe\":\"default\"\x7d"

/-- HMAC-SHA256 of that text under `swordfish`. -/
def payloadMac : List UInt8 :=
  [0x25, 0x5D, 0x40, 0x65, 0xEB, 0xD8, 0x20, 0x47, 0xED, 0x2F, 0xFB, 0x1B, 0xAB, 0x6C, 0xBE, 0x10,
    0x19, 0x2C, 0xBF, 0xD2, 0x0D, 0xCD, 0x43, 0x4D, 0x45, 0x52, 0x3F, 0x25, 0x8C, 0x58, 0xBB, 0x02]

def announced : Value :=
  .obj [("p", announcer.payload firstRound 0), ("sig", .str (hex payloadMac))]

def announcedText : String :=
  "\x7b\"p\":\x7b\"addr_tags\":\x7b\x7d,\"addrs\":[\"10.0.0.2\"],\"boot_id\":\"x1" ++
    "\",\"control\":\"10.0.0.2:6379\",\"http\":\"10.0.0.2:6380\",\"node_id\":\"b\"," ++
    "\"proto\":\"0.99\",\"seq\":0,\"t\":1000,\"universe\":\"default\"\x7d,\"sig\":" ++
    "\"255d4065ebd82047ed2ffb1bab6cbe10192cbfd20dcd434d45523f258c58bb02\"\x7d"

/-- Knows the announcer's first round. -/
def announcing : Coding where
  fromSlice raw := if raw = utf8 announcedText.toList then some announced else none
  toString v :=
    if v = announced then announcedText
    else if v = (announcer.payload firstRound 0).sorted then payloadText
    else ""
  hmac _ m := if m = utf8 payloadText.toList then payloadMac else []

/-- Five seconds later. -/
def firstArrival : Arrival := datagram (utf8 announcedText.toList) 0

set_option maxRecDepth 4000 in
theorem announcedText_fits : ¬ maxDatagram < (utf8 announcedText.toList).length := by
  have hsize : announcedText.utf8ByteSize ≤ maxDatagram := by decide
  rwa [length_utf8_toList, Nat.not_lt]

theorem payload_ne_announced (v : Value) (h : v.sorted = (announcer.payload firstRound 0).sorted) :
    v.sorted ≠ announced := by
  rw [h]
  intro he
  have hlen := congrArg (fun v => (v.asObject.getD []).length) he
  simp [announcer, Announcer.payload, announced, Value.sorted, Value.sortedFields, Value.asObject]
    at hlen

theorem announcing_canonical : announcing.canonical (announcer.payload firstRound 0) = payloadText := by
  simp [Coding.canonical, announcing, payload_ne_announced _ rfl]

theorem announcing_tells : announcing.Tells (announcer.payload firstRound 0) := by
  intro w hw
  rw [announcing_canonical] at hw
  by_cases h : w.sorted = (announcer.payload firstRound 0).sorted
  · exact h
  · have hother : payloadText ≠ announcedText := by decide
    have hempty : payloadText ≠ "" := by decide
    by_cases he : w.sorted = announced
    · simp only [Coding.canonical, announcing, he, if_true] at hw
      exact absurd hw.symm hother
    · simp only [Coding.canonical, announcing, he, h, if_false] at hw
      exact absurd hw.symm hempty

theorem announcing_unforged (key : List UInt8) :
    announcing.Unforged key [announcer.payload firstRound 0] firstArrival.raw := by
  intro env sig m henv hsig hmac
  have henv' : env = announced := by
    simp only [announcing, firstArrival, datagram, if_true, Option.some.injEq] at henv
    exact henv.symm
  subst henv'
  obtain rfl : hex payloadMac = sig := Option.some.inj hsig
  rw [unhex_hex, Except.ok.injEq, Option.some.injEq] at hmac
  refine ⟨_, List.mem_singleton_self _, ?_⟩
  rw [announcing_canonical]
  by_cases hm : m = utf8 payloadText.toList
  · exact hm.symm
  · simp only [announcing, if_neg hm] at hmac
    exact absurd hmac (by decide)

theorem announcing_envelope : announcing.envelope (announcer.payload firstRound 0)
    (utf8 "swordfish".toList) = announced := by
  rw [Coding.envelope, announcing_canonical]
  simp [announcing, announced]

theorem announcing_text : announcing.toString announced = announcedText := by
  simp [announcing]

theorem announcing_reads : announcing.Reads (announcing.envelope (announcer.payload firstRound 0)
    (utf8 "swordfish".toList)) := by
  rw [announcing_envelope]
  refine ⟨announced, ?_, Value.same_of_sorted rfl⟩
  rw [announcing_text]
  simp [announcing]

theorem firstRound_sent : (announcer.run announcing (utf8 "swordfish".toList) [firstRound])[0]? =
    some (some firstArrival.raw) := by
  simp only [Announcer.run, Announcer.datagram, Coding.sign, List.mapIdx_cons, announcing_envelope,
    announcing_text, if_neg announcedText_fits, List.getElem?_cons_zero, firstArrival, datagram]

theorem firstArrival_fresh : Arrival.fresh firstRound.t firstArrival.now = true := by
  simp only [Arrival.fresh, clockSkewS, firstRound, firstArrival, datagram]
  norm_num

def firstAnnounced : Announcement String := ⟨"b", "x1", 0, some "10.0.0.2:6379"⟩

end Sample

theorem announcements_authentic_first : ∃ g, Sample.announcing.hearAll "default"
      (utf8 "swordfish".toList) (Daemon.note "a") [Sample.firstArrival] = .ok g ∧
    Sample.firstAnnounced ∈ g.heeded ∧ ∃ p ∈ [Sample.announcer.payload Sample.firstRound 0],
      ∃ a ∈ [Sample.firstArrival], Announced "default" a p "b" "x1" 0 ∧
        some "10.0.0.2:6379" = Daemon.deed a p := by
  have hrun : Sample.announcing.hearAll "default" (utf8 "swordfish".toList) (Daemon.note "a")
      [Sample.firstArrival] = .ok (Gate.empty.hear Sample.firstAnnounced) := by
    have hreceive : Sample.announcing.receive "default" (utf8 "swordfish".toList)
        (Coding.heed (Daemon.note "a") Sample.firstArrival) .empty Sample.firstArrival.raw =
        .ok (Gate.empty.hear Sample.firstAnnounced) :=
      receive_round .empty rfl Sample.firstRound_sent Sample.announcing_reads rfl
        Sample.firstArrival_fresh (by decide) (by decide) (by decide) (by decide)
    rw [Coding.hearAll, List.foldlM_cons, hreceive]
    rfl
  have hmem : Sample.firstAnnounced ∈ (Gate.empty.hear Sample.firstAnnounced).heeded := by decide
  obtain ⟨p, hp, a, ha, hd, hdeed⟩ := (announcements_authentic
    (List.forall_mem_singleton.mpr ⟨Announcer.payload_keyed _ _ _, Sample.announcing_tells⟩)
    (List.forall_mem_singleton.mpr (Sample.announcing_unforged _))).1 "a" _ hrun _ hmem
  exact ⟨_, hrun, hmem, p, hp, a, ha, hd, hdeed⟩

theorem announcer_heard_first : ∃ g', Sample.announcing.hearAll "default"
      (utf8 "swordfish".toList) (Daemon.note "a") ([] ++ [Sample.firstArrival]) = .ok g' ∧
    g'.heeded = [] ++ [⟨"b", "x1", 0, some "10.0.0.2:6379"⟩] :=
  @announcer_heard Sample.announcer _ _ Sample.firstRound 0 [Sample.firstRound] _ _ []
    Sample.firstArrival [] .empty rfl (fun _ h => by cases h) (fun _ h => by cases h)
    (fun _ h => by cases h) rfl Sample.firstRound_sent Sample.announcing_reads rfl
    Sample.firstArrival_fresh (by decide) (by decide) (by decide) (by decide)

end Mentat
