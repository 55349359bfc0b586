import Mentat.Lib.Bytes
import Mentat.Lib.Source

/-!
# Frames

`proto.rs`, `write_frame` and `read_frame`, and the shim's `pack_frame` and `read_frame_from`. A
frame is two lengths of four bytes, a JSON header and a payload. The JSON codecs of the two sides are
a parameter, and `RoundTrips` is what is relied on: each reads what either writes for one frame.

`frames_round_trip`: the frames read do not depend on how the stream is cut, and a stream that ends
inside a frame ends in an error.
-/

namespace Mentat

/-- A message of a type that is known here, or of another. -/
inductive Msg (M : Type) where
  | known (m : M)
  | unknown
deriving DecidableEq

structure Frame (M : Type) where
  req : UInt64
  msg : Msg M
  /-- The `t` of an unknown message. It is not written. -/
  unknownT : String
deriving DecidableEq

namespace Frame

variable {M : Type}

def new (req : UInt64) (msg : Msg M) : Frame M := ⟨req, msg, ""⟩

/-- A frame as `new` makes it, of a known type. -/
def Known (f : Frame M) : Prop := ∃ req m, f = new req (.known m)

end Frame

/-- What the shim raises. -/
inductive ShimError where
  /-- `ConnectionError`. -/
  | connection (text : String)
  /-- `json.loads`. -/
  | json
  /-- `struct.error`: a length does not fit. -/
  | struct
deriving DecidableEq, Repr

/-- `serde_json` for a frame's header, and Python's `json` for the dict that stands for one. -/
structure HeaderCodec (M D : Type) where
  toVec : Frame M → List UInt8
  fromSlice : List UInt8 → Except String (Frame M)
  /-- The string at `t` of what parses as JSON. -/
  tag : List UInt8 → Option String
  dict : Frame M → D
  dumps : D → List UInt8
  loads : List UInt8 → Option D

/-- Bytes as they come off a socket. -/
abbrev Bytes := List (Piece UInt8)

def maxFrame : Nat := 256 * 1024 * 1024

/-- `n as u32`. -/
def asU32 (n : Nat) : Nat := n % 2 ^ 32

/-- Reads until the buffer of `n` is full. The end of the stream before the first byte is no error. -/
def readExactOrEof (n : Nat) (filled : List UInt8) (src : Bytes) :
    Except IoError (Option (List UInt8) × Bytes) :=
  if n ≤ filled.length then .ok (some filled, src)
  else
    match _h : Source.read (n - filled.length) src with
    | (.got [], src') =>
      if filled = [] then .ok (none, src') else .error ⟨.unexpectedEof, "EOF mid-frame"⟩
    | (.got (b :: l), src') => readExactOrEof n (filled ++ b :: l) src'
    | (.paused, src') => readExactOrEof n filled src'
termination_by Source.weight src
decreasing_by
  · have := Source.read_weight _h
    simp only [List.length_cons] at this
    omega
  · exact (Source.read_paused _h).2

/-- `Read::read_exact`. -/
def readExact (n : Nat) (src : Bytes) : Except IoError (List UInt8 × Bytes) :=
  if (Source.fill n src).1.length < n then .error ⟨.unexpectedEof, "failed to fill whole buffer"⟩
  else .ok (Source.fill n src)

/-- The shim's `recv_exact`. An interrupted call is made again by the runtime. -/
def recvExact (n : Nat) (sock : Bytes) : Except ShimError (List UInt8 × Bytes) :=
  if (Source.fill n sock).1.length < n then
    .error (.connection "mentat daemon closed the connection")
  else .ok (Source.fill n sock)

namespace HeaderCodec

variable {M D : Type} (J : HeaderCodec M D)

def writeFrame (f : Frame M) (payload : List UInt8) : List UInt8 :=
  let header := J.toVec f
  leBytes 4 (asU32 header.length) ++ leBytes 4 (asU32 payload.length) ++ header ++ payload

def readFrame (src : Bytes) : Except IoError (Option (Frame M × List UInt8) × Bytes) := do
  let (lens, src) ← readExactOrEof 8 [] src
  match lens with
  | none => return (none, src)
  | some lens =>
    let hlen := leNat (lens.take 4)
    let plen := leNat (lens.drop 4)
    if maxFrame < hlen ∨ maxFrame < plen then
      throw ⟨.invalidData, s!"frame over {maxFrame} bytes: header={hlen} payload={plen}"⟩
    let (header, src) ← readExact hlen src
    let (payload, src) ← readExact plen src
    match J.fromSlice header with
    | .error e =>
      throw ⟨.invalidData, "bad frame header: " ++ e ++ ": " ++ String.ofList (fromUtf8Lossy header)⟩
    | .ok frame =>
      let frame := match frame.msg with
        | .unknown => { frame with unknownT := (J.tag header).getD "" }
        | .known _ => frame
      return (some (frame, payload), src)

def packFrame (header : D) (payload : List UInt8) : Except ShimError (List UInt8) :=
  let hb := J.dumps header
  if 2 ^ 32 ≤ hb.length ∨ 2 ^ 32 ≤ payload.length then .error .struct
  else .ok (leBytes 4 hb.length ++ leBytes 4 payload.length ++ hb ++ payload)

def readFrameFrom (sock : Bytes) : Except ShimError ((D × List UInt8) × Bytes) := do
  let (lens, sock) ← recvExact 8 sock
  let (hb, sock) ← recvExact (leNat (lens.take 4)) sock
  match J.loads hb with
  | none => throw .json
  | some header =>
    let (payload, sock) ← recvExact (leNat (lens.drop 4)) sock
    return ((header, payload), sock)

end HeaderCodec

/-! ## What is read is the front of the stream -/

theorem readExactOrEof_eq {n : Nat} {filled : List UInt8} {src : Bytes} (h : filled.length ≤ n) :
    readExactOrEof n filled src =
      let r := Source.fill (n - filled.length) src
      if n ≤ (filled ++ r.1).length then .ok (some (filled ++ r.1), r.2)
      else if filled ++ r.1 = [] then .ok (none, r.2)
      else .error ⟨.unexpectedEof, "EOF mid-frame"⟩ := by
  fun_induction readExactOrEof n filled src with
  | case1 filled src hn =>
    have hzero : n - filled.length = 0 := by omega
    rw [hzero, Source.fill, if_pos rfl]
    simp [hn]
  | case2 src hn src' hr =>
    have hpos : ¬ n - ([] : List UInt8).length = 0 := by omega
    rw [Source.fill, if_neg hpos]
    split <;> simp_all
  | case3 filled src hn src' hr hne =>
    have hpos : ¬ n - filled.length = 0 := by omega
    rw [Source.fill, if_neg hpos]
    split <;> simp_all
  | case4 filled src hn b l src' hr ih =>
    have hpos : ¬ n - filled.length = 0 := by omega
    have hlen := (Source.read_got hr).2
    rw [Source.fill, if_neg hpos]
    rw [ih (by simp only [List.length_append]; omega)]
    split
    · simp_all
    · simp_all
    · next heq =>
      rw [hr] at heq
      cases heq
      have hsub : n - (filled ++ b :: l).length = n - filled.length - (b :: l).length := by
        rw [List.length_append]
        omega
      simp only [hsub, List.append_assoc]
  | case5 filled src hn src' hr ih =>
    have hpos : ¬ n - filled.length = 0 := by omega
    rw [Source.fill, if_neg hpos, ih h]
    split <;> simp_all

theorem readExactOrEof_of_contents (n : Nat) (src : Bytes) :
    readExactOrEof n [] src =
      if n ≤ (Source.contents src).length then
        .ok (some ((Source.contents src).take n), (Source.fill n src).2)
      else if Source.contents src = [] then .ok (none, (Source.fill n src).2)
      else .error ⟨.unexpectedEof, "EOF mid-frame"⟩ := by
  obtain ⟨hfst, -⟩ := Source.fill_contents n src
  rw [readExactOrEof_eq (Nat.zero_le n)]
  simp only [List.length_nil, Nat.sub_zero, List.nil_append, hfst, List.length_take]
  by_cases hle : n ≤ (Source.contents src).length
  · rw [if_pos hle, if_pos (by omega)]
  · rw [if_neg hle, if_neg (by omega), List.take_of_length_le (by omega)]

theorem readExact_of_contents (n : Nat) (src : Bytes) :
    readExact n src = if n ≤ (Source.contents src).length then
        .ok ((Source.contents src).take n, (Source.fill n src).2)
      else .error ⟨.unexpectedEof, "failed to fill whole buffer"⟩ := by
  obtain ⟨hfst, -⟩ := Source.fill_contents n src
  simp only [readExact, hfst, List.length_take]
  by_cases hle : n ≤ (Source.contents src).length
  · rw [if_pos hle, if_neg (by omega), ← hfst]
  · rw [if_neg hle, if_pos (by omega)]

theorem recvExact_of_contents (n : Nat) (sock : Bytes) :
    recvExact n sock = if n ≤ (Source.contents sock).length then
        .ok ((Source.contents sock).take n, (Source.fill n sock).2)
      else .error (.connection "mentat daemon closed the connection") := by
  obtain ⟨hfst, -⟩ := Source.fill_contents n sock
  simp only [recvExact, hfst, List.length_take]
  by_cases hle : n ≤ (Source.contents sock).length
  · rw [if_pos hle, if_neg (by omega), ← hfst]
  · rw [if_neg hle, if_pos (by omega)]

theorem readExact_front {a b : List UInt8} {src : Bytes} (h : Source.contents src = a ++ b) :
    readExact a.length src = .ok (a, (Source.fill a.length src).2) := by
  rw [readExact_of_contents, h, if_pos (by simp), List.take_left]

theorem recvExact_front {a b : List UInt8} {sock : Bytes} (h : Source.contents sock = a ++ b) :
    recvExact a.length sock = .ok (a, (Source.fill a.length sock).2) := by
  rw [recvExact_of_contents, h, if_pos (by simp), List.take_left]

/-- What a frame is on the wire. -/
def frameBytes (header payload : List UInt8) : List UInt8 :=
  leBytes 4 header.length ++ leBytes 4 payload.length ++ header ++ payload

section

variable {header payload rest c : List UInt8}

theorem length_frameBytes : (frameBytes header payload).length = 8 + header.length + payload.length := by
  simp only [frameBytes, List.length_append, length_leBytes]

theorem maxFrame_lt : maxFrame < 2 ^ 32 := by decide

theorem leNat_of_length (h : payload.length ≤ maxFrame) :
    leNat (leBytes 4 payload.length) = payload.length := by
  have := maxFrame_lt
  rw [leNat_leBytes, Nat.mod_eq_of_lt (by omega)]

/-- The lengths of a frame, off the front of what begins like it. -/
theorem lengths_of_prefix (hh : header.length ≤ maxFrame) (hp : payload.length ≤ maxFrame)
    (hc : c <+: frameBytes header payload ++ rest) (h8 : 8 ≤ c.length) :
    leNat ((c.take 8).take 4) = header.length ∧ leNat ((c.take 8).drop 4) = payload.length := by
  have h4 : (leBytes 4 header.length).length = 4 := length_leBytes 4 _
  have hlens : (leBytes 4 header.length ++ leBytes 4 payload.length).length = 8 := by simp
  have htake : c.take 8 = leBytes 4 header.length ++ leBytes 4 payload.length := by
    obtain ⟨t, ht⟩ := hc
    have h := congrArg (List.take 8) ht
    rw [List.take_append_of_le_length h8] at h
    rw [h, frameBytes, List.append_assoc, List.append_assoc, List.take_left' hlens]
  rw [htake, List.take_left' h4, List.drop_left' h4]
  exact ⟨leNat_of_length hh, leNat_of_length hp⟩

theorem drop_frameBytes : (frameBytes header payload ++ rest).drop 8 = header ++ (payload ++ rest) := by
  have hlens : (leBytes 4 header.length ++ leBytes 4 payload.length).length = 8 := by simp
  rw [frameBytes, List.append_assoc, List.append_assoc, List.drop_left' hlens]

end

namespace HeaderCodec

variable {M D : Type} {J : HeaderCodec M D} {header payload rest : List UInt8} {src : Bytes}
  {f : Frame M}

theorem readFrame_eof (h : Source.contents src = []) :
    ∃ src', J.readFrame src = .ok (none, src') ∧ Source.contents src' = [] := by
  refine ⟨(Source.fill 8 src).2, ?_, by rw [(Source.fill_contents 8 src).2, h]; rfl⟩
  rw [readFrame, readExactOrEof_of_contents, h]
  rfl

/-- The lengths of a frame at the front, and what comes after them. -/
theorem frame_front (hh : header.length ≤ maxFrame) (hp : payload.length ≤ maxFrame)
    (hc : Source.contents src = frameBytes header payload ++ rest) :
    8 ≤ (Source.contents src).length ∧
      leNat (((Source.contents src).take 8).take 4) = header.length ∧
      leNat (((Source.contents src).take 8).drop 4) = payload.length ∧
      Source.contents (Source.fill 8 src).2 = header ++ (payload ++ rest) := by
  have hlen : (Source.contents src).length = 8 + header.length + payload.length + rest.length := by
    rw [hc, List.length_append, length_frameBytes]
  have hfront : Source.contents src <+: frameBytes header payload ++ rest :=
    ⟨[], by rw [List.append_nil, hc]⟩
  obtain ⟨hl, hl'⟩ := lengths_of_prefix hh hp hfront (by omega)
  exact ⟨by omega, hl, hl', by rw [(Source.fill_contents 8 src).2, hc, drop_frameBytes]⟩

/-- A whole frame at the front is read, and nothing after it. -/
theorem readFrame_frame (hh : header.length ≤ maxFrame) (hp : payload.length ≤ maxFrame)
    (hf : J.fromSlice header = .ok f) (hk : f.Known)
    (hc : Source.contents src = frameBytes header payload ++ rest) :
    ∃ src', J.readFrame src = .ok (some (f, payload), src') ∧ Source.contents src' = rest := by
  obtain ⟨h8, hl, hl', hrest1⟩ := frame_front hh hp hc
  have hhead := readExact_front hrest1
  have hrest2 := Source.contents_fill_append hrest1
  have hpay := readExact_front hrest2
  obtain ⟨req, m, rfl⟩ := hk
  refine ⟨_, ?_, Source.contents_fill_append hrest2⟩
  rw [readFrame, readExactOrEof_of_contents, if_pos h8]
  simp only [bind, Except.bind, hl, hl']
  rw [if_neg (by omega)]
  simp only [hhead, hpay, hf, pure, Except.pure, Frame.new]

/-- The front of a frame, but not all of it, is an error. -/
theorem readFrame_cut (hh : header.length ≤ maxFrame) (hp : payload.length ≤ maxFrame)
    (hc : Source.contents src <+: frameBytes header payload)
    (hne : Source.contents src ≠ frameBytes header payload) (hpos : Source.contents src ≠ []) :
    ∃ e, J.readFrame src = .error e := by
  have hlt : (Source.contents src).length < 8 + header.length + payload.length := by
    refine Nat.lt_of_le_of_ne ?_ fun he => hne (hc.eq_of_length ?_)
    · rw [← length_frameBytes]
      exact hc.length_le
    · rw [he, length_frameBytes]
  rw [readFrame, readExactOrEof_of_contents]
  by_cases h8 : 8 ≤ (Source.contents src).length
  · have hc' : Source.contents src <+: frameBytes header payload ++ [] := by rwa [List.append_nil]
    obtain ⟨hl, hl'⟩ := lengths_of_prefix hh hp hc' h8
    have hlen1 : (Source.contents (Source.fill 8 src).2).length = (Source.contents src).length - 8 := by
      rw [(Source.fill_contents 8 src).2, List.length_drop]
    rw [if_pos h8]
    simp only [bind, Except.bind, hl, hl']
    rw [if_neg (by omega), readExact_of_contents]
    by_cases hhead : header.length ≤ (Source.contents (Source.fill 8 src).2).length
    · have hlen2 : (Source.contents (Source.fill header.length (Source.fill 8 src).2).2).length =
          (Source.contents src).length - 8 - header.length := by
        rw [(Source.fill_contents _ _).2, List.length_drop, hlen1]
      rw [if_pos hhead]
      simp only [pure, Except.pure]
      rw [readExact_of_contents, if_neg (by omega)]
      exact ⟨_, rfl⟩
    · rw [if_neg hhead]
      exact ⟨_, rfl⟩
  · rw [if_neg h8, if_neg hpos]
    exact ⟨_, rfl⟩

theorem readExact_weight {n : Nat} {v : List UInt8 × Bytes} (h : readExact n src = .ok v) :
    Source.weight v.2 ≤ Source.weight src := by
  have hw := Source.fill_weight n src
  rw [readExact] at h
  split at h
  · cases h
  · cases h
    omega

theorem recvExact_weight {n : Nat} {v : List UInt8 × Bytes} (h : recvExact n src = .ok v) :
    Source.weight v.2 + n ≤ Source.weight src := by
  have hw := Source.fill_weight n src
  rw [recvExact] at h
  split at h
  · cases h
  · cases h
    omega

theorem readFrame_weight {x : Frame M × List UInt8} {src' : Bytes}
    (h : J.readFrame src = .ok (some x, src')) : Source.weight src' < Source.weight src := by
  rw [readFrame, readExactOrEof_of_contents] at h
  split at h
  · next h8 =>
    have hw := Source.fill_weight 8 src
    rw [(Source.fill_contents 8 src).1, List.length_take, Nat.min_eq_left h8] at hw
    simp only [bind, Except.bind] at h
    split at h
    · cases h
    · split at h
      · cases h
      · next v1 hv1 =>
        simp only [pure, Except.pure] at h
        split at h
        · cases h
        · next v2 hv2 =>
          have hw1 := readExact_weight hv1
          have hw2 := readExact_weight hv2
          split at h
          · cases h
          · cases h
            omega
  · split at h <;> cases h

/-- `read_frame` again and again: what it returned, and how it ended. -/
def readAll (J : HeaderCodec M D) (src : Bytes) : List (Frame M × List UInt8) × Except IoError Unit :=
  match _h : J.readFrame src with
  | .error e => ([], .error e)
  | .ok (none, _) => ([], .ok ())
  | .ok (some x, src') => (x :: (readAll J src').1, (readAll J src').2)
termination_by Source.weight src
decreasing_by all_goals exact readFrame_weight _h

theorem readFrameFrom_weight {x : D × List UInt8} {sock sock' : Bytes}
    (h : J.readFrameFrom sock = .ok (x, sock')) : Source.weight sock' < Source.weight sock := by
  simp only [readFrameFrom, bind, Except.bind] at h
  split at h
  · cases h
  · next v1 hv1 =>
    split at h
    · cases h
    · next v2 hv2 =>
      split at h
      · cases h
      · split at h
        · cases h
        · next v3 hv3 =>
          cases h
          have hw1 := recvExact_weight hv1
          have hw2 := recvExact_weight hv2
          have hw3 := recvExact_weight hv3
          omega

/-- `read_frame_from` again and again, until it raises. -/
def readAllFrom (J : HeaderCodec M D) (sock : Bytes) : List (D × List UInt8) × ShimError :=
  match _h : J.readFrameFrom sock with
  | .error e => ([], e)
  | .ok (x, sock') => (x :: (readAllFrom J sock').1, (readAllFrom J sock').2)
termination_by Source.weight sock
decreasing_by all_goals exact readFrameFrom_weight _h

/-! ## Lists of frames -/

/-- The frames one after the other. -/
def written (J : HeaderCodec M D) (l : List (Frame M × List UInt8)) : List UInt8 :=
  l.flatMap fun x => J.writeFrame x.1 x.2

/-- The dicts one after the other, as the shim sends them. -/
def packed (J : HeaderCodec M D) (l : List (D × List UInt8)) : Except ShimError (List UInt8) :=
  l.foldrM (fun x bytes => (J.packFrame x.1 x.2).map (· ++ bytes)) []

/-- Each side reads the header either side writes for the frame. -/
structure RoundTrips (J : HeaderCodec M D) (f : Frame M) : Prop where
  rust : J.fromSlice (J.toVec f) = .ok f
  shim : J.loads (J.toVec f) = some (J.dict f)
  fromShim : J.fromSlice (J.dumps (J.dict f)) = .ok f

theorem writeFrame_eq (hh : (J.toVec f).length ≤ maxFrame) (hp : payload.length ≤ maxFrame) :
    J.writeFrame f payload = frameBytes (J.toVec f) payload := by
  have hmax := maxFrame_lt
  rw [writeFrame, asU32, asU32, Nat.mod_eq_of_lt (by omega), Nat.mod_eq_of_lt (by omega)]
  rfl

theorem packFrame_eq {d : D} (hh : (J.dumps d).length ≤ maxFrame) (hp : payload.length ≤ maxFrame) :
    J.packFrame d payload = .ok (frameBytes (J.dumps d) payload) := by
  have hmax := maxFrame_lt
  rw [packFrame, if_neg (by omega)]
  rfl

/-- The frames under some encoding of the headers that `read_frame` reads back. -/
structure Readable (J : HeaderCodec M D) (enc : Frame M → List UInt8) (x : Frame M × List UInt8) :
    Prop where
  header : (enc x.1).length ≤ maxFrame
  payload : x.2.length ≤ maxFrame
  known : x.1.Known
  back : J.fromSlice (enc x.1) = .ok x.1

variable {enc : Frame M → List UInt8} {l : List (Frame M × List UInt8)}

theorem readAll_eof (h : Source.contents src = []) : J.readAll src = ([], .ok ()) := by
  obtain ⟨src', hr, -⟩ := readFrame_eof (J := J) h
  rw [readAll]
  split <;> simp_all

theorem readAll_error {e : IoError} (h : J.readFrame src = .error e) :
    J.readAll src = ([], .error e) := by
  rw [readAll]
  split <;> simp_all

theorem readAll_cons {x : Frame M × List UInt8} {src' : Bytes}
    (h : J.readFrame src = .ok (some x, src')) :
    J.readAll src = (x :: (J.readAll src').1, (J.readAll src').2) := by
  rw [readAll]
  split
  · next heq => rw [h] at heq; cases heq
  · next heq => rw [h] at heq; cases heq
  · next heq =>
    rw [h] at heq
    cases heq
    rfl

/-- However the stream is cut, the frames on it are the ones read. -/
theorem readAll_frames (h : ∀ x ∈ l, J.Readable enc x)
    (hc : Source.contents src = l.flatMap fun x => frameBytes (enc x.1) x.2) :
    J.readAll src = (l, .ok ()) := by
  induction l generalizing src with
  | nil => exact readAll_eof hc
  | cons x rest ih =>
    have hx := h x List.mem_cons_self
    rw [List.flatMap_cons] at hc
    obtain ⟨src', hr, hrest⟩ := readFrame_frame hx.header hx.payload hx.back hx.known hc
    rw [readAll_cons hr, ih (fun y hy => h y (List.mem_cons_of_mem _ hy)) hrest]

/-- A stream that stops short gives the frames it has whole, and then the end when it stops between
two frames, and an error when it stops inside one. -/
theorem readAll_cut (h : ∀ x ∈ l, J.Readable enc x)
    (hc : Source.contents src <+: l.flatMap fun x => frameBytes (enc x.1) x.2)
    (hne : Source.contents src ≠ l.flatMap fun x => frameBytes (enc x.1) x.2) :
    ∃ done x rest q, l = done ++ x :: rest ∧
      Source.contents src = (done.flatMap fun x => frameBytes (enc x.1) x.2) ++ q ∧
      q <+: frameBytes (enc x.1) x.2 ∧ q ≠ frameBytes (enc x.1) x.2 ∧
      (J.readAll src).1 = done ∧ ((J.readAll src).2 = .ok () ↔ q = []) := by
  induction l generalizing src with
  | nil => exact absurd (List.prefix_nil.mp hc) hne
  | cons x rest ih =>
    have hx := h x List.mem_cons_self
    rw [List.flatMap_cons] at hc hne
    rcases List.prefix_or_prefix_of_prefix hc (List.prefix_append _ _) with hshort | hlong
    · by_cases hwhole : Source.contents src = frameBytes (enc x.1) x.2
      · -- The first frame is there, and nothing else.
        have hfirst : Source.contents src = frameBytes (enc x.1) x.2 ++ [] := by
          rw [hwhole, List.append_nil]
        obtain ⟨src', hr, hrest⟩ := readFrame_frame hx.header hx.payload hx.back hx.known hfirst
        have hne' : Source.contents src' ≠ rest.flatMap fun x => frameBytes (enc x.1) x.2 := by
          intro he
          rw [← he, hrest] at hne
          exact hne hfirst
        have hc' : Source.contents src' <+: rest.flatMap fun x => frameBytes (enc x.1) x.2 := by
          rw [hrest]
          exact List.nil_prefix
        obtain ⟨done, y, rest', q, hl, hsplit, hq, hqne, hdone, hend⟩ :=
          ih (fun y hy => h y (List.mem_cons_of_mem _ hy)) hc' hne'
        refine ⟨x :: done, y, rest', q, by rw [hl]; rfl, ?_, hq, hqne, ?_, ?_⟩
        · rw [List.flatMap_cons, List.append_assoc, ← hsplit, hrest]
          exact hfirst
        · rw [readAll_cons hr, hdone]
        · rw [readAll_cons hr]
          exact hend
      · refine ⟨[], x, rest, Source.contents src, rfl, rfl, hshort, hwhole, ?_⟩
        by_cases hnil : Source.contents src = []
        · rw [readAll_eof hnil]
          exact ⟨rfl, iff_of_true rfl hnil⟩
        · obtain ⟨e, hr⟩ := readFrame_cut (J := J) hx.header hx.payload hshort hwhole hnil
          rw [readAll_error hr]
          exact ⟨rfl, iff_of_false (fun he => by cases he) hnil⟩
    · obtain ⟨p, hp⟩ := hlong
      rw [← hp] at hc hne
      obtain ⟨src', hr, hrest⟩ := readFrame_frame hx.header hx.payload hx.back hx.known hp.symm
      have hc' : Source.contents src' <+: rest.flatMap fun x => frameBytes (enc x.1) x.2 := by
        rw [hrest]
        exact (List.prefix_append_right_inj _).mp hc
      have hne' : Source.contents src' ≠ rest.flatMap fun x => frameBytes (enc x.1) x.2 := by
        rw [hrest]
        exact fun he => hne (by rw [he])
      obtain ⟨done, y, rest', q, hl, hsplit, hq, hqne, hdone, hend⟩ :=
        ih (fun y hy => h y (List.mem_cons_of_mem _ hy)) hc' hne'
      refine ⟨x :: done, y, rest', q, by rw [hl]; rfl, ?_, hq, hqne, ?_, ?_⟩
      · rw [List.flatMap_cons, List.append_assoc, ← hsplit, hrest, hp]
      · rw [readAll_cons hr, hdone]
      · rw [readAll_cons hr]
        exact hend

theorem readFrameFrom_frame {d : D} {sock : Bytes} (hh : header.length ≤ maxFrame)
    (hp : payload.length ≤ maxFrame) (hd : J.loads header = some d)
    (hc : Source.contents sock = frameBytes header payload ++ rest) :
    ∃ sock', J.readFrameFrom sock = .ok ((d, payload), sock') ∧ Source.contents sock' = rest := by
  obtain ⟨h8, hl, hl', hrest1⟩ := frame_front hh hp hc
  have hhead := recvExact_front hrest1
  have hrest2 := Source.contents_fill_append hrest1
  have hpay := recvExact_front hrest2
  refine ⟨_, ?_, Source.contents_fill_append hrest2⟩
  rw [readFrameFrom, recvExact_of_contents, if_pos h8]
  simp only [bind, Except.bind, hl, hl', hhead, hpay, hd, pure, Except.pure]

theorem readAllFrom_frames (h : ∀ x ∈ l, (enc x.1).length ≤ maxFrame ∧ x.2.length ≤ maxFrame ∧
    J.loads (enc x.1) = some (J.dict x.1))
    (hc : Source.contents src = l.flatMap fun x => frameBytes (enc x.1) x.2) :
    J.readAllFrom src = (l.map fun x => (J.dict x.1, x.2),
      .connection "mentat daemon closed the connection") := by
  induction l generalizing src with
  | nil =>
    have hr : J.readFrameFrom src = .error (.connection "mentat daemon closed the connection") := by
      rw [readFrameFrom, recvExact_of_contents, hc]
      rfl
    rw [readAllFrom]
    split <;> simp_all
  | cons x rest ih =>
    obtain ⟨hh, hp, hd⟩ := h x List.mem_cons_self
    rw [List.flatMap_cons] at hc
    obtain ⟨src', hr, hrest⟩ := readFrameFrom_frame hh hp hd hc
    have htail := ih (fun y hy => h y (List.mem_cons_of_mem _ hy)) hrest
    rw [readAllFrom]
    split
    · next heq => rw [hr] at heq; cases heq
    · next heq =>
      rw [hr] at heq
      cases heq
      rw [htail]
      rfl

theorem written_eq (h : ∀ x ∈ l, (J.toVec x.1).length ≤ maxFrame ∧ x.2.length ≤ maxFrame) :
    J.written l = l.flatMap fun x => frameBytes (J.toVec x.1) x.2 :=
  List.flatMap_congr fun x hx => writeFrame_eq (h x hx).1 (h x hx).2

theorem packed_eq (h : ∀ x ∈ l, (J.dumps (J.dict x.1)).length ≤ maxFrame ∧ x.2.length ≤ maxFrame) :
    J.packed (l.map fun x => (J.dict x.1, x.2)) =
      .ok (l.flatMap fun x => frameBytes (J.dumps (J.dict x.1)) x.2) := by
  induction l with
  | nil => rfl
  | cons x rest ih =>
    obtain ⟨hh, hp⟩ := h x List.mem_cons_self
    have htail := ih fun y hy => h y (List.mem_cons_of_mem _ hy)
    rw [packed] at htail ⊢
    rw [List.map_cons, List.foldrM_cons, htail]
    simp only [bind, Except.bind, packFrame_eq hh hp]
    rfl

end HeaderCodec

/-- Frames of known types, as `write_frame` puts them on a stream: however it is cut into reads, they
are read back and then comes the end, and of a stream that stops short the frames that are whole,
and then the end or, inside a frame, an error. The shim reads them as well, and `read_frame` what the
shim packs for the same frames. -/
theorem frames_round_trip {M D : Type} (J : HeaderCodec M D) (l : List (Frame M × List UInt8))
    (hknown : ∀ x ∈ l, x.1.Known) (hcodec : ∀ x ∈ l, J.RoundTrips x.1)
    (hlen : ∀ x ∈ l, (J.toVec x.1).length ≤ maxFrame ∧ x.2.length ≤ maxFrame) :
    (∀ src, Source.contents src = J.written l → J.readAll src = (l, .ok ())) ∧
    (∀ src, Source.contents src <+: J.written l → Source.contents src ≠ J.written l →
      ∃ done x rest q, l = done ++ x :: rest ∧ Source.contents src = J.written done ++ q ∧
        q <+: J.writeFrame x.1 x.2 ∧ q ≠ J.writeFrame x.1 x.2 ∧
        (J.readAll src).1 = done ∧ ((J.readAll src).2 = .ok () ↔ q = [])) ∧
    (∀ sock, Source.contents sock = J.written l →
      J.readAllFrom sock = (l.map fun x => (J.dict x.1, x.2),
        .connection "mentat daemon closed the connection")) ∧
    ((∀ x ∈ l, (J.dumps (J.dict x.1)).length ≤ maxFrame) →
      ∃ bytes, J.packed (l.map fun x => (J.dict x.1, x.2)) = .ok bytes ∧
        ∀ src, Source.contents src = bytes → J.readAll src = (l, .ok ())) := by
  have hreadable : ∀ x ∈ l, J.Readable J.toVec x := fun x hx =>
    ⟨(hlen x hx).1, (hlen x hx).2, hknown x hx, (hcodec x hx).rust⟩
  refine ⟨fun src hc => ?_, fun src hc hne => ?_, fun sock hc => ?_, fun hdumps => ?_⟩
  · rw [J.written_eq hlen] at hc
    exact J.readAll_frames hreadable hc
  · rw [J.written_eq hlen] at hc hne
    obtain ⟨done, x, rest, q, rfl, hsplit, hq, hqne, hdone, hend⟩ := J.readAll_cut hreadable hc hne
    have hx := hlen x (by simp)
    refine ⟨done, x, rest, q, rfl, ?_, ?_, ?_, hdone, hend⟩
    · rw [J.written_eq fun y hy => hlen y (by simp [hy])]
      exact hsplit
    · rwa [HeaderCodec.writeFrame_eq hx.1 hx.2]
    · rwa [HeaderCodec.writeFrame_eq hx.1 hx.2]
  · rw [J.written_eq hlen] at hc
    exact J.readAllFrom_frames (fun x hx => ⟨(hlen x hx).1, (hlen x hx).2, (hcodec x hx).shim⟩) hc
  · refine ⟨_, J.packed_eq fun x hx => ⟨hdumps x hx, (hlen x hx).2⟩, fun src hc => ?_⟩
    have hshim : ∀ x ∈ l, J.Readable (fun f => J.dumps (J.dict f)) x := fun x hx =>
      ⟨hdumps x hx, (hlen x hx).2, hknown x hx, (hcodec x hx).fromShim⟩
    exact J.readAll_frames hshim hc

namespace Sample

/-- A ping and its answer. -/
def pings : List (Frame String × List UInt8) :=
  [(.new 7 (.known "ping"), []), (.new 0 (.known "ok"), [80, 65, 89])]

/-- Reads and writes headers of that shape, with or without Python's blanks. -/
def pingCodec : HeaderCodec String (UInt64 × String) where
  toVec f := match f.msg with
    | .known m => utf8 ("\x7b\"req\":" ++ toString f.req.toNat ++ ",\"t\":\"" ++ m ++ "\"\x7d").toList
    | .unknown => []
  fromSlice header :=
    if header = utf8 "\x7b\"req\":7,\"t\":\"ping\"\x7d".toList ∨
        header = utf8 "\x7b\"req\": 7, \"t\": \"ping\"\x7d".toList then .ok (.new 7 (.known "ping"))
    else if header = utf8 "\x7b\"req\":0,\"t\":\"ok\"\x7d".toList ∨
        header = utf8 "\x7b\"req\": 0, \"t\": \"ok\"\x7d".toList then .ok (.new 0 (.known "ok"))
    else .error "expected value at line 1 column 1"
  tag _ := none
  dict f := (f.req, match f.msg with
    | .known m => m
    | .unknown => "")
  dumps d := utf8 ("\x7b\"req\": " ++ toString d.1.toNat ++ ", \"t\": \"" ++ d.2 ++ "\"\x7d").toList
  loads header :=
    if header = utf8 "\x7b\"req\":7,\"t\":\"ping\"\x7d".toList then some (7, "ping")
    else if header = utf8 "\x7b\"req\":0,\"t\":\"ok\"\x7d".toList then some (0, "ok")
    else none

/-- An interruption, five bytes, another, and the rest. -/
def cutUp (bytes : List UInt8) : Bytes :=
  .paused :: Source.push (bytes.take 5) (.paused :: Source.push (bytes.drop 5) [])

theorem contents_cutUp (bytes : List UInt8) : Source.contents (cutUp bytes) = bytes := by
  simp [cutUp, Source.contents]

end Sample

theorem frames_round_trip_pings :
    Sample.pingCodec.readAll (Sample.cutUp (Sample.pingCodec.written Sample.pings)) =
      (Sample.pings, .ok ()) := by
  have hping : Sample.pingCodec.RoundTrips (.new 7 (.known "ping")) := by
    constructor <;> decide +kernel
  have hok : Sample.pingCodec.RoundTrips (.new 0 (.known "ok")) := by
    constructor <;> decide +kernel
  refine (frames_round_trip Sample.pingCodec Sample.pings ?_ ?_ ?_).1 _ (Sample.contents_cutUp _)
  · intro x hx
    rcases List.mem_pair.mp hx with rfl | rfl
    · exact ⟨7, "ping", rfl⟩
    · exact ⟨0, "ok", rfl⟩
  · intro x hx
    rcases List.mem_pair.mp hx with rfl | rfl
    · exact hping
    · exact hok
  · intro x hx
    rcases List.mem_pair.mp hx with rfl | rfl <;> decide +kernel

end Mentat
