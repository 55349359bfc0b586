import Mentat.Lib.Bytes
import Mentat.Lib.Source

/-!
# The event stream's frames

`http.rs`, `ws_send_text` and the pings of `websocket_events`, and the router's reader, `ws.rs`. A
frame is an opcode, a length in one of three forms, and the payload. The reader keeps what it has not
parsed in a buffer. A read that runs into the tick is a pause of the source.

`events_round_trip`: the texts come out as they went in.
-/

namespace Mentat

/-! ## The daemon's side -/

/-- What `websocket_events` writes. -/
inductive Sent where
  | text (s : String)
  | ping

/-- FIN and the text opcode, and the length in as many bytes as it needs. -/
def wsHeader (n : Nat) : List UInt8 :=
  if n < 126 then [0x81, UInt8.ofNat n]
  else if n ≤ 0xFFFF then 0x81 :: 126 :: beBytes 2 n
  else 0x81 :: 127 :: beBytes 8 n

def wsSendText (text : String) : List UInt8 :=
  wsHeader (utf8 text.toList).length ++ utf8 text.toList

def Sent.bytes : Sent → List UInt8
  | .text s => wsSendText s
  | .ping => [0x89, 0x00]

/-! ## The router's side -/

def maxWsFrame : Nat := 64 * 1024 * 1024

structure EventStream where
  buf : List UInt8
  src : List (Piece UInt8)

/-- The length of the payload, and where it starts. None when it is not all there. -/
def frameLength (b : List UInt8) (len : UInt8) : Option (Nat × Nat) :=
  if len = 126 then if b.length < 4 then none else some (beNat ((b.drop 2).take 2), 4)
  else if len = 127 then if b.length < 10 then none else some (beNat ((b.drop 2).take 8), 10)
  else some (len.toNat, 2)

/-- A whole frame off the buffer: its opcode, its payload and what is left. -/
def tryParse : List UInt8 → Except IoError (Option ((UInt8 × List UInt8) × List UInt8))
  | b0 :: b1 :: l =>
    if b1 &&& 0x80 ≠ 0 then .error ⟨.invalidData, "masked server frame"⟩
    else match frameLength (b0 :: b1 :: l) (b1 &&& 0x7F) with
      | none => .ok none
      | some (len, off) =>
        if maxWsFrame < len then .error ⟨.invalidData, s!"frame of {len} bytes"⟩
        else if (b0 :: b1 :: l).length < off + len then .ok none
        else .ok (some ((b0 &&& 0x0F, ((b0 :: b1 :: l).take (off + len)).drop off),
          (b0 :: b1 :: l).drop (off + len)))
  | _ => .ok none

theorem frameLength_off {b : List UInt8} {len : UInt8} {n off : Nat}
    (h : frameLength b len = some (n, off)) : 2 ≤ off := by
  simp only [frameLength] at h
  split at h
  · split at h
    · cases h
    · cases h
      decide
  · split at h
    · split at h
      · cases h
      · cases h
        decide
    · cases h
      exact Nat.le_refl _

theorem tryParse_shorter {b rest : List UInt8} {x : UInt8 × List UInt8}
    (h : tryParse b = .ok (some (x, rest))) : rest.length < b.length := by
  unfold tryParse at h
  split at h
  · next b0 b1 l =>
    split at h
    · cases h
    · split at h
      · cases h
      · next len off hlen =>
        have hoff := frameLength_off hlen
        split at h
        · cases h
        · split at h
          · cases h
          · cases h
            rw [List.length_drop]
            simp only [List.length_cons]
            omega
  · cases h

/-- What is whole in the buffer, up to the first text. -/
def parseBuf (buf : List UInt8) : Except IoError (Option String × List UInt8) :=
  match _h : tryParse buf with
  | .error e => .error e
  | .ok none => .ok (none, buf)
  | .ok (some ((op, payload), rest)) =>
    if op = 0x1 then .ok (some (String.ofList (fromUtf8Lossy payload)), rest)
    else if op = 0x8 then .error ⟨.connectionAborted, "daemon closed the websocket"⟩
    else parseBuf rest
termination_by buf.length
decreasing_by exact tryParse_shorter _h

namespace EventStream

/-- The next text, or none once the tick has come. -/
def next (es : EventStream) : Except IoError (Option String × EventStream) :=
  match parseBuf es.buf with
  | .error e => .error e
  | .ok (some text, rest) => .ok (some text, ⟨rest, es.src⟩)
  | .ok (none, rest) =>
    match _h : Source.read 65536 es.src with
    | (.paused, src') => .ok (none, ⟨rest, src'⟩)
    | (.got [], _) => .error ⟨.unexpectedEof, "websocket EOF"⟩
    | (.got (b :: l), src') => next ⟨rest ++ b :: l, src'⟩
termination_by Source.weight es.src
decreasing_by
  have := Source.read_weight _h
  simp only [List.length_cons] at this
  omega

end EventStream

/-! ## A buffer that holds the front of what was written -/

theorem small_length (n : Nat) (h : n < 126) :
    UInt8.ofNat n &&& 0x80 = 0 ∧ UInt8.ofNat n &&& 0x7F = UInt8.ofNat n ∧ UInt8.ofNat n ≠ 126 ∧
      UInt8.ofNat n ≠ 127 ∧ (UInt8.ofNat n).toNat = n := by
  have htable : ∀ i : Fin 126, UInt8.ofNat i &&& 0x80 = 0 ∧
      UInt8.ofNat i &&& 0x7F = UInt8.ofNat i ∧ UInt8.ofNat i ≠ 126 ∧ UInt8.ofNat i ≠ 127 ∧
      (UInt8.ofNat i).toNat = i := by decide
  exact htable ⟨n, h⟩

/-- The bytes of the length, off the front of what begins like a header. -/
theorem beNat_prefixed {k n : Nat} {a b : UInt8} {l t : List UInt8} (hn : n < 256 ^ k)
    (hl : l <+: beBytes k n ++ t) (hk : k ≤ l.length) :
    beNat (((a :: b :: l).drop 2).take k) = n := by
  have htake : l.take k = beBytes k n := by
    obtain ⟨r, hr⟩ := hl
    have h := congrArg (List.take k) hr
    rwa [List.take_append_of_le_length hk, List.take_left' (length_beBytes k n)] at h
  rw [show (a :: b :: l).drop 2 = l from rfl, htake, beNat_beBytes, Nat.mod_eq_of_lt hn]

theorem frameLength_of_prefix {n : Nat} {b0 b1 : UInt8} {l t : List UInt8} (hn : n < 2 ^ 64)
    (hc : b0 :: b1 :: l <+: wsHeader n ++ t) :
    b0 = 0x81 ∧ b1 &&& 0x80 = 0 ∧ frameLength (b0 :: b1 :: l) (b1 &&& 0x7F) =
      if (b0 :: b1 :: l).length < (wsHeader n).length then none
      else some (n, (wsHeader n).length) := by
  rw [wsHeader] at hc ⊢
  split
  · next hsmall =>
    rw [if_pos hsmall, List.cons_append, List.cons_append, List.cons_prefix_cons,
      List.cons_prefix_cons] at hc
    obtain ⟨rfl, rfl, -⟩ := hc
    obtain ⟨hmask, hlow, h126, h127, hval⟩ := small_length n hsmall
    refine ⟨rfl, hmask, ?_⟩
    rw [frameLength, hlow, if_neg h126, if_neg h127, hval, if_neg (by simp)]
    rfl
  · next hsmall =>
    rw [if_neg hsmall] at hc
    split
    · next hmid =>
      rw [if_pos hmid, List.cons_append, List.cons_append, List.cons_prefix_cons,
        List.cons_prefix_cons] at hc
      obtain ⟨rfl, rfl, hl⟩ := hc
      refine ⟨rfl, by decide, ?_⟩
      rw [frameLength, if_pos (by decide)]
      simp only [List.length_cons, length_beBytes]
      split
      · rfl
      · rw [beNat_prefixed (by omega) hl (by omega)]
    · next hmid =>
      rw [if_neg hmid, List.cons_append, List.cons_append, List.cons_prefix_cons,
        List.cons_prefix_cons] at hc
      obtain ⟨rfl, rfl, hl⟩ := hc
      refine ⟨rfl, by decide, ?_⟩
      rw [frameLength, if_neg (by decide), if_pos (by decide)]
      simp only [List.length_cons, length_beBytes]
      split
      · rfl
      · rw [beNat_prefixed (by omega) hl (by omega)]

namespace Sent

def op : Sent → UInt8
  | .text _ => 0x1
  | .ping => 0x9

def payload : Sent → List UInt8
  | .text s => utf8 s.toList
  | .ping => []

/-- The text is no longer than a frame may be. -/
def Fits (x : Sent) : Prop := x.payload.length ≤ maxWsFrame

end Sent

theorem two_le_wsHeader (n : Nat) : 2 ≤ (wsHeader n).length := by
  unfold wsHeader
  split
  · exact Nat.le_refl _
  · split <;> simp

theorem two_le_bytes (x : Sent) : 2 ≤ x.bytes.length := by
  cases x with
  | text s =>
    have := two_le_wsHeader (utf8 s.toList).length
    rw [Sent.bytes, wsSendText, List.length_append]
    omega
  | ping => exact Nat.le_refl _

/-- A buffer that begins like a frame is parsed as that frame as soon as it has all of it. -/
theorem tryParse_of_prefix {x : Sent} {buf t : List UInt8} (hx : x.Fits) (hb : buf <+: x.bytes ++ t) :
    tryParse buf = if buf.length < x.bytes.length then .ok none
      else .ok (some ((x.op, x.payload), buf.drop x.bytes.length)) := by
  have htwo := two_le_bytes x
  match buf with
  | [] => rw [if_pos (by simp only [List.length_nil]; omega), tryParse]; simp
  | [b] => rw [if_pos (by simp only [List.length_cons, List.length_nil]; omega), tryParse]; simp
  | b0 :: b1 :: l =>
    cases x with
    | ping =>
      rw [Sent.bytes, List.cons_append, List.cons_append, List.cons_prefix_cons,
        List.cons_prefix_cons] at hb
      obtain ⟨rfl, rfl, -⟩ := hb
      have hop : (0x89 : UInt8) &&& 0x0F = 9 := by decide
      have hlong : ¬ l.length + 1 + 1 < 2 := by omega
      rw [Sent.bytes, if_neg (by simp)]
      simp [tryParse, frameLength, maxWsFrame, Sent.op, Sent.payload, hop, hlong]
    | text s =>
      have hn : (utf8 s.toList).length ≤ maxWsFrame := hx
      have hlt : maxWsFrame < 2 ^ 64 := by decide
      have hb' : b0 :: b1 :: l <+: wsHeader (utf8 s.toList).length ++ (utf8 s.toList ++ t) := by
        rwa [Sent.bytes, wsSendText, List.append_assoc] at hb
      obtain ⟨rfl, hmask, hlen⟩ := frameLength_of_prefix (by omega) hb'
      have htotal : (Sent.text s).bytes.length =
          (wsHeader (utf8 s.toList).length).length + (utf8 s.toList).length := by
        rw [Sent.bytes, wsSendText, List.length_append]
      rw [tryParse, if_neg (not_not.mpr hmask), hlen, htotal]
      by_cases hhead : (0x81 :: b1 :: l).length < (wsHeader (utf8 s.toList).length).length
      · rw [if_pos hhead, if_pos (by omega)]
      · rw [if_neg hhead]
        simp only [Nat.not_lt.mpr hn, if_false]
        split
        · rfl
        · next hall =>
          have htake : ((0x81 :: b1 :: l).take ((wsHeader (utf8 s.toList).length).length +
              (utf8 s.toList).length)) = wsHeader (utf8 s.toList).length ++ utf8 s.toList := by
            obtain ⟨r, hr⟩ := hb'
            have h := congrArg (List.take ((wsHeader (utf8 s.toList).length).length +
              (utf8 s.toList).length)) hr
            rwa [List.take_append_of_le_length (by omega), ← List.append_assoc,
              List.take_left' (by rw [List.length_append])] at h
          rw [htake, List.drop_left]
          rfl

/-! ## Whole streams -/

/-- What was written, one frame after the other. -/
def stream (sent : List Sent) : List UInt8 := sent.flatMap Sent.bytes

def textsOf : List Sent → List String
  | [] => []
  | .text s :: rest => s :: textsOf rest
  | .ping :: rest => textsOf rest

theorem stream_cons (x : Sent) (rest : List Sent) : stream (x :: rest) = x.bytes ++ stream rest := by
  rw [stream, List.flatMap_cons]
  rfl

/-- Parsing goes on to the first text, or to where the buffer ends: inside a frame, or at the end of
the stream. `c` is what has not come yet. -/
theorem parseBuf_stream {sent : List Sent} {buf c : List UInt8} (hfit : ∀ x ∈ sent, x.Fits)
    (h : buf ++ c = stream sent) :
    ∃ rest sent', (∀ x ∈ sent', x.Fits) ∧ rest ++ c = stream sent' ∧
      ((∃ s, parseBuf buf = .ok (some s, rest) ∧ textsOf sent = s :: textsOf sent') ∨
        (parseBuf buf = .ok (none, rest) ∧ textsOf sent = textsOf sent' ∧ (c = [] → sent' = []))) := by
  induction sent generalizing buf with
  | nil =>
    obtain ⟨rfl, rfl⟩ := List.append_eq_nil_iff.mp h
    refine ⟨[], [], hfit, rfl, .inr ⟨?_, rfl, fun _ => rfl⟩⟩
    rw [parseBuf]
    simp [tryParse]
  | cons x sent ih =>
    have hx := hfit x List.mem_cons_self
    have hrest : ∀ y ∈ sent, y.Fits := fun y hy => hfit y (List.mem_cons_of_mem _ hy)
    rw [stream_cons] at h
    have hparse := tryParse_of_prefix hx ⟨c, h⟩
    by_cases hshort : buf.length < x.bytes.length
    · rw [if_pos hshort] at hparse
      refine ⟨buf, x :: sent, hfit, by rw [stream_cons, h], .inr ⟨?_, rfl, fun hc => ?_⟩⟩
      · rw [parseBuf]
        split <;> simp_all
      · -- All of it has come, the frame is not whole.
        have hlen := congrArg List.length h
        rw [hc, List.append_nil, List.length_append] at hlen
        omega
    · rw [if_neg hshort] at hparse
      have hdrop : buf.drop x.bytes.length ++ c = stream sent := by
        have h' := congrArg (List.drop x.bytes.length) h
        rwa [List.drop_left, List.drop_append_of_le_length (by omega)] at h'
      cases x with
      | text s =>
        refine ⟨_, sent, hrest, hdrop, .inl ⟨s, ?_, rfl⟩⟩
        rw [parseBuf]
        split
        · next heq => rw [hparse] at heq; cases heq
        · next heq => rw [hparse] at heq; cases heq
        · next heq =>
          rw [hparse] at heq
          cases heq
          simp [Sent.op, Sent.payload]
      | ping =>
        have hstep : parseBuf buf = parseBuf (buf.drop (Sent.ping).bytes.length) := by
          rw [parseBuf]
          split
          · next heq => rw [hparse] at heq; cases heq
          · next heq => rw [hparse] at heq; cases heq
          · next heq =>
            rw [hparse] at heq
            cases heq
            rw [if_neg (by decide), if_neg (by decide)]
        rw [hstep]
        exact ih hrest hdrop

theorem parseBuf_length {buf rest : List UInt8} {r : Option String} (h : parseBuf buf = .ok (r, rest)) :
    rest.length + (if r.isSome then 1 else 0) ≤ buf.length := by
  fun_induction parseBuf buf with
  | case1 buf e he => cases h
  | case2 buf hn =>
    cases h
    simp
  | case3 buf payload rest' hx =>
    cases h
    exact tryParse_shorter hx
  | case4 buf payload rest' hx hop => cases h
  | case5 buf op payload rest' hx hop hclose ih =>
    have := tryParse_shorter hx
    have := ih h
    omega

namespace EventStream

variable {es es' : EventStream}

/-- What there is to parse and to come. -/
def size (es : EventStream) : Nat := es.buf.length + Source.weight es.src

theorem next_size {r : Option String} (h : es.next = .ok (r, es')) : es'.size < es.size := by
  fun_induction next es with
  | case1 es e he => cases h
  | case2 es text rest hp =>
    cases h
    have := parseBuf_length hp
    simp only [Option.isSome_some, if_true] at this
    simp only [size]
    omega
  | case3 es rest hp src' hr =>
    cases h
    have hlen := parseBuf_length hp
    have hw := (Source.read_paused hr).2
    simp only [size]
    omega
  | case4 es rest hp src' hr => cases h
  | case5 es rest hp b l src' hr ih =>
    have hlen := parseBuf_length hp
    have hw := Source.read_weight hr
    have hlt := ih h
    simp only [size, List.length_append] at hlt ⊢
    omega

/-- `next` again and again: the texts, and the error it ends with. -/
def texts (es : EventStream) : List String × IoError :=
  match _h : es.next with
  | .error e => ([], e)
  | .ok (some s, es') => (s :: (texts es').1, (texts es').2)
  | .ok (none, es') => texts es'
termination_by es.size
decreasing_by all_goals exact next_size _h

/-- What `next` does on a stream of frames. -/
theorem next_stream {sent : List Sent} (hfit : ∀ x ∈ sent, x.Fits)
    (h : es.buf ++ Source.contents es.src = stream sent) :
    (es.next = .error ⟨.unexpectedEof, "websocket EOF"⟩ ∧ textsOf sent = []) ∨
    ∃ r es' sent', es.next = .ok (r, es') ∧ (∀ x ∈ sent', x.Fits) ∧
      es'.buf ++ Source.contents es'.src = stream sent' ∧
      textsOf sent = r.toList ++ textsOf sent' := by
  fun_induction next es generalizing sent with
  | case1 es e he =>
    obtain ⟨rest, sent', -, -, ⟨s, hp, -⟩ | ⟨hp, -⟩⟩ := parseBuf_stream hfit h <;>
      rw [he] at hp <;> cases hp
  | case2 es text rest' hp =>
    obtain ⟨rest, sent', hfit', hrest, ⟨s, hp', htexts⟩ | ⟨hp', -⟩⟩ := parseBuf_stream hfit h
    · rw [hp] at hp'
      cases hp'
      exact .inr ⟨_, _, sent', rfl, hfit', hrest, htexts⟩
    · rw [hp] at hp'
      cases hp'
  | case3 es rest' hp src' hr =>
    obtain ⟨rest, sent', hfit', hrest, ⟨s, hp', -⟩ | ⟨hp', htexts, -⟩⟩ := parseBuf_stream hfit h
    · rw [hp] at hp'
      cases hp'
    · rw [hp] at hp'
      cases hp'
      refine .inr ⟨_, _, sent', rfl, hfit', ?_, htexts⟩
      rw [(Source.read_paused hr).1]
      exact hrest
  | case4 es rest' hp src' hr =>
    obtain ⟨rest, sent', hfit', hrest, ⟨s, hp', -⟩ | ⟨hp', htexts, hend⟩⟩ := parseBuf_stream hfit h
    · rw [hp] at hp'
      cases hp'
    · obtain ⟨hsrc, -⟩ := Source.read_nil (by decide) hr
      rw [htexts, hend (by rw [hsrc]; rfl)]
      exact .inl ⟨rfl, rfl⟩
  | case5 es rest' hp b l src' hr ih =>
    obtain ⟨rest, sent', hfit', hrest, ⟨s, hp', -⟩ | ⟨hp', htexts, -⟩⟩ := parseBuf_stream hfit h
    · rw [hp] at hp'
      cases hp'
    · rw [hp] at hp'
      cases hp'
      rw [htexts]
      refine ih hfit' ?_
      rw [List.append_assoc, (Source.read_got hr).1]
      exact hrest

end EventStream

/-- Texts of at most 64 MiB and pings, however they are cut into reads and ticks, and however much of
them came with the handshake: the texts come out in order, each once, and the only error is the
stream's end. -/
theorem events_round_trip (sent : List Sent) (hfit : ∀ s, Sent.text s ∈ sent →
    (utf8 s.toList).length ≤ 64 * 1024 * 1024) (es : EventStream)
    (h : es.buf ++ Source.contents es.src = sent.flatMap Sent.bytes) :
    es.texts = (textsOf sent, ⟨.unexpectedEof, "websocket EOF"⟩) := by
  have hall : ∀ x ∈ sent, x.Fits := by
    intro x hx
    cases x with
    | text s => exact hfit s hx
    | ping => exact Nat.zero_le _
  clear hfit
  fun_induction EventStream.texts es generalizing sent with
  | case1 es e he =>
    obtain ⟨hn, hnil⟩ | ⟨r, es', sent', hn, -⟩ := EventStream.next_stream hall h
    · rw [he] at hn
      cases hn
      rw [hnil]
    · rw [he] at hn
      cases hn
  | case2 es s es1 hs ih =>
    obtain ⟨hn, -⟩ | ⟨r, es', sent', hn, hfit', hrest, htexts⟩ := EventStream.next_stream hall h
    · rw [hs] at hn
      cases hn
    · rw [hs] at hn
      cases hn
      rw [ih sent' hrest hfit', htexts]
      rfl
  | case3 es es1 hs ih =>
    obtain ⟨hn, -⟩ | ⟨r, es', sent', hn, hfit', hrest, htexts⟩ := EventStream.next_stream hall h
    · rw [hs] at hn
      cases hn
    · rw [hs] at hn
      cases hn
      rw [ih sent' hrest hfit', htexts]
      rfl

namespace Sample

/-- Two events and a ping between. -/
def twoEvents : List Sent := [.text "\x7b\"seq\":1\x7d", .ping, .text "é"]

/-- The first three bytes came with the handshake, then a tick, and the rest one by one. -/
def slowStream : EventStream where
  buf := (stream twoEvents).take 3
  src := .paused :: ((stream twoEvents).drop 3).map fun b => .some b []

end Sample

theorem events_round_trip_slowStream :
    Sample.slowStream.texts = (["\x7b\"seq\":1\x7d", "é"], ⟨.unexpectedEof, "websocket EOF"⟩) := by
  refine events_round_trip Sample.twoEvents ?_ Sample.slowStream (by decide +kernel)
  intro s hs
  simp only [Sample.twoEvents, List.mem_cons, Sent.text.injEq, reduceCtorEq, List.not_mem_nil,
    or_false, false_or] at hs
  rcases hs with rfl | rfl <;> decide +kernel

end Mentat
