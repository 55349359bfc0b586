import Mathlib.Data.List.DropRight
import Mentat.Router.Models
import Mentat.Router.Forms

/-!
# Forwarding a request

`proxy.rs`: how the router forwards a request to the group that serves its model. `dispatch` looks the
model up until the deadline, and waits while there is no route or the connection is refused. What a
look finds is not its own doing, so each comes with a `Look`: the tables and the clock then, and how an
attempt would end.

`dispatch_once` says what the upstreams see of a request, `dispatch_ends` when it ends and how, and
`keepalive_stream` what a client is sent that was answered before its upstream was. `answerTo_sent`
leads from what came in to what is sent.
-/

namespace Mentat.Proxy

/-! ## Where a request lands -/

def v1 : Text := "/v1".toList

def trimmed (base : Text) : Text := base.rdropWhile (· == '/')

/-- The announced base ends in `/v1`, and vLLM serves some endpoints there and others at the root. -/
def upstreamUrl (base tail : Text) : Text :=
  let base := trimmed base
  match base.dropSuffix? v1, tail.dropPrefix? v1 with
  | some _, some rest => base ++ rest
  | some root, none => root ++ tail
  | none, _ => base ++ tail

/-- The base with its `/v1` removed. -/
def rootOf (base : Text) : Text := ((trimmed base).dropSuffix? v1).getD (trimmed base)

/-- A path is always appended to the root, whichever of the two has the `/v1`. -/
theorem upstreamUrl_eq (base tail : Text) : upstreamUrl base tail = rootOf base ++ tail := by
  unfold upstreamUrl rootOf
  simp only
  split
  · next root rest hroot hrest =>
    obtain ⟨s, hbase, hs⟩ := List.dropSuffix?_eq_some_iff.mp hroot
    obtain ⟨p, htail, hp⟩ := List.dropPrefix?_eq_some_iff.mp hrest
    rw [hroot, hbase, htail, Option.getD_some, eq_of_beq hs, eq_of_beq hp, List.append_assoc]
  · next root hroot hrest => rw [hroot, Option.getD_some]
  · next hroot => rw [hroot, Option.getD_none]

/-! ## One request -/

structure SendError where
  msg : String
  /-- The connection was refused or unreachable. Nothing was sent. -/
  connect : Bool
  timeout : Bool

/-- The head of an upstream's response. -/
structure UpResponse where
  status : Nat
  contentType : Option String

structure UpRequest where
  url : Text
  contentType : String
  accept : Option String
  body : List UInt8

/-- A request the router serves itself. -/
structure Refusal where
  status : Nat
  body : Value

def Refusal.new (status : Nat) (error : String) : Refusal := ⟨status, .obj [("error", .str error)]⟩

/-- What a turn of the loop comes upon. -/
structure Look where
  tables : Shared
  now : Nat
  /-- Why there is no request for a URL. -/
  build : Text → Option String
  /-- How an attempt ends, and when. -/
  answer : Except SendError UpResponse
  after : Nat
  /-- The tables as they are read for a refusal. -/
  pending : Shared
  listed : Shared

structure Sent where
  request : UpRequest
  answer : Except SendError UpResponse

structure ProxyCfg where
  /-- In whole seconds. -/
  modelWait : Nat
  servingTimeoutMs : Nat

structure Call where
  model : String
  tail : Text
  contentType : Option String
  accept : Option String
  bytes : List UInt8
  /-- After this the request is refused rather than held. -/
  deadline : Nat

/-- `not_ready`: groups that announced an endpoint but are not routable, with the reason. -/
def notReady (s : Shared) : List (String × String) :=
  s.groupTable.sorted.filterMap fun r => match s.healthOf r.2 with
    | .error why => some (r.2.group, why)
    | .ok _ => none

/-- A span as whole seconds, halves to the even side. -/
def wholeSeconds (ms : Nat) : Nat :=
  let below := ms / 1000
  let rest := ms % 1000
  if rest < 500 || (rest == 500 && below % 2 == 0) then below else below + 1

abbrev Result := Except Refusal (String × UpResponse)

inductive Turn where
  | again (sent : Option Sent)
  | ended (sent : Option Sent) (result : Result)

namespace Call

variable (cfg : ProxyCfg) (debug : String → String) (c : Call)

/-- 503 for a known group that cannot serve, 404 for a name nothing claims. `debug` is how a text is
printed with its quotes. -/
def refusal (l : Look) : Refusal :=
  let pending := notReady l.pending
  let waited := toString cfg.modelWait
  match pending.lookup c.model with
  | some why => .new 503 (c.model ++ " is not ready after " ++ waited ++ "s: " ++ why)
  | none => ⟨404, .obj [
      ("error", .str ("no group serves model " ++ debug c.model ++ " after " ++ waited ++ "s")),
      ("available", .arr (l.listed.modelTable.map fun r => .str r.1)),
      ("not_ready", .obj (pending.map fun r => (r.1, .str r.2)))]⟩

def request (base : String) : UpRequest :=
  ⟨upstreamUrl base.toList c.tail, c.contentType.getD "application/json", c.accept, c.bytes⟩

/-- One turn of the loop in `dispatch`. -/
def turn (l : Look) : Turn :=
  match l.tables.modelTable.lookup c.model with
  | none => if l.now < c.deadline then .again none else .ended none (.error (c.refusal cfg debug l))
  | some (group, base) =>
    let up := c.request base
    match l.build up.url with
    | some e => .ended none (.error (.new 502 ("cannot build the upstream request: " ++ e)))
    | none => match l.answer with
      | .ok resp => .ended (some ⟨up, l.answer⟩) (.ok (group, resp))
      | .error e =>
        if e.connect && decide (l.after < c.deadline) then .again (some ⟨up, l.answer⟩)
        else if e.timeout then .ended (some ⟨up, l.answer⟩) (.error (.new 504 (group ++
          " gave no response within " ++ toString (wholeSeconds cfg.servingTimeoutMs) ++ "s")))
        else .ended (some ⟨up, l.answer⟩) (.error (.new 502 (group ++ " did not answer: " ++ e.msg)))

/-- What was sent over some turns, and the result if they came to one. -/
def dispatch : List Look → List Sent × Option Result
  | [] => ([], none)
  | l :: rest => match c.turn cfg debug l with
    | .again sent => (sent.toList ++ (dispatch rest).1, (dispatch rest).2)
    | .ended sent result => (sent.toList, some result)

end Call

def maxBody : Nat := 128 * 1024 * 1024

/-- A request as it comes in. -/
structure Incoming where
  pathAndQuery : Text
  contentType : Option String
  accept : Option String
  body : List UInt8

/-- `forward` up to its `dispatch`. `fromSlice` is the JSON parser. -/
def forward (cfg : ProxyCfg) (fromSlice : List UInt8 → Option Value) (now : Nat) (req : Incoming) :
    Except Refusal (Form.Routed × Call) :=
  if maxBody < req.body.length then
    .error (.new 413 ("request body over " ++ toString maxBody ++ " bytes"))
  else match Form.routeBy fromSlice (req.contentType.map String.toList) req.body with
    | .error e => .error (.new 400 e)
    | .ok routed => .ok (routed, {
        model := String.ofList routed.model
        tail := req.pathAndQuery
        contentType := req.contentType
        accept := req.accept
        bytes := req.body
        deadline := now + 1000 * cfg.modelWait })

/-- A request from its arrival on. -/
def answerTo (cfg : ProxyCfg) (debug : String → String) (fromSlice : List UInt8 → Option Value)
    (now : Nat) (req : Incoming) (looks : List Look) : List Sent × Option Result :=
  match forward cfg fromSlice now req with
  | .error r => ([], some (.error r))
  | .ok (_, c) => c.dispatch cfg debug looks

/-! ## What one turn does -/

def Look.route (l : Look) (c : Call) : Option (String × String) := l.tables.modelTable.lookup c.model

/-- The upstream never saw the request. -/
def Sent.refused (s : Sent) : Prop := ∃ e, s.answer = .error e ∧ e.connect = true

/-- A turn that is waited out. -/
inductive Waits (c : Call) (l : Look) : Option Sent → Prop where
  | noRoute (hroute : l.route c = none) (hnow : l.now < c.deadline) : Waits c l none
  | refused {group base : String} {e : SendError} (hroute : l.route c = some (group, base))
      (hanswer : l.answer = .error e) (hconnect : e.connect = true) (hafter : l.after < c.deadline) :
      Waits c l (some ⟨c.request base, l.answer⟩)

/-- A turn that is the last, and the result. -/
inductive Ends (cfg : ProxyCfg) (debug : String → String) (c : Call) (l : Look) :
    Option Sent → Result → Prop where
  | noRoute (hroute : l.route c = none) (hnow : c.deadline ≤ l.now) :
      Ends cfg debug c l none (.error (c.refusal cfg debug l))
  | unbuilt {group base : String} (e : String) (hroute : l.route c = some (group, base)) :
      Ends cfg debug c l none (.error (.new 502 ("cannot build the upstream request: " ++ e)))
  | answered {group base : String} {resp : UpResponse} (hroute : l.route c = some (group, base))
      (hanswer : l.answer = .ok resp) :
      Ends cfg debug c l (some ⟨c.request base, l.answer⟩) (.ok (group, resp))
  | failed {group base : String} {e : SendError} (error : String)
      (hroute : l.route c = some (group, base)) (hanswer : l.answer = .error e)
      (hlate : e.connect = true → c.deadline ≤ l.after) :
      Ends cfg debug c l (some ⟨c.request base, l.answer⟩)
        (.error (.new (if e.timeout then 504 else 502) error))

section Turns

variable {cfg : ProxyCfg} {debug : String → String} {c : Call} {l : Look} {sent : Option Sent}
  {result : Result}

theorem turn_again (h : c.turn cfg debug l = .again sent) : Waits c l sent := by
  unfold Call.turn at h
  split at h
  · next hroute =>
    split at h
    · next hnow =>
      cases h
      exact .noRoute hroute hnow
    · cases h
  · next group base hroute =>
    simp only at h
    split at h
    · cases h
    · split at h
      · cases h
      · next e hanswer =>
        split at h
        · next hwait =>
          cases h
          rw [Bool.and_eq_true, decide_eq_true_eq] at hwait
          exact .refused hroute hanswer hwait.1 hwait.2
        · split at h <;> cases h

theorem turn_ended (h : c.turn cfg debug l = .ended sent result) :
    Ends cfg debug c l sent result := by
  unfold Call.turn at h
  split at h
  · next hroute =>
    split at h
    · cases h
    · next hnow =>
      cases h
      exact .noRoute hroute (Nat.not_lt.mp hnow)
  · next group base hroute =>
    simp only at h
    split at h
    · next e he =>
      cases h
      exact .unbuilt e hroute
    · split at h
      · next resp hanswer =>
        cases h
        exact .answered hroute hanswer
      · next e hanswer =>
        have hlate : ¬ (e.connect && decide (l.after < c.deadline)) = true →
            e.connect = true → c.deadline ≤ l.after := by
          intro hno hconnect
          rw [hconnect, Bool.true_and, decide_eq_true_eq] at hno
          exact Nat.not_lt.mp hno
        split at h
        · cases h
        · next hno =>
          split at h
          · next htime =>
            cases h
            have he : Ends cfg debug c l _ _ := .failed (group ++ " gave no response within " ++
              toString (wholeSeconds cfg.servingTimeoutMs) ++ "s") hroute hanswer (hlate hno)
            rwa [if_pos htime] at he
          · next htime =>
            cases h
            have he : Ends cfg debug c l _ _ :=
              .failed (group ++ " did not answer: " ++ e.msg) hroute hanswer (hlate hno)
            rwa [if_neg htime] at he

theorem Waits.refused_of_sent {s : Sent} (h : Waits c l (some s)) : s.refused := by
  cases h with
  | refused _ hanswer hconnect _ => exact ⟨_, hanswer, hconnect⟩

theorem Waits.sent_to {s : Sent} (h : Waits c l (some s)) :
    ∃ group base, l.route c = some (group, base) ∧ s.request = c.request base := by
  cases h with
  | refused hroute _ _ _ => exact ⟨_, _, hroute, rfl⟩

theorem Ends.sent_to {s : Sent} (h : Ends cfg debug c l (some s) result) :
    ∃ group base, l.route c = some (group, base) ∧ s.request = c.request base := by
  cases h with
  | answered hroute _ => exact ⟨_, _, hroute, rfl⟩
  | failed _ hroute _ _ => exact ⟨_, _, hroute, rfl⟩

end Turns

/-! ## The loop -/

section Loop

variable (cfg : ProxyCfg) (debug : String → String) (c : Call)

/-- The turns that were waited out, and then the one that gave the result if there was one. -/
inductive Dispatched (looks : List Look) : List Sent × Option Result → Prop where
  | waiting {sents : List (Option Sent)} (hwait : List.Forall₂ (Waits c) looks sents) :
      Dispatched looks (sents.reduceOption, none)
  | ended {pre post : List Look} {l : Look} {sents : List (Option Sent)} {sent : Option Sent}
      {result : Result} (hlooks : looks = pre ++ l :: post)
      (hwait : List.Forall₂ (Waits c) pre sents) (hend : Ends cfg debug c l sent result) :
      Dispatched looks (sents.reduceOption ++ sent.toList, some result)

theorem dispatched (looks : List Look) : Dispatched cfg debug c looks (c.dispatch cfg debug looks) := by
  induction looks with
  | nil => exact .waiting .nil
  | cons l rest ih =>
    rw [Call.dispatch]
    cases hturn : c.turn cfg debug l with
    | ended sent result => exact @Dispatched.ended _ _ _ _ [] _ _ _ _ _ rfl .nil (turn_ended hturn)
    | again sent =>
      have hfirst := turn_again hturn
      generalize c.dispatch cfg debug rest = d at ih
      have hcons : ∀ sents : List (Option Sent),
          sent.toList ++ sents.reduceOption = (sent :: sents).reduceOption := by
        intro sents
        cases sent <;> simp
      cases ih with
      | waiting hwait =>
        simp only [hcons]
        exact .waiting (.cons hfirst hwait)
      | @ended pre post l' sents sent' result hlooks hwait hend =>
        simp only [← List.append_assoc, hcons]
        exact .ended (congrArg (l :: ·) hlooks) (.cons hfirst hwait) hend

theorem mem_waits {c : Call} {looks : List Look} {sents : List (Option Sent)}
    (h : List.Forall₂ (Waits c) looks sents) {s : Sent} (hs : s ∈ sents.reduceOption) :
    ∃ l ∈ looks, Waits c l (some s) := by
  rw [List.reduceOption_mem_iff] at hs
  obtain ⟨i, hi, he⟩ := List.mem_iff_getElem.mp hs
  have hlen := h.length_eq
  refine ⟨looks[i], List.getElem_mem _, ?_⟩
  rw [← he]
  exact h.get (hlen ▸ hi) hi

/-- Where a request has gone that was sent at some turn. -/
theorem Dispatched.sent_to {looks : List Look} {d : List Sent × Option Result}
    (h : Dispatched cfg debug c looks d) : ∀ s ∈ d.1, ∃ l ∈ looks, ∃ group base,
      l.route c = some (group, base) ∧ s.request = c.request base := by
  cases h with
  | waiting hwait =>
    intro s hs
    obtain ⟨l, hl, hw⟩ := mem_waits hwait hs
    exact ⟨l, hl, hw.sent_to⟩
  | @ended pre post l sents sent result hlooks hwait hend =>
    intro s hs
    rcases List.mem_append.mp hs with hs | hs
    · obtain ⟨l', hl, hw⟩ := mem_waits hwait hs
      exact ⟨l', hlooks ▸ List.mem_append_left _ hl, hw.sent_to⟩
    · rw [Option.mem_toList] at hs
      cases hs
      exact ⟨l, hlooks ▸ List.mem_append_right _ List.mem_cons_self, hend.sent_to⟩

/-- What is sent for a request that came in goes to the group that is in the table for the model its
body names, and to the same path there. -/
theorem answerTo_sent {fromSlice : List UInt8 → Option Value} {now : Nat} {req : Incoming}
    {looks : List Look} {s : Sent}
    (hs : s ∈ (answerTo cfg debug fromSlice now req looks).1) :
    s.request.body = req.body ∧ req.body.length ≤ maxBody ∧ ∃ routed,
      Form.routeBy fromSlice (req.contentType.map String.toList) req.body = .ok routed ∧
        ∃ l ∈ looks, ∃ group base,
          l.tables.modelTable.lookup (String.ofList routed.model) = some (group, base) ∧
            s.request.url = rootOf base.toList ++ req.pathAndQuery := by
  unfold answerTo forward at hs
  split at hs
  · cases hs
  · next routed c hc =>
    split at hc
    · cases hc
    · next hlong =>
      split at hc
      · cases hc
      · next routed' hroute =>
        cases hc
        obtain ⟨l, hl, group, base, htable, he⟩ :=
          Dispatched.sent_to cfg debug _ (dispatched cfg debug _ looks) s hs
        rw [he]
        exact ⟨rfl, Nat.not_lt.mp hlong, routed, hroute, l, hl, group, base, htable,
          upstreamUrl_eq _ _⟩

theorem Waits.before {c : Call} {l : Look} {sent : Option Sent} (h : Waits c l sent)
    (hafter : l.now ≤ l.after) : l.now < c.deadline := by
  cases h with
  | noRoute _ hnow => exact hnow
  | refused _ _ _ hlate => exact hafter.trans_lt hlate

theorem refusal_status (l : Look) : (c.refusal cfg debug l).status =
    if ((notReady l.pending).lookup c.model).isSome then 503 else 404 := by
  unfold Call.refusal
  simp only
  split
  · next why h => simp [h, Refusal.new]
  · next h => simp [h]

end Loop

/-! ## A stream that begins before its upstream has replied -/

inductive Frame where
  | data (bytes : List UInt8)
  | trailers (fields : List (String × String))

/-- What a body gives when it is polled. A ready one without a frame is at its end. -/
inductive Polled where
  | pending
  | ready (item : Option (Except String Frame))

/-- A poll, with what the body comes upon. -/
structure Poll where
  /-- The dispatch's result when it is there, none inside if it was dropped without one. -/
  channel : Option (Option Result)
  tick : Bool
  /-- What the upstream's body gives. -/
  inner : Polled

inductive Keep where
  | waiting
  | relaying
  /-- One error event and the terminator, then the end. -/
  | failing (q : List Frame)
  | done

def UpResponse.isSuccess (r : UpResponse) : Bool := decide (200 ≤ r.status ∧ r.status < 300)

def keepaliveComment : Frame := .data (utf8 ": keepalive\n\n".toList)

section Stream

-- How a status is displayed and a value printed.
variable (statusText : Nat → String) (print : Value → String)

def Refusal.message (r : Refusal) : String :=
  match (r.body.idx "error").asStr with
  | some e => e
  | none => "HTTP " ++ statusText r.status

def errorEvents (msg : String) : List Frame :=
  let event := Value.obj [("error", .obj [("message", .str msg), ("type", .str "upstream_error")])]
  [.data (utf8 ("data: " ++ print event ++ "\n\n").toList), .data (utf8 "data: [DONE]\n\n".toList)]

/-- Why a dispatch gives no stream. -/
def failure : Option Result → Option String
  | some (.ok (_, resp)) =>
    if resp.isSuccess then none else some ("upstream answered HTTP " ++ statusText resp.status)
  | some (.error refusal) => some (refusal.message statusText)
  | none => some "the router dropped the request"

/-- The state that a result leads to. -/
def Keep.settle (r : Option Result) : Keep :=
  match failure statusText r with
  | none => .relaying
  | some msg => .failing (errorEvents print msg)

/-- A poll in a state that no longer waits. -/
def Keep.give (p : Poll) : Keep → Keep × Polled
  | .waiting => (.waiting, .pending)
  | .relaying => (.relaying, p.inner)
  | .failing [] => (.done, .ready none)
  | .failing (f :: q) => (.failing q, .ready (some (.ok f)))
  | .done => (.done, .ready none)

def Keep.poll (k : Keep) (p : Poll) : Keep × Polled :=
  match k, p.channel with
  | .waiting, some r => (Keep.settle statusText print r).give p
  | .waiting, none =>
    (.waiting, if p.tick then .ready (some (.ok keepaliveComment)) else .pending)
  | k, _ => k.give p

def Keep.run (k : Keep) : List Poll → List Polled
  | [] => []
  | p :: rest => (k.poll statusText print p).2 :: run (k.poll statusText print p).1 rest

/-! ## What the client is sent -/

/-- What a poll gives while nothing has come. -/
def Poll.comment (p : Poll) : Polled :=
  if p.tick then .ready (some (.ok keepaliveComment)) else .pending

variable {statusText print}

theorem run_waiting {pre : List Poll} (hpre : ∀ p ∈ pre, p.channel = none) (post : List Poll) :
    Keep.run statusText print .waiting (pre ++ post) =
      pre.map Poll.comment ++ Keep.run statusText print .waiting post := by
  induction pre with
  | nil => rfl
  | cons p pre ih =>
    have hp := hpre p List.mem_cons_self
    have hpoll : Keep.poll statusText print .waiting p = (.waiting, p.comment) := by
      simp only [Keep.poll, hp, Poll.comment]
    rw [List.cons_append, Keep.run, hpoll, ih fun q hq => hpre q (List.mem_cons_of_mem p hq),
      List.map_cons, List.cons_append]

theorem run_relaying (ps : List Poll) :
    Keep.run statusText print .relaying ps = ps.map (·.inner) := by
  induction ps with
  | nil => rfl
  | cons p ps ih =>
    rw [List.map_cons, ← ih]
    rfl

theorem run_done (ps : List Poll) :
    Keep.run statusText print .done ps = List.replicate ps.length (.ready none) := by
  induction ps with
  | nil => rfl
  | cons p ps ih =>
    rw [List.length_cons, List.replicate_succ, ← ih]
    rfl

/-- The frames in order, then the end for good. -/
def played (q : List Frame) (n : Nat) : List Polled :=
  (q.map (fun f => Polled.ready (some (.ok f))) ++ List.replicate n (Polled.ready none)).take n

theorem run_failing (q : List Frame) (ps : List Poll) :
    Keep.run statusText print (.failing q) ps = played q ps.length := by
  induction ps generalizing q with
  | nil => simp [Keep.run, played]
  | cons p ps ih =>
    cases q with
    | nil =>
      have hdone := @run_done statusText print ps
      rw [played, List.map_nil, List.nil_append, List.take_replicate, Nat.min_self,
        List.length_cons, List.replicate_succ, ← hdone]
      rfl
    | cons f q =>
      have hshort : (q.map (fun f => Polled.ready (some (.ok f))) ++
          List.replicate (ps.length + 1) (Polled.ready none)).take ps.length = played q ps.length := by
        rw [List.replicate_succ', ← List.append_assoc, List.take_append_of_le_length]
        · rfl
        · rw [List.length_append, List.length_replicate]
          exact Nat.le_add_left _ _
      have hcons : played (f :: q) (ps.length + 1) = .ready (some (.ok f)) :: played q ps.length := by
        rw [← hshort]
        rfl
      rw [List.length_cons, hcons, ← ih]
      rfl

/-- The poll that finds a result is answered as the next state answers it. -/
theorem run_settled {p : Poll} {r : Option Result} (hp : p.channel = some r) (post : List Poll) :
    Keep.run statusText print .waiting (p :: post) =
      Keep.run statusText print (Keep.settle statusText print r) (p :: post) := by
  have hne : Keep.settle statusText print r ≠ .waiting := by
    unfold Keep.settle
    split <;> exact fun h => by cases h
  have hwait : Keep.poll statusText print .waiting p = (Keep.settle statusText print r).give p := by
    simp only [Keep.poll, hp]
  have hthen : ∀ k : Keep, k ≠ .waiting → k.poll statusText print p = k.give p := by
    intro k hk
    cases k with
    | waiting => exact absurd rfl hk
    | _ => rfl
  rw [Keep.run, Keep.run, hwait, hthen _ hne]

/-- Until the dispatch has a result the client is sent a comment at each tick and nothing else. Then
it is sent exactly what the upstream's body gives, or, if there is no such body, one event that says
why and the terminator, and the end. -/
theorem keepalive_stream {pre : List Poll} (hpre : ∀ p ∈ pre, p.channel = none) :
    Keep.run statusText print .waiting pre = pre.map Poll.comment ∧
    ∀ (p : Poll) (post : List Poll) (r : Option Result), p.channel = some r →
      (failure statusText r = none → Keep.run statusText print .waiting (pre ++ p :: post) =
        pre.map Poll.comment ++ (p :: post).map (·.inner)) ∧
      ∀ msg, failure statusText r = some msg →
        Keep.run statusText print .waiting (pre ++ p :: post) =
          pre.map Poll.comment ++ played (errorEvents print msg) (post.length + 1) := by
  refine ⟨?_, fun p post r hp => ⟨fun hr => ?_, fun msg hr => ?_⟩⟩
  · have hall := @run_waiting statusText print _ hpre []
    rwa [List.append_nil, Keep.run, List.append_nil] at hall
  · have hsettle : Keep.settle statusText print r = .relaying := by rw [Keep.settle, hr]
    rw [run_waiting hpre, run_settled hp, hsettle, run_relaying]
  · have hsettle : Keep.settle statusText print r = .failing (errorEvents print msg) := by
      rw [Keep.settle, hr]
    rw [run_waiting hpre, run_settled hp, hsettle, run_failing, List.length_cons]

end Stream

namespace Sample

def noTables : Shared := ⟨⟨1000, 0, fun _ => true, fun _ => true⟩, ⟨0, 0, 0⟩, [], ∅, ∅⟩

/-- There is no route. -/
def noRouteAt (now : Nat) : Look :=
  ⟨noTables, now, fun _ => none, .error ⟨"refused", true, false⟩, now, noTables, noTables⟩

def call : Call := ⟨"m", "/v1/completions".toList, none, none, [], 800⟩

/-- Two polls before the upstream has failed, one of them at a tick, and three after. -/
def unanswered (tick : Bool) : Poll := ⟨none, tick, .pending⟩

def dropped : Poll := ⟨some none, false, .pending⟩

end Sample

theorem keepalive_stream_dropped :
    Keep.run toString (fun _ => "e") .waiting
      ([Sample.unanswered true, Sample.unanswered false] ++ Sample.dropped :: [Sample.dropped]) =
    [.ready (some (.ok keepaliveComment)), .pending] ++
      played (errorEvents (fun _ => "e") "the router dropped the request") 2 :=
  ((keepalive_stream (by simp [Sample.unanswered])).2 Sample.dropped [Sample.dropped] none rfl).2 _ rfl

end Mentat.Proxy
