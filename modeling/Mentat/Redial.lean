import Mathlib.Data.Finset.Basic
import Mathlib.Data.Int.Order.Basic
import Mathlib.Algebra.Order.Ring.Int
import Mentat.Lib.Text

/-!
# Redialling

`Connection` in `ray._client`: one request on the client's connection to the daemon, with the redials
it makes when the connection is gone. What the sockets do is a `World`: how each dial ends, how each
request's exchange ends, and how long it took.

`_exchange` tells a frame that did not leave the process (`_Undelivered`) from one that was not answered
(`OSError`), and the hello of a dial goes through it too. `_redial` catches `OSError` only. The request
that follows a redial is not caught at all.

`survives_iff` says in which worlds a retried request still waits out a daemon's restart.
-/

namespace Mentat.Redial

variable {α : Type}

/-! ## What the sockets do -/

/-- A frame from the daemon. The client reads the named fields itself. -/
structure Reply (α : Type) where
  t : Option String
  error : Option String
  proto : Option Text
  rest : α
deriving DecidableEq

/-- One frame out, one frame back. -/
inductive Exchange (α : Type) where
  /-- `sendall` raises. -/
  | undelivered
  /-- The frame is out, and `recv` raises or reads the end. -/
  | unanswered
  | answered (reply : Reply α)

inductive Dial (α : Type) where
  | refused
  /-- The connection stands. This is its hello. -/
  | accepted (hello : Exchange α)

/-- The dials and the requests' exchanges in order, each with its time in nanoseconds. -/
structure World (α : Type) where
  dial : Nat → Dial α
  dialTook : Nat → Nat
  exchange : Nat → Exchange α
  exchangeTook : Nat → Nat

/-! ## Answers -/

inductive MentatError where
  | err (error : String)
  | unexpected (expect : String) (t : Option String)
  | proto (offered : Text)
deriving DecidableEq

inductive Raised where
  /-- `_Undelivered`. -/
  | undelivered
  /-- `OSError`, of which `ConnectionError` is one. -/
  | os
  | mentat (e : MentatError)
deriving DecidableEq

def checked (answer : Reply α) (expect : Option String) : Except MentatError (Reply α) :=
  if answer.t = some "err" then .error (.err (answer.error.getD "unknown error"))
  else match expect with
    | none => .ok answer
    | some e => if answer.t = some e ∨ answer.t = some "ok" then .ok answer else .error (.unexpected e answer.t)

/-- The digits before the dot, without their leading zeros. -/
def major (v : Text) : Option Text :=
  let (head, dot, tail) := Text.partition '.' v
  if dot = [] ∨ head = [] ∨ tail = [] ∨ ¬ head.all Char.isDigit ∨ ¬ tail.all Char.isDigit then none
  else
    let m := head.dropWhile (· == '0')
    some (if m = [] then ['0'] else m)

/-- `PROTO`. -/
def shimProto : Text := ['0', '.', '9', '9']

/-- Majors 0 and 1 read each other. -/
def majorMatches (peer : Text) : Bool :=
  match major shimProto, major peer with
  | some a, some b => a == b || ([['0'], ['1']].contains a && [['0'], ['1']].contains b)
  | _, _ => false

def Exchange.result : Exchange α → Except Raised (Reply α)
  | .undelivered => .error .undelivered
  | .unanswered => .error .os
  | .answered reply => .ok reply

def greeted (hello : Reply α) : Except MentatError Unit := do
  let hello ← checked hello (some "hello_ok")
  if majorMatches (hello.proto.getD []) then return else throw (.proto (hello.proto.getD []))

/-- What `_dial` raises, if anything. -/
def Dial.result : Dial α → Except Raised Unit
  | .refused => .error .os
  | .accepted hello => do
    let hello ← hello.result
    (greeted hello).mapError .mentat

/-! ## One connection -/

/-- The end of a dial or of an exchange. -/
structure Event where
  answered : Bool
  time : Int
deriving DecidableEq

/-- The connection, the clock, how many dials and requests have been made, and how each ended. -/
structure Conn where
  now : Int
  sock : Bool
  dials : Nat
  requests : Nat
  log : List Event

namespace Conn

def start (sock : Bool) (now : Int) : Conn := ⟨now, sock, 0, 0, []⟩

/-- Half a second. -/
def pause : Nat := 500000000

def drop (s : Conn) : Conn := { s with sock := false }

def sleep (s : Conn) : Conn := { s with now := s.now + pause }

end Conn

def Exchange.answers : Exchange α → Bool
  | .answered _ => true
  | _ => false

def Dial.answers : Dial α → Bool
  | .refused => false
  | .accepted hello => hello.answers

namespace World

variable (w : World α) (window : Int)

/-- `_dial`. -/
def dialOnce (s : Conn) : Except Raised Unit × Conn :=
  let now := s.now + w.dialTook s.dials
  let d := w.dial s.dials
  (d.result, { s with
    now
    sock := s.sock || (match d with | .refused => false | .accepted _ => true)
    dials := s.dials + 1
    log := s.log ++ [⟨d.answers, now⟩] })

/-- The loop of `_redial`. -/
def redialUntil (deadline : Int) (s : Conn) : Except Raised Unit × Conn :=
  match (w.dialOnce s).1 with
  | .error .os =>
    let s' := (w.dialOnce s).2.drop
    if deadline ≤ s'.now then (.error .os, s') else redialUntil deadline s'.sleep
  | r => (r, (w.dialOnce s).2)
termination_by (deadline - s.now).toNat
decreasing_by
  have hslept : (w.dialOnce s).2.drop.sleep.now = s.now + w.dialTook s.dials + 500000000 := rfl
  have hnow : (w.dialOnce s).2.drop.now = s.now + w.dialTook s.dials := rfl
  have hearly : ¬ deadline ≤ (w.dialOnce s).2.drop.now := by assumption
  omega

/-- `window` is `MENTAT_RECONNECT_MS`, in nanoseconds. -/
def redial (s : Conn) : Except Raised Unit × Conn := w.redialUntil (s.now + window) s

/-- `_exchange` for a request. -/
def exchangeOnce (s : Conn) : Except Raised (Reply α) × Conn :=
  let now := s.now + w.exchangeTook s.requests
  let e := w.exchange s.requests
  (e.result, { s with now, requests := s.requests + 1, log := s.log ++ [⟨e.answers, now⟩] })

/-- Redial, and ask again. -/
def again (s : Conn) : Except Raised (Reply α) × Conn :=
  match w.redial window s with
  | (.error e, s) => (.error e, s)
  | (.ok (), s) => w.exchangeOnce s

/-- The `try` of `request`. -/
def attempt (retry : Bool) (s : Conn) : Except Raised (Reply α) × Conn :=
  match w.exchangeOnce s with
  | (.error .undelivered, s) => w.again window s.drop
  | (.error .os, s) => if retry then w.again window s.drop else (.error .os, s.drop)
  | r => r

/-- What `request` does under its lock. -/
def ask (retry : Bool) (s : Conn) : Except Raised (Reply α) × Conn :=
  match if s.sock then (.ok (), s) else w.redial window s with
  | (.error e, s) => (.error e, s)
  | (.ok (), s) => w.attempt window retry s

def request (retry : Bool) (expect : Option String) (s : Conn) : Except Raised (Reply α) × Conn :=
  let (answer, s) := w.ask window retry s
  (answer.bind fun answer => (checked answer expect).mapError .mentat, s)

/-! ## Surviving a restart -/

end World

/-- The window has passed since the first failure, and since the last exchange that was answered. -/
structure WaitedOut (window : Int) (log : List Event) (now : Int) : Prop where
  sinceFailure : ∀ e, log.find? (!·.answered) = some e → e.time + window ≤ now
  sinceAnswer : ∀ e ∈ log, e.answered → e.time + window ≤ now

namespace World

variable (w : World α) (window : Int)

/-- The request gives the daemon's answer. A connection error, of either kind, comes only after the
window. -/
def Survives (expect : Option String) (sock : Bool) (now : Int) : Prop :=
  let r := w.request window true expect (.start sock now)
  (∃ k answer, w.exchange k = .answered answer ∧ r.1 = (checked answer expect).mapError .mentat) ∨
    (r.1 = .error .os ∨ r.1 = .error .undelivered) ∧ WaitedOut window r.2.log r.2.now

/-- No hello is refused. -/
def Greets : Prop :=
  ∀ k hello, w.dial k = .accepted (.answered hello) → greeted hello = .ok ()

end World

/-! ## The dials of a redial -/

/-- `_redial` tries again. -/
def Dial.lost : Dial α → Bool
  | .refused => true
  | .accepted .unanswered => true
  | _ => false

/-- The connection stands and the hello cannot be sent. -/
def Dial.mute : Dial α → Bool
  | .accepted .undelivered => true
  | _ => false

theorem Dial.result_eq_os_iff (d : Dial α) : d.result = .error .os ↔ d.lost = true := by
  cases d with
  | refused => exact iff_of_true rfl rfl
  | accepted hello =>
    cases hello with
    | undelivered => exact iff_of_false (by rintro ⟨⟩) (by rintro ⟨⟩)
    | unanswered => exact iff_of_true rfl rfl
    | answered reply =>
      refine iff_of_false ?_ (by rintro ⟨⟩)
      show (greeted reply).mapError Raised.mentat ≠ .error Raised.os
      cases greeted reply <;> rintro ⟨⟩

theorem Dial.answers_of_lost {d : Dial α} (h : d.lost) : d.answers = false := by
  cases d with
  | refused => rfl
  | accepted hello =>
    cases hello with
    | unanswered => rfl
    | undelivered => cases h
    | answered reply => cases h

namespace World

variable {w : World α} {window : Int}

/-- When the `n`-th dial begins, of a redial that begins at `t` with the dial `k`. -/
def startOf (w : World α) (t : Int) (k : Nat) : Nat → Int
  | 0 => t
  | n + 1 => w.startOf t k n + w.dialTook (k + n) + Conn.pause

def endOf (w : World α) (t : Int) (k n : Nat) : Int := w.startOf t k n + w.dialTook (k + n)

/-- The redial ends with its `n`-th dial. -/
structure Stops (w : World α) (deadline t : Int) (k n : Nat) : Prop where
  lost : ∀ i < n, (w.dial (k + i)).lost ∧ w.endOf t k i < deadline
  last : (w.dial (k + n)).lost → deadline ≤ w.endOf t k n

theorem Stops.unique {deadline t : Int} {k n m : Nat} (hn : w.Stops deadline t k n)
    (hm : w.Stops deadline t k m) : n = m := by
  refine le_antisymm (not_lt.1 fun h => ?_) (not_lt.1 fun h => ?_)
  · obtain ⟨hlost, hearly⟩ := hn.lost m h
    exact hearly.not_ge (hm.last hlost)
  · obtain ⟨hlost, hearly⟩ := hm.lost n h
    exact hearly.not_ge (hn.last hlost)

theorem startOf_succ (w : World α) (t : Int) (k n : Nat) :
    w.startOf t k (n + 1) = w.startOf (t + w.dialTook k + Conn.pause) (k + 1) n := by
  induction n with
  | zero => rfl
  | succ n ih =>
    have hk : k + (n + 1) = k + 1 + n := by omega
    rw [startOf, ih, startOf, hk]

theorem endOf_succ (w : World α) (t : Int) (k n : Nat) :
    w.endOf t k (n + 1) = w.endOf (t + w.dialTook k + Conn.pause) (k + 1) n := by
  have hk : k + (n + 1) = k + 1 + n := by omega
  rw [endOf, startOf_succ, endOf, hk]

theorem Stops.succ {deadline t : Int} {k n : Nat} (hlost : (w.dial k).lost)
    (hearly : t + w.dialTook k < deadline)
    (h : w.Stops deadline (t + w.dialTook k + Conn.pause) (k + 1) n) : w.Stops deadline t k (n + 1) := by
  refine ⟨fun i hi => ?_, fun hl => ?_⟩
  · cases i with
    | zero => exact ⟨hlost, hearly⟩
    | succ i =>
      have hk : k + (i + 1) = k + 1 + i := by omega
      rw [endOf_succ, hk]
      exact h.lost i (Nat.lt_of_succ_lt_succ hi)
  · have hk : k + (n + 1) = k + 1 + n := by omega
    rw [hk] at hl
    rw [endOf_succ]
    exact h.last hl

/-- The dials before the last, each of them lost. -/
def lostDials (w : World α) (t : Int) (k n : Nat) : List Event :=
  (List.range n).map fun i => ⟨false, w.endOf t k i⟩

theorem lostDials_succ (w : World α) (t : Int) (k n : Nat) :
    w.lostDials t k (n + 1) =
      ⟨false, t + w.dialTook k⟩ :: w.lostDials (t + w.dialTook k + Conn.pause) (k + 1) n := by
  simp only [lostDials, List.range_succ_eq_map, List.map_cons, List.map_map]
  refine congrArg₂ _ rfl (List.map_congr_left fun i _ => ?_)
  simp only [Function.comp, endOf_succ]

theorem redialUntil_of_lost {deadline : Int} {s : Conn} (h : (w.dial s.dials).lost) :
    w.redialUntil deadline s =
      if deadline ≤ s.now + w.dialTook s.dials then (.error .os, (w.dialOnce s).2.drop)
      else w.redialUntil deadline (w.dialOnce s).2.drop.sleep := by
  have hos : (w.dialOnce s).1 = .error .os := (Dial.result_eq_os_iff _).2 h
  rw [redialUntil, hos]
  rfl

theorem redialUntil_of_not_lost {deadline : Int} {s : Conn} (h : (w.dial s.dials).lost ≠ true) :
    w.redialUntil deadline s = w.dialOnce s := by
  have hno : (w.dialOnce s).1 ≠ .error .os := fun e => h ((Dial.result_eq_os_iff _).1 e)
  rw [redialUntil]
  split
  · next hos => exact absurd hos hno
  · rfl

/-- Everything a redial can do. -/
theorem redialUntil_spec (w : World α) (deadline : Int) (s : Conn) : ∃ n sock,
    w.Stops deadline s.now s.dials n ∧
      w.redialUntil deadline s = ((w.dial (s.dials + n)).result,
        ⟨w.endOf s.now s.dials n, sock, s.dials + n + 1, s.requests,
          s.log ++ w.lostDials s.now s.dials n ++
            [⟨(w.dial (s.dials + n)).answers, w.endOf s.now s.dials n⟩]⟩) := by
  induction s using redialUntil.induct w deadline with
  | case1 s hos s' hlate =>
    have hlost := (Dial.result_eq_os_iff _).1 hos
    have hlate : deadline ≤ s.now + w.dialTook s.dials := hlate
    refine ⟨0, false, ⟨fun i hi => absurd hi i.not_lt_zero, fun _ => hlate⟩, ?_⟩
    rw [redialUntil_of_lost hlost, if_pos hlate, Nat.add_zero, (Dial.result_eq_os_iff _).2 hlost]
    simp [dialOnce, Conn.drop, endOf, startOf, lostDials]
  | case2 s hos s' hearly ih =>
    have hlost := (Dial.result_eq_os_iff _).1 hos
    have hearly : ¬ deadline ≤ s.now + w.dialTook s.dials := hearly
    obtain ⟨n, sock, hstops, heq⟩ := ih
    refine ⟨n + 1, sock, hstops.succ hlost (not_le.1 hearly), ?_⟩
    have hk : s.dials + (n + 1) = s.dials + 1 + n := by omega
    have hanswers : (w.dial s.dials).answers = false := Dial.answers_of_lost hlost
    rw [redialUntil_of_lost hlost, if_neg hearly]
    refine heq.trans ?_
    rw [hk, endOf_succ, lostDials_succ]
    simp [s', dialOnce, Conn.drop, Conn.sleep, hanswers]
  | case3 s hne =>
    have hno : (w.dial s.dials).lost ≠ true := fun h => hne ((Dial.result_eq_os_iff _).2 h)
    refine ⟨0, (w.dialOnce s).2.sock, ⟨fun i hi => absurd hi i.not_lt_zero, fun h => absurd h hno⟩, ?_⟩
    rw [redialUntil_of_not_lost hno]
    simp [dialOnce, endOf, startOf, lostDials]

/-! ## The time of what happened -/

theorem endOf_le_startOf (w : World α) (t : Int) (k n : Nat) :
    w.endOf t k n ≤ w.startOf t k (n + 1) := by
  simp only [endOf, startOf]
  omega

theorem startOf_le_endOf (w : World α) (t : Int) (k n : Nat) : w.startOf t k n ≤ w.endOf t k n := by
  simp only [endOf]
  omega

theorem endOf_mono (w : World α) (t : Int) (k : Nat) {i n : Nat} (h : i ≤ n) :
    w.endOf t k i ≤ w.endOf t k n := by
  induction h with
  | refl => exact le_rfl
  | step _ ih => exact ih.trans ((w.endOf_le_startOf t k _).trans (w.startOf_le_endOf t k _))

theorem le_endOf (w : World α) (t : Int) (k n : Nat) : t ≤ w.endOf t k n :=
  (w.startOf_le_endOf t k 0).trans (w.endOf_mono t k n.zero_le)

end World

theorem waitedOut_lost {window now : Int} {log l : List Event} (hfail : ∃ e ∈ log, e.answered = false)
    (hl : ∀ e ∈ l, e.answered = false) : WaitedOut window (log ++ l) now ↔ WaitedOut window log now := by
  have hfind : (log ++ l).find? (!·.answered) = log.find? (!·.answered) := by
    obtain ⟨e, he, hno⟩ := hfail
    obtain ⟨first, hfirst⟩ := Option.isSome_iff_exists.1
      (List.find?_isSome.2 ⟨e, he, by simp [hno]⟩ : (log.find? (!·.answered)).isSome)
    rw [List.find?_append, hfirst, Option.some_or]
  constructor
  · intro h
    exact ⟨by rw [← hfind]; exact h.sinceFailure, fun e he => h.sinceAnswer e (List.mem_append_left _ he)⟩
  · intro h
    refine ⟨by rw [hfind]; exact h.sinceFailure, fun e he hans => ?_⟩
    obtain he | he := List.mem_append.1 he
    · exact h.sinceAnswer e he hans
    · rw [hl e he] at hans
      cases hans

theorem waitedOut_answer {window now time : Int} {log : List Event} (h : ∀ e ∈ log, e.time ≤ time) :
    WaitedOut window (log ++ [⟨true, time⟩]) now ↔ time + window ≤ now := by
  constructor
  · intro hw
    exact hw.sinceAnswer ⟨true, time⟩ (by simp) rfl
  · intro hle
    have hall : ∀ e ∈ log ++ [⟨true, time⟩], e.time + window ≤ now := by
      intro e he
      obtain he | he := List.mem_append.1 he
      · exact (Int.add_le_add_right (h e he) _).trans hle
      · rwa [List.mem_singleton.1 he]
    exact ⟨fun e he => hall e (List.mem_of_find?_eq_some he), fun e he _ => hall e he⟩

namespace World

variable {w : World α} {window : Int}

/-! ## A redial, and the question again -/

/-- What the claim wants of an answer before it is checked. -/
def Endures (w : World α) (window : Int) (r : Except Raised (Reply α) × Conn) : Prop :=
  (∃ k answer, w.exchange k = .answered answer ∧ r.1 = .ok answer) ∨
    (r.1 = .error .os ∨ r.1 = .error .undelivered) ∧ WaitedOut window r.2.log r.2.now

/-- A redial that begins at `t` with the dial `k`, and the exchange `q` after it. -/
structure Redialled (w : World α) (window t since : Int) (k q : Nat) : Prop where
  /-- The last dial's hello is sent, or the window has passed. -/
  hello : ∀ n, w.Stops (t + window) t k n → (w.dial (k + n)).mute → since + window ≤ w.endOf t k n
  /-- The exchange is answered, or fails after more than the window. -/
  asked : ∀ n, w.Stops (t + window) t k n → (w.dial (k + n)).answers →
    (w.exchange q).answers = false → window ≤ w.exchangeTook q

/-- A redial ends with one dial, so only that one counts. -/
theorem redialled_iff {t since : Int} {k q n : Nat} (hn : w.Stops (t + window) t k n) :
    w.Redialled window t since k q ↔
      ((w.dial (k + n)).mute → since + window ≤ w.endOf t k n) ∧
      ((w.dial (k + n)).answers → (w.exchange q).answers = false → window ≤ w.exchangeTook q) := by
  constructor
  · intro h
    exact ⟨h.hello n hn, h.asked n hn⟩
  · intro h
    refine ⟨fun m hm => ?_, fun m hm => ?_⟩ <;> rw [hm.unique hn]
    · exact h.1
    · exact h.2

/-- How a dial ends where no hello is refused. -/
theorem Greets.cases (hg : w.Greets) (k : Nat) :
    ((w.dial k).lost ∧ (w.dial k).result = .error .os ∧ (w.dial k).answers = false ∧ (w.dial k).mute = false) ∨
    ((w.dial k).mute ∧ (w.dial k).result = .error .undelivered ∧ (w.dial k).answers = false) ∨
    ((w.dial k).answers ∧ (w.dial k).result = .ok () ∧ (w.dial k).mute = false) := by
  cases hd : w.dial k with
  | refused => exact .inl ⟨rfl, rfl, rfl, rfl⟩
  | accepted hello =>
    cases hello with
    | unanswered => exact .inl ⟨rfl, rfl, rfl, rfl⟩
    | undelivered => exact .inr (.inl ⟨rfl, rfl, rfl⟩)
    | answered reply =>
      have hres : (Dial.accepted (.answered reply)).result = (greeted reply).mapError .mentat := rfl
      rw [hg k reply hd] at hres
      exact .inr (.inr ⟨rfl, hres, rfl⟩)

/-- What an exchange that is not answered raises. -/
theorem result_of_unanswered {e : Exchange α} (h : e.answers = false) :
    e.result = .error .os ∨ e.result = .error .undelivered := by
  cases e with
  | undelivered => exact .inr rfl
  | unanswered => exact .inl rfl
  | answered reply => cases h

theorem answered_of_answers {e : Exchange α} (h : e.answers) : ∃ answer, e = .answered answer := by
  cases e with
  | answered answer => exact ⟨answer, rfl⟩
  | undelivered => cases h
  | unanswered => cases h

theorem lost_of_mem_lostDials {t : Int} {k n : Nat} {e : Event} (h : e ∈ w.lostDials t k n) :
    e.answered = false ∧ e.time ≤ w.endOf t k n := by
  obtain ⟨i, hi, rfl⟩ := List.mem_map.1 h
  exact ⟨rfl, w.endOf_mono t k (List.mem_range.1 hi).le⟩

theorem endures_raised {r : Except Raised (Reply α) × Conn}
    (h : r.1 = .error .os ∨ r.1 = .error .undelivered) :
    w.Endures window r ↔ WaitedOut window r.2.log r.2.now := by
  refine ⟨?_, fun hw => .inr ⟨h, hw⟩⟩
  rintro (⟨_, _, -, hr⟩ | ⟨-, hw⟩)
  · obtain h | h := h <;> rw [h] at hr <;> cases hr
  · exact hw

theorem again_iff (hg : w.Greets) {s : Conn} {since : Int}
    (hsince : ∀ now, WaitedOut window s.log now ↔ since + window ≤ now)
    (hfail : ∃ e ∈ s.log, e.answered = false) (htime : ∀ e ∈ s.log, e.time ≤ s.now)
    (hle : since ≤ s.now) :
    w.Endures window (w.again window s) ↔ w.Redialled window s.now since s.dials s.requests := by
  obtain ⟨n, sock, hstops, heq⟩ := w.redialUntil_spec (s.now + window) s
  have hlost : ∀ now, WaitedOut window (s.log ++ w.lostDials s.now s.dials n ++
      [⟨false, w.endOf s.now s.dials n⟩]) now ↔ since + window ≤ now := by
    intro now
    rw [List.append_assoc, waitedOut_lost hfail, hsince]
    intro e he
    obtain he | he := List.mem_append.1 he
    · exact (lost_of_mem_lostDials he).1
    · rw [List.mem_singleton.1 he]
  rw [redialled_iff hstops]
  unfold again redial
  rw [heq]
  obtain ⟨hl, hres, hans, hmute⟩ | ⟨hmute, hres, hans⟩ | ⟨hans, hres, hmute⟩ := hg.cases (s.dials + n)
  · -- The redial has given up, which it does only after the window.
    have hlate : since + window ≤ w.endOf s.now s.dials n :=
      (Int.add_le_add_right hle _).trans (hstops.last hl)
    rw [hres, hans, hmute]
    exact iff_of_true ((endures_raised (.inl rfl)).2 ((hlost _).2 hlate)) ⟨by rintro ⟨⟩, by rintro ⟨⟩⟩
  · -- The hello could not be sent, and `_redial` does not catch it.
    rw [hres, hans, hmute]
    refine (endures_raised (.inr rfl)).trans ((hlost _).trans ?_)
    exact ⟨fun h => ⟨fun _ => h, by rintro ⟨⟩⟩, fun h => h.1 rfl⟩
  · -- The connection stands. What counts is the exchange after it.
    have htimes : ∀ e ∈ s.log ++ w.lostDials s.now s.dials n, e.time ≤ w.endOf s.now s.dials n := by
      intro e he
      obtain he | he := List.mem_append.1 he
      · exact (htime e he).trans (w.le_endOf ..)
      · exact (lost_of_mem_lostDials he).2
    rw [hres, hans, hmute]
    show w.Endures window (w.exchangeOnce _) ↔ _
    simp only [exchangeOnce]
    cases he : (w.exchange s.requests).answers with
    | true =>
      obtain ⟨answer, hx⟩ := answered_of_answers he
      exact iff_of_true (.inl ⟨_, answer, hx, by rw [hx]; rfl⟩) ⟨by rintro ⟨⟩, by rintro - ⟨⟩⟩
    | false =>
      have hwaited : WaitedOut window (s.log ++ w.lostDials s.now s.dials n ++
          [⟨true, w.endOf s.now s.dials n⟩] ++ [⟨false, w.endOf s.now s.dials n + w.exchangeTook s.requests⟩])
          (w.endOf s.now s.dials n + w.exchangeTook s.requests) ↔ window ≤ w.exchangeTook s.requests := by
        obtain ⟨first, hmem, hno⟩ := hfail
        rw [waitedOut_lost ⟨first, by simp [hmem], hno⟩ (by simp), waitedOut_answer htimes]
        exact Int.add_le_add_iff_left _
      refine (endures_raised (result_of_unanswered he)).trans (hwaited.trans ?_)
      exact ⟨fun h => ⟨by rintro ⟨⟩, fun _ _ => h⟩, fun h => h.2 trivial rfl⟩

/-! ## The whole request -/

variable (window) in
theorem attempt_iff (hg : w.Greets) {s : Conn} {since : Int}
    (hsince : ∀ now, WaitedOut window (s.log ++ [⟨false, s.now + w.exchangeTook s.requests⟩]) now ↔
      since + window ≤ now)
    (htime : ∀ e ∈ s.log, e.time ≤ s.now) (hle : since ≤ s.now + w.exchangeTook s.requests) :
    w.Endures window (w.attempt window true s) ↔ ((w.exchange s.requests).answers = false →
      w.Redialled window (s.now + w.exchangeTook s.requests) since s.dials (s.requests + 1)) := by
  cases he : (w.exchange s.requests).answers with
  | true =>
    obtain ⟨answer, hx⟩ := answered_of_answers he
    refine iff_of_true (.inl ⟨_, answer, hx, ?_⟩) (by rintro ⟨⟩)
    simp [attempt, exchangeOnce, hx, Exchange.result]
  | false =>
    have hagain : w.attempt window true s = w.again window (w.exchangeOnce s).2.drop := by
      obtain hr | hr := result_of_unanswered he <;> simp [attempt, exchangeOnce, hr]
    have hlog : (w.exchangeOnce s).2.drop.log =
        s.log ++ [⟨false, s.now + w.exchangeTook s.requests⟩] := by
      rw [← he]
      rfl
    have hfail : ∃ e ∈ (w.exchangeOnce s).2.drop.log, e.answered = false := by
      rw [hlog]
      exact ⟨_, List.mem_append_right _ (List.mem_singleton_self _), rfl⟩
    rw [hagain, again_iff hg (by rwa [hlog]) hfail _ hle]
    · exact ⟨fun h _ => h, fun h => h rfl⟩
    · intro e hmem
      rw [hlog] at hmem
      show e.time ≤ s.now + w.exchangeTook s.requests
      obtain hmem | hmem := List.mem_append.1 hmem
      · have := htime e hmem
        omega
      · rw [List.mem_singleton.1 hmem]

/-- When a request that starts at `now` survives. -/
def Weathers (w : World α) (window : Int) (sock : Bool) (now : Int) : Prop :=
  if sock then
    (w.exchange 0).answers = false →
      w.Redialled window (now + w.exchangeTook 0) (now + w.exchangeTook 0) 0 1
  else ∀ n, w.Stops (now + window) now 0 n →
    -- The window counts from the start of the first dial.
    ((w.dial n).answers = false → w.endOf now 0 0 + window ≤ w.endOf now 0 n) ∧
    ((w.dial n).answers → (w.exchange 0).answers = false →
      let failed := w.endOf now 0 n + w.exchangeTook 0
      w.Redialled window failed (if n = 0 then failed else w.endOf now 0 n) (n + 1) 1)

theorem waitedOut_first {log : List Event} {time now : Int} (hl : ∀ e ∈ log, e.answered = false) :
    WaitedOut window (⟨false, time⟩ :: log) now ↔ time + window ≤ now := by
  constructor
  · intro h
    exact h.sinceFailure ⟨false, time⟩ rfl
  · intro h
    refine ⟨fun e he => ?_, fun e he hans => ?_⟩
    · obtain rfl : (⟨false, time⟩ : Event) = e := Option.some.inj he
      exact h
    · obtain rfl | he := List.mem_cons.1 he
      · cases hans
      · rw [hl e he] at hans
        cases hans

theorem lostDials_concat (w : World α) (t : Int) (k n : Nat) :
    w.lostDials t k n ++ [⟨false, w.endOf t k n⟩] = w.lostDials t k (n + 1) := by
  simp [lostDials, List.range_succ]

/-- After a redial that was answered, and then an exchange that was not. -/
theorem waitedOut_redialled (w : World α) (window t : Int) (n : Nat) (now : Int) :
    WaitedOut window (w.lostDials t 0 n ++ [⟨true, w.endOf t 0 n⟩] ++
        [⟨false, w.endOf t 0 n + w.exchangeTook 0⟩]) now ↔
      (if n = 0 then w.endOf t 0 n + w.exchangeTook 0 else w.endOf t 0 n) + window ≤ now := by
  cases n with
  | zero =>
    rw [if_pos rfl]
    constructor
    · intro h
      exact h.sinceFailure ⟨false, _⟩ rfl
    · intro h
      refine ⟨fun e he => ?_, fun e he hans => ?_⟩
      · obtain rfl : (⟨false, _⟩ : Event) = e := Option.some.inj he
        exact h
      · simp only [lostDials, List.range_zero, List.map_nil, List.nil_append, List.cons_append,
          List.mem_cons, List.not_mem_nil, or_false] at he
        obtain rfl | rfl := he
        · show w.endOf t 0 0 + window ≤ now
          omega
        · cases hans
  | succ n =>
    have hfail : ∃ e ∈ w.lostDials t 0 (n + 1) ++ [⟨true, w.endOf t 0 (n + 1)⟩], e.answered = false := by
      rw [lostDials_succ]
      exact ⟨_, List.mem_cons_self, rfl⟩
    rw [if_neg n.succ_ne_zero, waitedOut_lost hfail (by simp),
      waitedOut_answer fun e he => (lost_of_mem_lostDials he).2]

theorem ask_iff (hg : w.Greets) (sock : Bool) (now : Int) :
    w.Endures window (w.ask window true (.start sock now)) ↔ w.Weathers window sock now := by
  cases sock with
  | true => exact attempt_iff window hg (fun _ => waitedOut_first (by simp)) (by simp [Conn.start]) le_rfl
  | false =>
    obtain ⟨n, sock, hstops, heq⟩ := w.redialUntil_spec (now + window) (.start false now)
    rw [show (Conn.start false now).dials + n = n from Nat.zero_add n] at heq
    have hunique {m : Nat} (hm : w.Stops (now + window) now 0 m) : m = n := hm.unique hstops
    have hask : w.ask window true (.start false now) =
        match w.redialUntil (now + window) (.start false now) with
        | (.error e, s) => (.error e, s)
        | (.ok (), s) => w.attempt window true s := rfl
    rw [hask, heq]
    simp only [Conn.start, List.nil_append]
    have hgiveUp (e : Raised) (hans : (w.dial n).answers = false) (h : e = .os ∨ e = .undelivered) :
        w.Endures window (.error e, ⟨w.endOf now 0 n, sock, n + 1, 0,
          w.lostDials now 0 n ++ [⟨false, w.endOf now 0 n⟩]⟩) ↔ w.Weathers window false now := by
      have hwaited : WaitedOut window (w.lostDials now 0 n ++ [⟨false, w.endOf now 0 n⟩]) (w.endOf now 0 n) ↔
          w.endOf now 0 0 + window ≤ w.endOf now 0 n := by
        rw [lostDials_concat, lostDials_succ]
        exact waitedOut_first fun e he => (lost_of_mem_lostDials he).1
      have hraised : (.error e : Except Raised (Reply α)) = .error .os ∨
          (.error e : Except Raised (Reply α)) = .error .undelivered := by
        obtain rfl | rfl := h
        · exact .inl rfl
        · exact .inr rfl
      refine (endures_raised hraised).trans (hwaited.trans ⟨fun hw m hm => ?_, fun h => (h n hstops).1 hans⟩)
      rw [hunique hm, hans]
      exact ⟨fun _ => hw, by rintro ⟨⟩⟩
    obtain ⟨-, hres, hans, -⟩ | ⟨-, hres, hans⟩ | ⟨hans, hres, -⟩ := hg.cases n
    · rw [hres, hans]
      exact hgiveUp .os hans (.inl rfl)
    · rw [hres, hans]
      exact hgiveUp .undelivered hans (.inr rfl)
    · have htime : ∀ e ∈ w.lostDials now 0 n ++ [⟨true, w.endOf now 0 n⟩], e.time ≤ w.endOf now 0 n := by
        intro e he
        obtain he | he := List.mem_append.1 he
        · exact (lost_of_mem_lostDials he).2
        · rw [List.mem_singleton.1 he]
      have hattempt := attempt_iff window (s := ⟨w.endOf now 0 n, sock, n + 1, 0, _⟩) hg
        (fun T => w.waitedOut_redialled window now n T) htime (by dsimp only; split <;> omega)
      rw [hres, hans]
      refine hattempt.trans ⟨fun h m hm => ?_, fun h => (h n hstops).2 hans⟩
      rw [hunique hm]
      exact ⟨fun hno => absurd (hans.symm.trans hno) (by decide), fun _ => h⟩

/-! ## The answer -/

/-- What a request gives before its answer is checked. -/
def Tells (w : World α) (r : Except Raised (Reply α)) : Prop :=
  (∃ k answer, w.exchange k = .answered answer ∧ r = .ok answer) ∨ r = .error .os ∨ r = .error .undelivered

theorem exchangeOnce_tells (w : World α) (s : Conn) : w.Tells (w.exchangeOnce s).1 := by
  cases he : (w.exchange s.requests).answers with
  | true =>
    obtain ⟨answer, hx⟩ := answered_of_answers he
    exact .inl ⟨_, answer, hx, by simp [exchangeOnce, hx, Exchange.result]⟩
  | false => exact .inr (result_of_unanswered he)

theorem redial_raises (hg : w.Greets) {s s' : Conn} {e : Raised} (h : w.redial window s = (.error e, s')) :
    (.error e : Except Raised (Reply α)) = .error .os ∨
      (.error e : Except Raised (Reply α)) = .error .undelivered := by
  obtain ⟨n, sock, -, heq⟩ := w.redialUntil_spec (s.now + window) s
  have hres : (w.dial (s.dials + n)).result = .error e := congrArg Prod.fst (heq.symm.trans h)
  obtain ⟨-, hr, -⟩ | ⟨-, hr, -⟩ | ⟨-, hr, -⟩ := hg.cases (s.dials + n) <;> rw [hr] at hres <;> cases hres
  · exact .inl rfl
  · exact .inr rfl

theorem again_tells (hg : w.Greets) (s : Conn) : w.Tells (w.again window s).1 := by
  unfold again
  split
  · next e s' heq => exact .inr (redial_raises hg heq)
  · exact exchangeOnce_tells w _

theorem attempt_tells (hg : w.Greets) (s : Conn) : w.Tells (w.attempt window true s).1 := by
  unfold attempt
  split
  · exact again_tells hg _
  · exact again_tells hg _
  · exact exchangeOnce_tells w s

variable (window) in
theorem ask_tells (hg : w.Greets) (s : Conn) : w.Tells (w.ask window true s).1 := by
  unfold ask
  split
  · next e s' heq =>
    split at heq
    · cases heq
    · exact .inr (redial_raises hg heq)
  · exact attempt_tells hg _

/-- The check of an answer raises no connection error. -/
theorem checked_apart {answer : Reply α} {expect : Option String} {r : Except Raised (Reply α)}
    (hr : r = .error .os ∨ r = .error .undelivered) (h : r = (checked answer expect).mapError .mentat) :
    False := by
  cases hc : checked answer expect <;> rw [hc] at h <;> obtain rfl | rfl := hr <;> cases h

theorem survives_iff_endures (hg : w.Greets) (expect : Option String) (sock : Bool) (now : Int) :
    w.Survives window expect sock now ↔ w.Endures window (w.ask window true (.start sock now)) := by
  have hraised (r : Except Raised (Reply α)) (h : r = .error .os ∨ r = .error .undelivered) :
      (r.bind fun answer => (checked answer expect).mapError .mentat) = r := by
    obtain rfl | rfl := h <;> rfl
  unfold Survives Endures request
  obtain ⟨k, answer, hx, hr⟩ | hr := ask_tells window hg (.start sock now)
  · exact iff_of_true (.inl ⟨k, answer, hx, by simp only [hr]; rfl⟩) (.inl ⟨k, answer, hx, hr⟩)
  · simp only [hraised _ hr]
    refine or_congr (iff_of_false ?_ ?_) Iff.rfl
    · rintro ⟨k, answer, -, h⟩
      exact checked_apart hr h
    · rintro ⟨k, answer, -, h⟩
      obtain hr | hr := hr <;> rw [hr] at h <;> cases h

theorem survives_iff (hg : w.Greets) (expect : Option String) (sock : Bool) (now : Int) :
    w.Survives window expect sock now ↔ w.Weathers window sock now :=
  (survives_iff_endures hg expect sock now).trans (ask_iff hg sock now)

end World

/-! ## Two restarts -/

def helloOk : Reply Unit := ⟨some "hello_ok", none, some shimProto, ()⟩

/-- The daemon resets the connection. After `first` it takes every dial, and answers. Everything takes a
millisecond. -/
def restart (first : Dial Unit) : World Unit where
  dial k := if k = 0 then first else .accepted (.answered helloOk)
  dialTook _ := 1000000
  exchange k := if k = 0 then .unanswered else .answered ⟨some "ok", none, none, ()⟩
  exchangeTook _ := 1000000

theorem restart_greets {first : Dial Unit} (h : first.answers = false) : (restart first).Greets := by
  intro k hello hk
  simp only [restart] at hk
  split at hk
  · rw [hk] at h
    cases h
  · obtain rfl : helloOk = hello := by injection hk with hk; injection hk
    rfl

theorem survives_iff_refused : (restart .refused).Survives 60000000000 none true 0 := by
  refine (World.survives_iff (restart_greets rfl) none true 0).2 fun _ => ⟨fun n _ h => ?_, fun _ _ _ h => ?_⟩
  · simp only [restart] at h
    split at h <;> cases h
  · cases h

/-- The first connection the daemon takes is reset before the hello. -/
theorem muteHello_raises : (restart (.accepted .undelivered)).Greets ∧
    ((restart (.accepted .undelivered)).request 60000000000 true none (.start true 0)).1 =
      .error .undelivered ∧
    ¬ (restart (.accepted .undelivered)).Survives 60000000000 none true 0 := by
  have hstop (s : Conn) (hs : s.dials = 0) : (restart (.accepted .undelivered)).redial 60000000000 s =
      (restart (.accepted .undelivered)).dialOnce s :=
    World.redialUntil_of_not_lost (by rw [hs]; decide)
  have hrequest : (restart (.accepted .undelivered)).request 60000000000 true none (.start true 0) =
      (.error .undelivered, ⟨2000000, true, 1, 1, [⟨false, 1000000⟩, ⟨false, 2000000⟩]⟩) := by
    have hagain : (restart (.accepted .undelivered)).again 60000000000 ⟨1000000, false, 0, 1, [⟨false, 1000000⟩]⟩ =
        (.error .undelivered, ⟨2000000, true, 1, 1, [⟨false, 1000000⟩, ⟨false, 2000000⟩]⟩) := by
      rw [World.again, hstop _ rfl]
      rfl
    have hask : (restart (.accepted .undelivered)).ask 60000000000 true (.start true 0) =
        (restart (.accepted .undelivered)).again 60000000000 ⟨1000000, false, 0, 1, [⟨false, 1000000⟩]⟩ := rfl
    rw [World.request, hask, hagain]
    rfl
  refine ⟨restart_greets rfl, by rw [hrequest], ?_⟩
  unfold World.Survives
  rw [hrequest]
  rintro (⟨_, _, -, h⟩ | ⟨-, hw⟩)
  · exact World.checked_apart (.inr rfl) h
  · have hlate : (1000000 : Int) + 60000000000 ≤ 2000000 := hw.sinceFailure ⟨false, 1000000⟩ rfl
    omega

end Mentat.Redial
