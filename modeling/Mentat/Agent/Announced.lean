import Mathlib.Data.List.Infix
import Mentat.Lib.Text

/-!
# Reading an endpoint

The value of `MENTAT_OPENAI_API` or `MENTAT_MCP_API`, as the two agents read it. The Rust agent's
`announced_services` has `parse_announcement`, then `split_url` for a value that is a whole URL. The
Python agent (`ray.register`) has `announced`, which says it splits the value the way the Rust agent does.

Both cut the value the same way, into a host, a port and a path (`hostOf`, `portOf` and `pathOf`). The
rest differs:
* Python strips the value first, and reads the port with `int`, which takes signs, underscores, spaces,
  the digits of every script, and a number of any size up to a limit on its digits.
* Rust wants a `u16`. It refuses an authority without a colon, and a value with a scheme other than
  `http`.

`read_alike_iff` says for which values the two still agree.
-/

namespace Mentat.Announced

/-! ## The Rust agent -/

def withoutPlus : Text → Text
  | '+' :: rest => rest
  | s => s

/-- `str::parse::<u16>`. -/
def parseU16 (s : Text) : Option UInt16 :=
  let digits := withoutPlus s
  if digits ≠ [] ∧ digits.all Char.isDigit ∧ Text.digitsValue digits < 65536 then
    some (UInt16.ofNat (Text.digitsValue digits))
  else none

structure Service where
  host : Text
  port : UInt16
  path : Text
  provider : Text := []
  note : Text := []
deriving DecidableEq

inductive Announcement where
  /-- A whole URL, used exactly as written. -/
  | url (u : Text)
  /-- A port and a path with the host left open. -/
  | port (port : UInt16) (path : Text)
deriving DecidableEq

def http : Text := ['h', 't', 't', 'p', ':', '/', '/']

def splitPath (rest : Text) : Option (UInt16 × Text) :=
  let (port, path) := Text.cutAt '/' rest
  (parseU16 port).map (·, path)

def parseAnnouncement (v : Text) : Announcement :=
  let orVerbatim : Option (UInt16 × Text) → Announcement
    | some (port, path) => .port port path
    | none => .url v
  match v.dropPrefix? http with
  | some rest =>
    match rest.dropPrefix? ['0', '.', '0', '.', '0', '.', '0', ':'] with
    | none => .url v
    | some rest => orVerbatim (splitPath rest)
  | none => if [':', '/', '/'] <:+: v then .url v else orVerbatim (splitPath v)

/-- A wildcard host reads as the port form. -/
def named (host : Text) : Text :=
  if host = ['0', '.', '0', '.', '0', '.', '0'] ∨ host = [':', ':'] then [] else host

def splitUrl (u : Text) : Option Service := do
  let rest ← u.dropPrefix? http
  let (authority, path) := Text.cutAt '/' rest
  let (host, port) ← Text.rsplitOnce ':' authority
  return { host := named host, port := ← parseU16 port, path }

/-- One round of `announced_services`. Where there is no service the process exits. -/
def announcedService (v : Text) : Option Service :=
  match parseAnnouncement v with
  | .port port path => some { host := [], port, path }
  | .url u => splitUrl u

/-! ## The Python agent -/

/-- What `int` takes a number from: the limit on its digits, and the decimal digits of all scripts. -/
structure IntCfg where
  limit : Option Nat
  decimal : Char → Option (Fin 10)

/-- ASCII stays, a space of any kind is a blank, and a digit of any script is its ASCII digit. -/
def IntCfg.toAscii (cfg : IntCfg) (c : Char) : Option Char :=
  if c.toNat ≤ 127 then some c
  else if Text.isSpace c then some ' '
  else (cfg.decimal c).map fun d => Char.ofNat (48 + d)

/-- The space around a number, which is fewer characters than `Text.isSpace` has. -/
def isBlank (c : Char) : Bool := (9 ≤ c.toNat && c.toNat ≤ 13) || c.toNat == 32

/-- The digits of a numeral, with one underscore at most between two of them. -/
def ungroup (afterDigit : Bool) : Text → Option Text
  | [] => if afterDigit then some [] else none
  | c :: s =>
    if c = '_' then if afterDigit then ungroup false s else none
    else if c.isDigit then (ungroup true s).map (c :: ·) else none

def IntCfg.fits (cfg : IntCfg) (n : Nat) : Bool := cfg.limit.all fun limit => decide (n ≤ limit)

/-- Whether a number is negative, and its numeral. -/
def signed : Text → Bool × Text
  | '-' :: rest => (true, rest)
  | '+' :: rest => (false, rest)
  | s => (false, s)

/-- `int`, with none for a `ValueError`. -/
def IntCfg.int (cfg : IntCfg) (s : Text) : Option Int := do
  let s ← s.mapM cfg.toAscii
  let (negative, numeral) := signed (Text.stripped isBlank s)
  let digits ← ungroup false numeral
  if cfg.fits digits.length then
    return if negative then -(Text.digitsValue digits : Int) else Text.digitsValue digits
  else none

structure PyService where
  host : Text
  port : Int
  path : Text
deriving DecidableEq

def announced (cfg : IntCfg) (value : Text) : Option PyService :=
  let v := Text.strip value
  let (host, port, path) :=
    if http <+: v then
      let (authority, slash, path) := Text.partition '/' (v.drop http.length)
      let (host, _, port) := Text.rpartition ':' authority
      (named host, port, slash ++ path)
    else
      let (port, slash, path) := Text.partition '/' v
      ([], port, slash ++ path)
  (cfg.int port).map fun port => { host, port, path }

/-- The fields of a service that `announced` gives. -/
def Service.toPy (s : Service) : PyService := ⟨s.host, s.port.toNat, s.path⟩

/-! ## The cut -/

/-- The value without its scheme. -/
def afterScheme (v : Text) : Text := if http <+: v then v.drop http.length else v

/-- The authority of a URL, or the port of the other form. -/
def placeOf (v : Text) : Text := (afterScheme v).takeWhile (· != '/')

def pathOf (v : Text) : Text := (afterScheme v).dropWhile (· != '/')

def hostOf (v : Text) : Text := if http <+: v then named (Text.rpartition ':' (placeOf v)).1 else []

def portOf (v : Text) : Text := if http <+: v then (Text.rpartition ':' (placeOf v)).2.2 else placeOf v

/-- The forms Rust reads: a URL whose authority has a port, and a value with no scheme. -/
def Readable (v : Text) : Prop :=
  if http <+: v then ':' ∈ placeOf v else ¬ [':', '/', '/'] <:+: v

instance (v : Text) : Decidable (Readable v) := by unfold Readable; infer_instance

theorem announced_eq (cfg : IntCfg) (v : Text) :
    announced cfg v =
      (cfg.int (portOf (Text.strip v))).map fun port => ⟨hostOf (Text.strip v), port, pathOf (Text.strip v)⟩ := by
  unfold announced hostOf portOf pathOf placeOf afterScheme
  by_cases h : http <+: Text.strip v
  · simp only [if_pos h, (Text.partition_eq '/' _).1, (Text.partition_eq '/' _).2]
  · simp only [if_neg h, (Text.partition_eq '/' _).1, (Text.partition_eq '/' _).2]

theorem splitUrl_eq {v : Text} (h : http <+: v) :
    splitUrl v = if Readable v then
      (parseU16 (portOf v)).map fun port => { host := hostOf v, port, path := pathOf v }
    else none := by
  have hrest : v.dropPrefix? http = some (afterScheme v) := by
    obtain ⟨rest, rfl⟩ := h
    simp [afterScheme, List.dropPrefix?_append_of_beq]
  unfold splitUrl Readable portOf hostOf Text.rpartition
  simp only [hrest, if_pos h, Text.cutAt, Option.bind_eq_bind, Option.bind_some]
  show (Text.rsplitOnce ':' (placeOf v)).bind _ = _
  by_cases hc : ':' ∈ placeOf v
  · simp only [Text.rsplitOnce, if_pos hc, Option.bind_some]
    cases parseU16 ((placeOf v).rtakeWhile (· != ':')) <;> rfl
  · simp [Text.rsplitOnce, hc]

theorem withoutPlus_cases (s : Text) : withoutPlus s = s ∨ s = '+' :: withoutPlus s := by
  unfold withoutPlus
  split
  · exact .inr rfl
  · exact .inl rfl

theorem digits_of_parseU16 {s : Text} {n : UInt16} (h : parseU16 s = some n) :
    ∃ sign digits, s = sign ++ digits ∧ (sign = [] ∨ sign = ['+']) ∧ digits ≠ [] ∧
      (∀ c ∈ digits, c.isDigit) ∧ Text.digitsValue digits < 65536 ∧ n = UInt16.ofNat (Text.digitsValue digits) := by
  unfold parseU16 at h
  obtain ⟨⟨hne, hall, hlt⟩, hn⟩ := Option.ite_none_right_eq_some.1 h
  have hall := List.all_eq_true.1 hall
  have hn := (Option.some.inj hn).symm
  obtain hs | hs := withoutPlus_cases s
  · exact ⟨[], _, hs.symm, .inl rfl, hne, hall, hlt, hn⟩
  · exact ⟨['+'], _, hs, .inr rfl, hne, hall, hlt, hn⟩

theorem range_of_parseU16 {s : Text} {n : UInt16} (h : parseU16 s = some n) :
    s ≠ [] ∧ ∀ c ∈ s, 43 ≤ c.toNat ∧ c.toNat ≤ 57 := by
  obtain ⟨sign, digits, rfl, hs, hne, hall, -⟩ := digits_of_parseU16 h
  refine ⟨fun e => hne (List.append_eq_nil_iff.1 e).2, fun c hc => ?_⟩
  obtain hc | hc := List.mem_append.1 hc
  · obtain rfl | rfl := hs
    · cases hc
    · rw [List.mem_singleton.1 hc]
      decide
  · have := Text.toNat_of_isDigit (hall c hc)
    omega

theorem announcedService_eq (v : Text) :
    announcedService v = if Readable v then
      (parseU16 (portOf v)).map fun port => { host := hostOf v, port, path := pathOf v }
    else none := by
  unfold announcedService parseAnnouncement
  by_cases h : http <+: v
  · obtain ⟨rest, rfl⟩ := h
    have hv : http <+: http ++ rest := List.prefix_append ..
    have hrest : afterScheme (http ++ rest) = rest := by simp [afterScheme]
    simp only [List.dropPrefix?_append_of_beq rest (BEq.refl http)]
    cases hw : rest.dropPrefix? ['0', '.', '0', '.', '0', '.', '0', ':'] with
    | none => exact splitUrl_eq hv
    | some rest' =>
      simp only [splitPath, Text.cutAt]
      cases hp : parseU16 (rest'.takeWhile (· != '/')) with
      | none => exact splitUrl_eq hv
      | some port =>
        -- The port has no colon, so `split_url` would cut the authority at the same place.
        obtain ⟨w, rfl, hbeq⟩ := List.dropPrefix?_eq_some_iff.1 hw
        obtain rfl := eq_of_beq hbeq
        have hplace : placeOf (http ++ (['0', '.', '0', '.', '0', '.', '0', ':'] ++ rest')) =
            ['0', '.', '0', '.', '0', '.', '0'] ++ ':' :: rest'.takeWhile (· != '/') := by
          rw [placeOf, hrest]
          rfl
        have hcolon : ':' ∉ rest'.takeWhile (· != '/') := by
          intro hc
          have := ((range_of_parseU16 hp).2 ':' hc).2
          revert this
          decide
        have hcut := Text.rsplitOnce_append ['0', '.', '0', '.', '0', '.', '0'] hcolon
        have hread : Readable (http ++ (['0', '.', '0', '.', '0', '.', '0', ':'] ++ rest')) := by
          rw [Readable, if_pos hv, hplace]
          simp
        rw [if_pos hread]
        simp only [portOf, hostOf, if_pos hv, hplace, Text.rpartition, hcut, hp, pathOf, hrest]
        rfl
  · have hno : v.dropPrefix? http = none := by
      refine Option.eq_none_iff_forall_ne_some.2 fun rest hr => ?_
      obtain ⟨w, rfl, hw⟩ := List.dropPrefix?_eq_some_iff.1 hr
      exact h (eq_of_beq hw ▸ List.prefix_append ..)
    have hurl : splitUrl v = none := by simp [splitUrl, hno]
    simp only [hno, Readable, if_neg h]
    by_cases hs : [':', '/', '/'] <:+: v
    · simp [hs, hurl]
    · simp only [if_neg hs, if_pos hs, splitPath, Text.cutAt]
      simp only [portOf, hostOf, pathOf, placeOf, afterScheme, if_neg h]
      cases hp : parseU16 (v.takeWhile (· != '/')) with
      | none => exact hurl
      | some port => rfl

/-! ## The two integer parsers -/

theorem mapM_toAscii (cfg : IntCfg) {s : Text} (h : ∀ c ∈ s, c.toNat ≤ 127) :
    s.mapM cfg.toAscii = some s := by
  induction s with
  | nil => rfl
  | cons c s ih =>
    have hc : cfg.toAscii c = some c := if_pos (h c List.mem_cons_self)
    have hs := ih fun x hx => h x (List.mem_cons_of_mem _ hx)
    simp [List.mapM_cons, hc, hs]

theorem ungroup_digits {s : Text} (h : ∀ c ∈ s, c.isDigit) (b : Bool) (hb : b = true ∨ s ≠ []) :
    ungroup b s = some s := by
  induction s generalizing b with
  | nil =>
    obtain rfl | hne := hb
    · rfl
    · exact absurd rfl hne
  | cons c s ih =>
    have hc := h c List.mem_cons_self
    have hu : c ≠ '_' := by
      rintro rfl
      cases hc
    rw [ungroup, if_neg hu, if_pos hc, ih (fun x hx => h x (List.mem_cons_of_mem _ hx)) true (.inl rfl)]
    rfl

theorem signed_digits {s : Text} (h : ∀ c ∈ s, c.isDigit) : signed s = (false, s) := by
  unfold signed
  split
  · cases h '-' List.mem_cons_self
  · cases h '+' List.mem_cons_self
  · rfl

theorem int_of_parseU16 (cfg : IntCfg) {s : Text} {n : UInt16} (h : parseU16 s = some n) :
    cfg.int s = if cfg.fits (s.countP Char.isDigit) then some (n.toNat : Int) else none := by
  have hrange := (range_of_parseU16 h).2
  obtain ⟨sign, digits, rfl, hsign, hne, hall, hlt, rfl⟩ := digits_of_parseU16 h
  have hascii := mapM_toAscii cfg fun c hc => (hrange c hc).2.trans (by omega)
  have hblank : Text.stripped isBlank (sign ++ digits) = sign ++ digits := by
    refine Text.stripped_eq_self fun c hc => ?_
    have := hrange c hc
    simp only [isBlank, Bool.or_eq_false_iff, Bool.and_eq_false_iff, decide_eq_false_iff_not, beq_eq_false_iff_ne]
    omega
  have hcount : (sign ++ digits).countP Char.isDigit = digits.length := by
    have hdigits : digits.countP Char.isDigit = digits.length := List.countP_eq_length.2 hall
    obtain rfl | rfl := hsign
    · exact hdigits
    · simpa using hdigits
  have hgroup := ungroup_digits hall false (.inr hne)
  have hval : (UInt16.ofNat (Text.digitsValue digits)).toNat = Text.digitsValue digits :=
    UInt16.toNat_ofNat_of_lt' hlt
  have hsigned : signed (sign ++ digits) = (false, digits) := by
    obtain rfl | rfl := hsign
    · exact signed_digits hall
    · rfl
  rw [hcount, hval, IntCfg.int, hascii, Option.bind_eq_bind, Option.bind_some, hblank, hsigned]
  simp [hgroup]

/-! ## Values that Rust reads -/

/-- The scheme and the authority, or the port of the other form. -/
def frontOf (v : Text) : Text := (if http <+: v then http else []) ++ placeOf v

theorem front_path (v : Text) : frontOf v ++ pathOf v = v := by
  rw [frontOf, placeOf, pathOf, List.append_assoc, List.takeWhile_append_dropWhile]
  by_cases h : http <+: v
  · obtain ⟨rest, rfl⟩ := h
    simp [afterScheme]
  · simp [afterScheme, h]

theorem path_cases (v : Text) : pathOf v = [] ∨ ∃ path, pathOf v = '/' :: path := by
  unfold pathOf
  cases h : (afterScheme v).dropWhile (· != '/') with
  | nil => exact .inl rfl
  | cons c path =>
    have hc := List.head_dropWhile_not (· != '/') (l := afterScheme v) (by simp [h])
    simp only [h, List.head_cons, bne_eq_false_iff_eq] at hc
    exact .inr ⟨path, by rw [hc]⟩

/-- The port is what the front ends in. -/
theorem port_suffix {v : Text} (hr : Readable v) : portOf v <:+ frontOf v := by
  unfold Readable at hr
  unfold portOf frontOf
  by_cases h : http <+: v
  · rw [if_pos h] at hr
    simp only [if_pos h, Text.rpartition, Text.rsplitOnce, if_pos hr]
    exact (List.rtakeWhile_suffix ..).trans (List.suffix_append ..)
  · simp [h]

theorem isSpace_of_range {c : Char} (h : 43 ≤ c.toNat ∧ c.toNat ≤ 57) : Text.isSpace c = false := by
  simp only [Text.isSpace, Bool.or_eq_false_iff, Bool.and_eq_false_iff, decide_eq_false_iff_not, beq_eq_false_iff_ne]
  omega

theorem front_starts {v : Text} {n : UInt16} (hp : parseU16 (portOf v) = some n) :
    ∃ c front, frontOf v = c :: front ∧ Text.isSpace c = false ∧ (c = 'h' → http <+: v) := by
  by_cases h : http <+: v
  · exact ⟨'h', _, by rw [frontOf, if_pos h]; rfl, by decide, fun _ => h⟩
  · have hport : frontOf v = portOf v := by simp [frontOf, portOf, h]
    obtain ⟨hne, hrange⟩ := range_of_parseU16 hp
    obtain ⟨c, front, hc⟩ := List.exists_cons_of_ne_nil hne
    have hin := hrange c (by simp [hc])
    refine ⟨c, front, hport.trans hc, isSpace_of_range hin, ?_⟩
    rintro rfl
    exact absurd hin.2 (by decide)

theorem front_ends {v : Text} {n : UInt16} (hr : Readable v) (hp : parseU16 (portOf v) = some n) :
    ∃ front d, frontOf v = front ++ [d] ∧ Text.isSpace d = false := by
  obtain ⟨hne, hrange⟩ := range_of_parseU16 hp
  obtain ⟨pre, hpre⟩ := port_suffix hr
  refine ⟨pre ++ (portOf v).dropLast, (portOf v).getLast hne, ?_,
    isSpace_of_range (hrange _ (List.getLast_mem hne))⟩
  rw [List.append_assoc, List.dropLast_concat_getLast hne, hpre]

theorem strip_eq {v : Text} {n : UInt16} (hr : Readable v) (hp : parseU16 (portOf v) = some n) :
    Text.strip v = frontOf v ++ (pathOf v).rdropWhile Text.isSpace := by
  obtain ⟨c, front, hstart, hc, -⟩ := front_starts hp
  obtain ⟨front', d, hend, hd⟩ := front_ends hr hp
  have hdrop : (frontOf v ++ pathOf v).dropWhile Text.isSpace = frontOf v ++ pathOf v := by
    rw [hstart]
    exact List.dropWhile_cons_of_neg (by simp [hc])
  rw [Text.strip, Text.stripped]
  conv_lhs => rw [← front_path v, hdrop, hend, Text.rdropWhile_append_of_last hd, ← hend]

theorem rdropWhile_path (v : Text) :
    (pathOf v).rdropWhile Text.isSpace = [] ∨ ∃ path, (pathOf v).rdropWhile Text.isSpace = '/' :: path := by
  obtain h | ⟨path, h⟩ := path_cases v
  · simp [h]
  · right
    rw [h, ← List.nil_append ('/' :: path), ← List.singleton_append (l := path), ← List.append_assoc,
      Text.rdropWhile_append_of_last (by decide)]
    exact ⟨_, rfl⟩

/-- Of a value that Rust reads, stripping takes the end of the path, and nothing else. -/
theorem strip_cut {v : Text} {n : UInt16} (hr : Readable v) (hp : parseU16 (portOf v) = some n) :
    (http <+: Text.strip v ↔ http <+: v) ∧ placeOf (Text.strip v) = placeOf v ∧
      pathOf (Text.strip v) = (pathOf v).rdropWhile Text.isSpace := by
  have hstrip := strip_eq hr hp
  have hplace : ∀ c ∈ placeOf v, (c != '/') = true := by
    intro c hc
    exact List.mem_takeWhile_imp (p := (· != '/')) hc
  have hcut := Text.cut_append hplace (rdropWhile_path v)
  by_cases h : http <+: v
  · have hs : Text.strip v = http ++ (placeOf v ++ (pathOf v).rdropWhile Text.isSpace) := by
      rw [hstrip, frontOf, if_pos h, List.append_assoc]
    have hrest : afterScheme (Text.strip v) = placeOf v ++ (pathOf v).rdropWhile Text.isSpace := by
      simp [afterScheme, hs]
    have hurl : http <+: Text.strip v := hs ▸ List.prefix_append ..
    exact ⟨iff_of_true hurl h, by rw [placeOf, hrest, hcut.1], by rw [pathOf, hrest, hcut.2]⟩
  · have hno : ¬ http <+: Text.strip v := by
      obtain ⟨c, front, hstart, -, hc⟩ := front_starts hp
      rintro ⟨rest, hrest⟩
      rw [hstrip, hstart] at hrest
      exact h (hc (List.cons.inj hrest).1.symm)
    have hrest : afterScheme (Text.strip v) = placeOf v ++ (pathOf v).rdropWhile Text.isSpace := by
      rw [afterScheme, if_neg hno, hstrip, frontOf, if_neg h, List.nil_append]
    exact ⟨iff_of_false hno h, by rw [placeOf, hrest, hcut.1], by rw [pathOf, hrest, hcut.2]⟩

theorem portOf_strip {v : Text} {n : UInt16} (hr : Readable v) (hp : parseU16 (portOf v) = some n) :
    portOf (Text.strip v) = portOf v := by
  obtain ⟨hurl, hplace, -⟩ := strip_cut hr hp
  simp only [portOf, hurl, hplace]

theorem strip_eq_self_of_path {v : Text} {n : UInt16} (hr : Readable v) (hp : parseU16 (portOf v) = some n)
    (hpath : pathOf (Text.strip v) = pathOf v) : Text.strip v = v := by
  rw [strip_eq hr hp, ← (strip_cut hr hp).2.2, hpath, front_path]

/-! ## The values both read alike -/

structure BothRead (cfg : IntCfg) (v : Text) : Prop where
  /-- A value that Python reads has no space around it, and a form and a port that Rust reads. -/
  plain : (cfg.int (portOf (Text.strip v))).isSome →
    Text.strip v = v ∧ Readable v ∧ (parseU16 (portOf v)).isSome
  /-- A value that Rust reads has no more digits in its port than `int` takes. -/
  short : Readable v → (parseU16 (portOf v)).isSome → cfg.fits ((portOf v).countP Char.isDigit)

theorem announced_of_short {cfg : IntCfg} {v : Text} {n : UInt16} (hr : Readable v)
    (hp : parseU16 (portOf v) = some n) (hfits : cfg.fits ((portOf v).countP Char.isDigit)) :
    announced cfg v = some ⟨hostOf (Text.strip v), n.toNat, pathOf (Text.strip v)⟩ := by
  rw [announced_eq, portOf_strip hr hp, int_of_parseU16 cfg hp, if_pos hfits]
  rfl

theorem announcedService_eq_some {v : Text} {s : Service} (h : announcedService v = some s) :
    Readable v ∧ parseU16 (portOf v) = some s.port ∧ s.path = pathOf v := by
  rw [announcedService_eq] at h
  obtain ⟨hr, h⟩ := Option.ite_none_right_eq_some.1 h
  obtain ⟨port, hp, rfl⟩ := Option.map_eq_some_iff.1 h
  exact ⟨hr, hp, rfl⟩

theorem read_alike_iff (cfg : IntCfg) (v : Text) :
    announced cfg v = (announcedService v).map Service.toPy ↔ BothRead cfg v := by
  constructor
  · intro heq
    cases hs : announcedService v with
    | none =>
      rw [hs, announced_eq] at heq
      have hint : cfg.int (portOf (Text.strip v)) = none := Option.map_eq_none_iff.1 heq
      refine ⟨fun h => by simp [hint] at h, fun hr hp => ?_⟩
      -- Rust would have given a service.
      obtain ⟨n, hn⟩ := Option.isSome_iff_exists.1 hp
      rw [announcedService_eq, if_pos hr, hn] at hs
      cases hs
    | some s =>
      obtain ⟨hr, hp, hpath⟩ := announcedService_eq_some hs
      rw [hs, announced_eq] at heq
      obtain ⟨port, hint, hpy⟩ := Option.map_eq_some_iff.1 heq
      have hself : Text.strip v = v := by
        refine strip_eq_self_of_path hr hp ?_
        rw [← hpath]
        exact congrArg PyService.path hpy
      refine ⟨fun _ => ⟨hself, hr, by simp [hp]⟩, fun _ _ => ?_⟩
      rw [hself, int_of_parseU16 cfg hp] at hint
      exact (Option.ite_none_right_eq_some.1 hint).1
  · rintro ⟨hplain, hshort⟩
    rw [announcedService_eq]
    by_cases hread : Readable v ∧ (parseU16 (portOf v)).isSome
    · obtain ⟨hr, hsome⟩ := hread
      obtain ⟨n, hn⟩ := Option.isSome_iff_exists.1 hsome
      have hfits := hshort hr hsome
      have hint : (cfg.int (portOf (Text.strip v))).isSome := by
        rw [portOf_strip hr hn, int_of_parseU16 cfg hn, if_pos hfits]
        rfl
      rw [announced_of_short hr hn hfits, (hplain hint).1, if_pos hr, hn]
      rfl
    · have hint : cfg.int (portOf (Text.strip v)) = none :=
        Option.not_isSome_iff_eq_none.1 fun h => hread (hplain h).2
      rw [announced_eq, hint]
      split
      · next hr =>
        have hnone : parseU16 (portOf v) = none :=
          Option.not_isSome_iff_eq_none.1 fun h => hread ⟨hr, h⟩
        rw [hnone]
        rfl
      · rfl

/-- `99999/v1`. -/
def tooLarge : Text := ['9', '9', '9', '9', '9', '/', 'v', '1']

theorem tooLarge_apart : announcedService tooLarge = none ∧
    ∀ decimal, announced ⟨some 4300, decimal⟩ tooLarge = some ⟨[], 99999, ['/', 'v', '1']⟩ :=
  ⟨by decide, fun _ => rfl⟩

end Mentat.Announced
