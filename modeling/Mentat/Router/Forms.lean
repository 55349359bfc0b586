import Mathlib
import Mentat.Json
import Mentat.Lib.Search
import Mentat.Lib.Table
import Mentat.Lib.Text

/-!
# The model a form names

`proxy.rs`: `route_by` and what it reads a multipart form with. The body is cut wherever the boundary
stands behind two hyphens, and a part's headers are searched as one text in lower case.

`encode` is the body that a client makes of text fields and uploads, and `forms_read_iff` says which
of them are read as they were meant.
-/

namespace Mentat.Form

/-! ## Reading -/

def eqIgnoreAsciiCase (a b : Text) : Bool := a.map Char.toLower == b.map Char.toLower

def boundaryOf (contentType : Text) : Option Text :=
  match Text.splitOnce ';' contentType with
  | none => none
  | some (kind, params) =>
    if eqIgnoreAsciiCase (Text.trim kind) "multipart/form-data".toList then
      (params.splitOn ';').findSome? fun p => match Text.splitOnce '=' p with
        | none => none
        | some (k, v) =>
          if eqIgnoreAsciiCase (Text.trim k) "boundary".toList then
            some (Text.stripped (· == '"') (Text.trim v))
          else none
    else none

def delimiter (boundary : Text) : Text := '-' :: '-' :: boundary

def crlf : Text := ['\r', '\n']

def stripSuffix (suffix l : List UInt8) : List UInt8 :=
  if suffix <:+ l then l.take (l.length - suffix.length) else l

def filenameKey : Text := "filename=".toList

def nameKey : Text := "name=\"".toList

/-- The name that the headers have, in lower case. None for a part with a filename. -/
def nameIn (head : Text) : Option Text :=
  let head := head.map Char.toLower
  if filenameKey <:+: head then none
  else match Search.splitOnce nameKey head with
    | none => none
    | some (_, rest) => (Text.splitOnce '"' rest).map (·.1)

def textPart (part : List UInt8) : Option (Text × Text) :=
  match Search.find (utf8 (crlf ++ crlf)) part with
  | none => none
  | some i =>
    match nameIn (fromUtf8Lossy (part.take i)) with
    | none => none
    | some name => (fromUtf8 (stripSuffix (utf8 crlf) (part.drop (i + 4)))).map fun value => (name, value)

/-- The fields with those of a part. -/
def insertPart (out : Table Text Text) (part : List UInt8) : Table Text Text :=
  (textPart part).elim out fun field => out.set field.1 field.2

/-- The loop over the rest of the body. What is before the first delimiter is no part. -/
def scan (boundary : Text) (out : Table Text Text) (started : Bool) (rest : List UInt8) :
    Table Text Text :=
  match _hfind : Search.find (utf8 (delimiter boundary)) rest with
  | none => out
  | some i =>
    scan boundary (if started then insertPart out (rest.take i) else out) true
      (rest.drop (i + (utf8 (delimiter boundary)).length))
termination_by rest.length
decreasing_by
  have hle := Search.find_le _hfind
  have hpos : 0 < (utf8 (delimiter boundary)).length := by
    simp [delimiter, utf8, Char.utf8Size_pos]
  rw [List.length_drop]
  omega

def formFields (body : List UInt8) (boundary : Text) : Table Text Text := scan boundary ∅ false body

structure Routed where
  model : Text
  stream : Bool
deriving DecidableEq

/-- The JSON parser is a parameter. -/
def routeBy (fromSlice : List UInt8 → Option Value) (contentType : Option Text) (body : List UInt8) :
    Except String Routed :=
  match boundaryOf (contentType.getD []) with
  | some boundary =>
    let fields := formFields body boundary
    match fields.get "model".toList with
    | none => .error "no model field in the form"
    | some model => .ok ⟨model, fields.get "stream".toList == some "true".toList⟩
  | none =>
    match fromSlice body with
    | none => .error "body is neither JSON nor multipart/form-data"
    | some parsed =>
      match (parsed.idx "model").asStr with
      | none => .error "no model field in request"
      | some model => .ok ⟨model.toList, (parsed.idx "stream").asBool.getD false⟩

/-! ## Writing -/

def isBchar (c : Char) : Bool := c.isAlphanum || "'()+_,-./:=? ".toList.contains c

/-- A boundary as the standard has it. -/
structure Boundary where
  text : Text
  nonempty : text ≠ []
  short : text.length ≤ 70
  chars : ∀ c ∈ text, isBchar c = true
  last : text.getLast? ≠ some ' '

inductive Part where
  | text (name value : Text)
  | file (name filename : Text) (content : List UInt8)

/-- A quoted string has a backslash before a quote, a backslash and a carriage return. -/
def isSpecial (c : Char) : Bool := c = '"' || c = '\\' || c = '\r'

def quote (s : Text) : Text := s.flatMap fun c => if isSpecial c then ['\\', c] else [c]

def disposition : Text := "Content-Disposition: form-data; name=".toList

def filenameParam : Text := "; filename=".toList

def octetStream : Text := crlf ++ "Content-Type: application/octet-stream".toList

namespace Part

def header : Part → Text
  | text name _ => disposition ++ '"' :: (quote name ++ ['"'])
  | file name filename _ => disposition ++ '"' :: (quote name ++ '"' ::
      (filenameParam ++ '"' :: (quote filename ++ '"' :: octetStream)))

/-- The texts in quotes. -/
def quoted : Part → List Text
  | text name _ => [name]
  | file name filename _ => [name, filename]

def content : Part → List UInt8
  | text _ value => utf8 value
  | file _ _ content => content

/-- What stands between two delimiters. -/
def segment (p : Part) : List UInt8 :=
  utf8 (crlf ++ p.header) ++ (utf8 (crlf ++ crlf) ++ (p.content ++ utf8 crlf))

end Part

def encode (b : Boundary) (parts : List Part) : List UInt8 :=
  parts.flatMap (fun p => utf8 (delimiter b.text) ++ p.segment) ++
    (utf8 (delimiter b.text) ++ utf8 ("--".toList ++ crlf))

/-- A text part's name and value. -/
def Part.field : Part → Option (Text × Text)
  | text name value => some (name, value)
  | file _ _ _ => none

/-- The last value of each name. -/
def meant (parts : List Part) (name : Text) : Option Text :=
  (parts.filterMap Part.field).reverse.lookup name

/-! ## What a part reads as -/

namespace Part

/-- The delimiter is nowhere in it, also not in the middle of a line. -/
def Clear (b : Boundary) : Part → Prop
  | text name value => ¬ delimiter b.text <:+: name ∧ ¬ delimiter b.text <:+: value
  | file name filename content => ¬ delimiter b.text <:+: name ∧
      ¬ delimiter b.text <:+: filename ∧ ¬ utf8 (delimiter b.text) <:+: content

/-- A text part's name is in lower case, needs no backslash and does not look like a filename. -/
def Plain : Part → Prop
  | text name _ => (∀ c ∈ name, isSpecial c = false ∧ c.toLower = c) ∧ ¬ filenameKey <:+: name
  | file _ _ _ => True

end Part

section Delimiter

variable {b : Boundary}

theorem isBchar_delimiter {c : Char} (h : c ∈ delimiter b.text) : isBchar c = true := by
  rcases List.mem_cons.mp h with rfl | h
  · rfl
  · rcases List.mem_cons.mp h with rfl | h
    · rfl
    · exact b.chars c h

theorem not_mem_delimiter {c : Char} (h : isBchar c = false) : c ∉ delimiter b.text := by
  intro hc
  rw [isBchar_delimiter hc] at h
  cases h

theorem ascii_of_isBchar {c : Char} (h : isBchar c = true) : c.toNat < 128 := by
  rcases Bool.or_eq_true _ _ |>.mp h with h | h
  · simp only [Char.isAlphanum, Char.isAlpha, Char.isUpper, Char.isLower, Char.isDigit,
      Bool.or_eq_true, Bool.and_eq_true, decide_eq_true_eq] at h
    have hle : c.val ≤ 122 := by
      rcases h with (h | h) | h
      · exact UInt32.le_trans h.2 (by decide)
      · exact h.2
      · exact UInt32.le_trans h.2 (by decide)
    have hnat : c.val.toNat ≤ 122 := hle
    exact Nat.lt_of_le_of_lt hnat (by decide)
  · have hall : ∀ c ∈ "'()+_,-./:=? ".toList, c.toNat < 128 :=
      Text.forall_mem_of_all (by decide)
    exact hall c (List.contains_iff_mem.mp h)

theorem ascii_delimiter : ∀ c ∈ delimiter b.text, c.toNat < 128 :=
  fun _ hc => ascii_of_isBchar (isBchar_delimiter hc)

end Delimiter

section Quote

variable {needle s : Text}

theorem prefix_of_quote (hn : ∀ c ∈ needle, isSpecial c = false) (h : needle <+: quote s) :
    needle <+: s := by
  induction needle generalizing s with
  | nil => exact List.nil_prefix
  | cons d needle ih =>
    cases s with
    | nil => exact h
    | cons c s =>
      have hd := hn d List.mem_cons_self
      rw [quote, List.flatMap_cons] at h
      split at h
      · rw [List.cons_append, List.cons_prefix_cons] at h
        rw [h.1] at hd
        cases hd
      · rw [List.cons_append, List.nil_append, List.cons_prefix_cons] at h
        exact List.cons_prefix_cons.mpr
          ⟨h.1, ih (fun e he => hn e (List.mem_cons_of_mem d he)) h.2⟩

/-- What is found in a quoted text and has nothing to quote is found in the text. -/
theorem infix_of_quote (hn : ∀ c ∈ needle, isSpecial c = false) (h : needle <:+: quote s) :
    needle <:+: s := by
  by_cases hne : needle = []
  · exact hne ▸ List.nil_infix
  induction s with
  | nil => exact h
  | cons c s ih =>
    rw [quote, List.flatMap_cons] at h
    split at h
    · next hc =>
      refine (ih (Search.infix_of_foreign (fun d hd hin => ?_) hne h)).trans
        (List.suffix_cons c s).isInfix
      have hd' := hn d hin
      rcases List.mem_cons.mp hd with rfl | hd
      · cases hd'
      · rw [List.mem_singleton.mp hd, hc] at hd'
        cases hd'
    · next hc =>
      rw [List.cons_append, List.nil_append] at h
      rcases List.infix_cons_iff.mp h with h | h
      · refine (prefix_of_quote hn (s := c :: s) ?_).isInfix
        rw [quote, List.flatMap_cons, if_neg hc]
        exact h
      · exact (ih h).trans (List.suffix_cons c s).isInfix

theorem quote_eq_self (h : ∀ c ∈ s, isSpecial c = false) : quote s = s := by
  induction s with
  | nil => rfl
  | cons c s ih =>
    have hrest := ih fun d hd => h d (List.mem_cons_of_mem c hd)
    rw [quote] at hrest ⊢
    rw [List.flatMap_cons, hrest, h c List.mem_cons_self]
    rfl

theorem length_quote (s : Text) : (quote s).length = s.length + s.countP isSpecial := by
  induction s with
  | nil => rfl
  | cons c s ih =>
    rw [quote] at ih ⊢
    rw [List.flatMap_cons, List.length_append, ih, List.countP_cons]
    split <;> simp only [List.length_cons, List.length_nil] <;> omega

/-- In a quoted text no carriage return follows a line feed. -/
theorem feed_return_quote (s : Text) : ¬ ['\n', '\r'] <:+: quote s := by
  induction s with
  | nil => decide
  | cons c s ih =>
    rw [quote, List.flatMap_cons]
    split
    · next hc =>
      rw [List.cons_append, List.cons_append, List.nil_append]
      intro h
      rcases List.infix_cons_iff.mp h with h | h
      · exact absurd (List.cons_prefix_cons.mp h).1 (by decide)
      · rcases List.infix_cons_iff.mp h with h | h
        · rw [← (List.cons_prefix_cons.mp h).1] at hc
          exact absurd hc (by decide)
        · exact ih h
    · rw [List.cons_append, List.nil_append, List.infix_cons_iff, List.cons_prefix_cons]
      rintro (⟨-, hnext⟩ | h)
      · -- A carriage return has a backslash before it.
        cases s with
        | nil => exact absurd hnext (by decide)
        | cons d s =>
          rw [List.flatMap_cons] at hnext
          split at hnext
          · exact absurd (List.cons_prefix_cons.mp hnext).1 (by decide)
          · next hd =>
            rw [← (List.cons_prefix_cons.mp hnext).1] at hd
            exact hd rfl
      · exact ih h

end Quote

/-! ## Where a part ends -/

section Segment

variable {b : Boundary} {p : Part}

/-- What a header is besides its names. -/
def fixedTexts : List Text := [disposition, filenameParam, octetStream]

/-- What the letters of the fixed texts decide. -/
structure HeaderTexts : Prop where
  begins : disposition = 'C' :: disposition.tail
  ends : octetStream = octetStream.dropLast ++ ['m']
  lines : ∀ s ∈ fixedTexts, ¬ ['\n', '\r'] <:+: s
  hyphens : ∀ s ∈ fixedTexts, ¬ ['-', '-'] <:+: s
  lower : crlf ++ (disposition.map Char.toLower ++ ['"']) =
    (crlf ++ "content-disposition: form-data; ".toList) ++ nameKey
  before : Search.Before nameKey (crlf ++ "content-disposition: form-data; ".toList)
  quoteless : '"' ∉ filenameKey
  nameless : filenameKey ≠ []
  noFile : ¬ filenameKey <:+: crlf ++ disposition.map Char.toLower
  file : filenameKey <:+: filenameParam.map Char.toLower

theorem headerTexts : HeaderTexts where
  begins := by decide
  ends := by decide
  lines := by decide
  hyphens := by decide
  lower := by decide
  before := by
    have hlast : (crlf ++ "content-disposition: form-data; ".toList).getLast? = some ' ' := by
      decide
    refine ⟨by decide, fun c hc => ?_⟩
    rw [hlast] at hc
    cases hc
    decide
  quoteless := by decide
  nameless := by decide
  noFile := by decide
  file := by decide

/-- A needle without a quote is in a header only where it is in one of the pieces between quotes. -/
theorem infix_header {needle : Text} (hquote : '"' ∉ needle) (hne : needle ≠ [])
    (h : needle <:+: p.header) :
    (∃ s ∈ fixedTexts, needle <:+: s) ∨ ∃ s ∈ p.quoted, needle <:+: quote s := by
  cases p with
  | text name value =>
    rcases (Search.infix_append_cons_iff hquote).mp h with h | h
    · exact .inl ⟨_, List.mem_cons_self, h⟩
    · rcases (Search.infix_append_cons_iff hquote).mp h with h | h
      · exact .inr ⟨name, List.mem_cons_self, h⟩
      · exact absurd (List.infix_nil.mp h) hne
  | file name filename content =>
    rcases (Search.infix_append_cons_iff hquote).mp h with h | h
    · exact .inl ⟨_, List.mem_cons_self, h⟩
    · rcases (Search.infix_append_cons_iff hquote).mp h with h | h
      · exact .inr ⟨name, List.mem_cons_self, h⟩
      · rcases (Search.infix_append_cons_iff hquote).mp h with h | h
        · exact .inl ⟨_, List.mem_cons_of_mem _ List.mem_cons_self, h⟩
        · rcases (Search.infix_append_cons_iff hquote).mp h with h | h
          · exact .inr ⟨filename, List.mem_cons_of_mem _ List.mem_cons_self, h⟩
          · exact .inl ⟨_, List.mem_cons_of_mem _ (List.mem_cons_of_mem _ List.mem_cons_self), h⟩

/-- In a header no line is empty. -/
theorem feed_return_header (p : Part) : ¬ ['\n', '\r'] <:+: p.header := by
  intro h
  rcases infix_header (by decide) (by decide) h with ⟨s, hs, h⟩ | ⟨s, -, h⟩
  · exact headerTexts.lines s hs h
  · exact feed_return_quote s h

theorem delimiter_header (h : p.Clear b) : ¬ delimiter b.text <:+: p.header := by
  intro hin
  rcases infix_header (not_mem_delimiter (by decide)) (by simp [delimiter]) hin with
    ⟨s, hs, hin⟩ | ⟨s, hs, hin⟩
  · exact headerTexts.hyphens s hs (List.IsInfix.trans (List.prefix_append ['-', '-'] b.text).isInfix hin)
  · have hspecial : ∀ c ∈ delimiter b.text, isSpecial c = false := by
      intro c hc
      rw [Bool.eq_false_iff]
      intro hsp
      simp only [isSpecial, Bool.or_eq_true, decide_eq_true_eq] at hsp
      rcases hsp with (rfl | rfl) | rfl <;> exact not_mem_delimiter (by decide) hc
    have hplain := infix_of_quote hspecial hin
    cases p with
    | text name value => exact h.1 (List.mem_singleton.mp hs ▸ hplain)
    | file name filename content =>
      rcases List.mem_pair.mp hs with rfl | rfl
      · exact h.1 hplain
      · exact h.2.1 hplain

theorem not_mem_utf8_delimiter {c : Char} (hc : c.toNat < 128) (h : isBchar c = false) :
    UInt8.ofNat c.toNat ∉ utf8 (delimiter b.text) := by
  intro hin
  obtain ⟨d, hd, hin⟩ := List.mem_flatMap.mp hin
  have hd' := ascii_delimiter d hd
  rw [utf8EncodeChar_ascii hd', List.mem_singleton] at hin
  have hcode := congrArg UInt8.toNat hin
  simp only [UInt8.toNat_ofNat'] at hcode
  have hsame : c = d := Char.toNat_inj.mp (by omega)
  exact not_mem_delimiter h (hsame ▸ hd)

theorem utf8_delimiter_ne_nil : utf8 (delimiter b.text) ≠ [] := by
  simp [delimiter, utf8]

/-- A part ends where the next delimiter begins. -/
theorem before_segment (h : p.Clear b) : Search.Before (utf8 (delimiter b.text)) p.segment := by
  have hcr : (13 : UInt8) ∉ utf8 (delimiter b.text) :=
    not_mem_utf8_delimiter (c := '\r') (by decide) (by decide)
  have hlf : (10 : UInt8) ∉ utf8 (delimiter b.text) :=
    not_mem_utf8_delimiter (c := '\n') (by decide) (by decide)
  have hnil : ¬ utf8 (delimiter b.text) <:+: [] :=
    fun hin => utf8_delimiter_ne_nil (List.infix_nil.mp hin)
  have hhead : ¬ utf8 (delimiter b.text) <:+: utf8 (crlf ++ p.header) := by
    intro hin
    have hboth := Search.infix_of_utf8 ascii_delimiter hin
    refine delimiter_header h (Search.infix_of_foreign (fun c hc => ?_) (by simp [delimiter]) hboth)
    rcases List.mem_pair.mp hc with rfl | rfl <;> exact not_mem_delimiter (by decide)
  have hcontent : ¬ utf8 (delimiter b.text) <:+: p.content := by
    cases p with
    | text name value => exact fun hin => h.2 (Search.infix_of_utf8 ascii_delimiter hin)
    | file name filename content => exact h.2.2
  constructor
  · intro hin
    have hbytes : p.segment =
        utf8 (crlf ++ p.header) ++ 13 :: ([10] ++ 13 :: ([10] ++ (p.content ++ 13 :: [10]))) := rfl
    rw [hbytes] at hin
    rcases (Search.infix_append_cons_iff hcr).mp hin with hin | hin
    · exact hhead hin
    · rcases (Search.infix_append_cons_iff (a := []) hlf).mp hin with hin | hin
      · exact hnil hin
      · rcases (Search.infix_append_cons_iff (a := []) hcr).mp hin with hin | hin
        · exact hnil hin
        · rcases (Search.infix_append_cons_iff (a := []) hlf).mp hin with hin | hin
          · exact hnil hin
          · rcases (Search.infix_append_cons_iff hcr).mp hin with hin | hin
            · exact hcontent hin
            · rcases (Search.infix_append_cons_iff (a := []) (b := []) hlf).mp hin with hin | hin
              · exact hnil hin
              · exact hnil hin
  · intro c hc
    have hbytes : p.segment =
        (utf8 (crlf ++ p.header) ++ (utf8 (crlf ++ crlf) ++ (p.content ++ [13]))) ++ [10] := by
      have hcrlf : utf8 crlf = [13] ++ [10] := rfl
      simp only [Part.segment, hcrlf, List.append_assoc]
    rw [hbytes, List.getLast?_concat] at hc
    exact Option.some.inj hc ▸ hlf

end Segment

/-! ## Reading a part -/

theorem header_begins (p : Part) : ∃ rest, p.header = 'C' :: rest := by
  have hfixed := headerTexts.begins
  cases p with
  | text name value => exact ⟨_, by rw [Part.header, hfixed, List.cons_append]⟩
  | file name filename content => exact ⟨_, by rw [Part.header, hfixed, List.cons_append]⟩

theorem header_ends (p : Part) : ∃ front d, p.header = front ++ [d] ∧ (d = '"' ∨ d = 'm') := by
  cases p with
  | text name value =>
    refine ⟨disposition ++ '"' :: quote name, '"', ?_, .inl rfl⟩
    rw [Part.header, List.append_assoc, List.cons_append]
  | file name filename content =>
    have hfixed := headerTexts.ends
    refine ⟨disposition ++ '"' :: (quote name ++ '"' ::
      (filenameParam ++ '"' :: (quote filename ++ '"' :: octetStream.dropLast))), 'm', ?_, .inr rfl⟩
    rw [Part.header]
    conv_lhs => rw [hfixed]
    simp only [List.append_assoc, List.cons_append]

/-- A part's headers end at its first empty line. -/
theorem before_head (p : Part) : Search.Before (utf8 (crlf ++ crlf)) (utf8 (crlf ++ p.header)) := by
  constructor
  · intro h
    have hin : crlf ++ crlf <:+: crlf ++ p.header := Search.infix_of_utf8 (Text.forall_mem_of_all (by decide)) h
    have hfeed : ['\n', '\r'] <:+: '\r' :: '\n' :: p.header :=
      List.IsInfix.trans ⟨['\r'], ['\n'], rfl⟩ hin
    rcases List.infix_cons_iff.mp hfeed with hfeed | hfeed
    · exact absurd (List.cons_prefix_cons.mp hfeed).1 (by decide)
    · rcases List.infix_cons_iff.mp hfeed with hfeed | hfeed
      · obtain ⟨rest, hrest⟩ := header_begins p
        rw [hrest] at hfeed
        exact absurd (List.cons_prefix_cons.mp (List.cons_prefix_cons.mp hfeed).2).1 (by decide)
      · exact feed_return_header p hfeed
  · intro c hc
    obtain ⟨front, d, hend, hd⟩ := header_ends p
    have hascii : d.toNat < 128 := by rcases hd with rfl | rfl <;> decide
    rw [hend, ← List.append_assoc, utf8_append, Search.utf8_ascii_cons hascii, utf8_nil,
      List.getLast?_concat] at hc
    rw [← Option.some.inj hc]
    rcases hd with rfl | rfl <;> decide

theorem stripSuffix_append (s suffix : List UInt8) : stripSuffix suffix (s ++ suffix) = s := by
  rw [stripSuffix, if_pos (List.suffix_append s suffix), List.length_append, Nat.add_sub_cancel,
    List.take_left]

theorem textPart_segment (p : Part) : textPart p.segment =
    (nameIn (crlf ++ p.header)).bind fun name => (fromUtf8 p.content).map fun value =>
      (name, value) := by
  have hdrop : p.segment.drop ((utf8 (crlf ++ p.header)).length + 4) = p.content ++ utf8 crlf := by
    have hlen : (utf8 (crlf ++ p.header)).length + 4 =
        (utf8 (crlf ++ p.header) ++ utf8 (crlf ++ crlf)).length := by
      rw [List.length_append]
      rfl
    rw [hlen, Part.segment, ← List.append_assoc, List.drop_left]
  have hfind : Search.find (utf8 (crlf ++ crlf)) p.segment = some (utf8 (crlf ++ p.header)).length :=
    Search.find_append (before_head p) _
  have htake : p.segment.take (utf8 (crlf ++ p.header)).length = utf8 (crlf ++ p.header) :=
    List.take_left
  simp only [textPart, hfind, htake, fromUtf8Lossy_utf8, hdrop, stripSuffix_append]
  cases nameIn (crlf ++ p.header) <;> rfl

/-! ## Reading a name -/

/-- The name that a text part's headers are read as having. -/
def readName (name : Text) : Text := ((quote name).map Char.toLower).takeWhile (· != '"')

/-- What is before the first separator, with one at the end. -/
theorem splitOnce_concat (c : Char) (s : Text) :
    (Text.splitOnce c (s ++ [c])).map (·.1) = some (s.takeWhile (· != c)) := by
  have htake : (s ++ [c]).takeWhile (· != c) = s.takeWhile (· != c) := by
    rw [List.takeWhile_append]
    split
    · next hall =>
      rw [((List.takeWhile_prefix _).eq_of_length hall)]
      simp
    · rfl
  unfold Text.splitOnce
  cases h : (s ++ [c]).dropWhile (· != c) with
  | nil =>
    have hc := List.dropWhile_eq_nil_iff.mp h c (by simp)
    simp at hc
  | cons d rest => rw [← htake]; rfl

theorem nameIn_text (name value : Text) : nameIn (crlf ++ (Part.text name value).header) =
    if filenameKey <:+: (quote name).map Char.toLower then none else some (readName name) := by
  have hlower : (crlf ++ (Part.text name value).header).map Char.toLower =
      (crlf ++ disposition.map Char.toLower) ++ '"' :: ((quote name).map Char.toLower ++ ['"']) := by
    simp only [Part.header, List.map_append, List.map_cons, List.map_nil, List.append_assoc]
    rfl
  have hfile : filenameKey <:+: (crlf ++ (Part.text name value).header).map Char.toLower ↔
      filenameKey <:+: (quote name).map Char.toLower := by
    have hnil : ¬ filenameKey <:+: [] := fun h => headerTexts.nameless (List.infix_nil.mp h)
    rw [hlower, Search.infix_append_cons_iff headerTexts.quoteless,
      Search.infix_append_cons_iff headerTexts.quoteless]
    simp only [headerTexts.noFile, hnil, false_or, or_false]
  have hsplit : Search.splitOnce nameKey ((crlf ++ (Part.text name value).header).map Char.toLower) =
      some (crlf ++ "content-disposition: form-data; ".toList,
        (quote name).map Char.toLower ++ ['"']) := by
    rw [hlower, List.append_cons, List.append_assoc crlf, headerTexts.lower, List.append_assoc]
    exact Search.splitOnce_append headerTexts.before _
  simp only [nameIn, hfile, hsplit, splitOnce_concat]
  rfl

theorem nameIn_file (name filename : Text) (content : List UInt8) :
    nameIn (crlf ++ (Part.file name filename content).header) = none := by
  have hlower : (crlf ++ (Part.file name filename content).header).map Char.toLower =
      (crlf ++ disposition.map Char.toLower) ++ '"' :: ((quote name).map Char.toLower ++ '"' ::
        (filenameParam.map Char.toLower ++ '"' :: ((quote filename).map Char.toLower ++ '"' ::
          octetStream.map Char.toLower))) := by
    simp only [Part.header, List.map_append, List.map_cons, List.append_assoc]
    rfl
  have hin : filenameKey <:+: (crlf ++ (Part.file name filename content).header).map Char.toLower := by
    have hquote := headerTexts.quoteless
    rw [hlower]
    exact (Search.infix_append_cons_iff hquote).mpr (.inr ((Search.infix_append_cons_iff hquote).mpr
      (.inr ((Search.infix_append_cons_iff hquote).mpr (.inl headerTexts.file)))))
  rw [nameIn]
  exact if_pos hin

/-- The field that a part is read as. -/
def Part.readAs : Part → Option (Text × Text)
  | .text name value =>
    if filenameKey <:+: (quote name).map Char.toLower then none else some (readName name, value)
  | .file _ _ _ => none

theorem textPart_eq (p : Part) : textPart p.segment = p.readAs := by
  rw [textPart_segment]
  cases p with
  | text name value =>
    rw [nameIn_text, Part.readAs, Part.content, fromUtf8_utf8]
    split <;> rfl
  | file name filename content =>
    rw [nameIn_file]
    rfl

/-! ## Reading a body -/

section Body

variable {b : Boundary}

theorem scan_none {boundary : Text} {out : Table Text Text} {started : Bool} {rest : List UInt8}
    (h : Search.find (utf8 (delimiter boundary)) rest = none) : scan boundary out started rest = out := by
  rw [scan]
  split
  · rfl
  · next hfind => rw [h] at hfind; cases hfind

/-- One turn of the loop. -/
theorem scan_append {boundary : Text} {out : Table Text Text} {started : Bool} {part : List UInt8}
    (h : Search.Before (utf8 (delimiter boundary)) part) (rest : List UInt8) :
    scan boundary out started (part ++ (utf8 (delimiter boundary) ++ rest)) =
      scan boundary (if started then insertPart out part else out) true rest := by
  have hfind := Search.find_append h rest
  rw [scan]
  split
  · next hnone => rw [hfind] at hnone; cases hnone
  · next i hi =>
    rw [hfind] at hi
    cases hi
    rw [List.take_left, ← List.append_assoc, ← List.length_append, List.drop_left]

/-- What follows the first delimiter. -/
def body (b : Boundary) : List Part → List UInt8
  | [] => utf8 ("--".toList ++ crlf)
  | p :: parts => p.segment ++ (utf8 (delimiter b.text) ++ body b parts)

theorem encode_eq (parts : List Part) : encode b parts = utf8 (delimiter b.text) ++ body b parts := by
  induction parts with
  | nil => rfl
  | cons p parts ih =>
    rw [encode] at ih ⊢
    rw [List.flatMap_cons, List.append_assoc, ih, body]
    simp only [List.append_assoc]

/-- The loop goes through the parts. -/
theorem scan_body {parts : List Part} (h : ∀ p ∈ parts, p.Clear b) (out : Table Text Text) :
    scan b.text out true (body b parts) =
      (parts.filterMap Part.readAs).foldl (fun out f => out.set f.1 f.2) out := by
  induction parts generalizing out with
  | nil =>
    refine scan_none (Search.find_eq_none.mpr fun hin => ?_)
    have hclose : delimiter b.text <:+: ['-', '-'] ++ '\r' :: ['\n'] :=
      Search.infix_of_utf8 ascii_delimiter hin
    have hlen := List.length_pos_iff.mpr b.nonempty
    rcases (Search.infix_append_cons_iff (not_mem_delimiter (by decide))).mp hclose with hin | hin
    all_goals
      have hle := hin.length_le
      simp only [delimiter, List.length_cons, List.length_nil] at hle
      omega
  | cons p parts ih =>
    rw [body, scan_append (before_segment (h p List.mem_cons_self)), if_pos rfl, insertPart,
      textPart_eq, ih fun q hq => h q (List.mem_cons_of_mem p hq), List.filterMap_cons]
    cases p.readAs <;> rfl

theorem formFields_encode {parts : List Part} (h : ∀ p ∈ parts, p.Clear b) :
    formFields (encode b parts) b.text =
      (parts.filterMap Part.readAs).foldl (fun out f => out.set f.1 f.2) ∅ := by
  have hfirst : Search.Before (utf8 (delimiter b.text)) [] :=
    ⟨fun hin => utf8_delimiter_ne_nil (List.infix_nil.mp hin), by simp⟩
  rw [formFields, encode_eq, ← List.nil_append (utf8 (delimiter b.text) ++ body b parts),
    scan_append hfirst]
  exact scan_body h ∅

theorem get_foldl_set (l : List (Text × Text)) (out : Table Text Text) (name : Text) :
    (l.foldl (fun out f => out.set f.1 f.2) out).get name =
      (l.reverse.lookup name).or (out.get name) := by
  induction l using List.reverseRecOn with
  | nil => rfl
  | append_singleton l f ih =>
    rw [List.foldl_append, List.foldl_cons, List.foldl_nil, Table.get_set, List.reverse_append,
      List.reverse_singleton, List.singleton_append, ih, List.lookup_cons]
    by_cases hf : name = f.1
    · simp [hf]
    · simp [hf, beq_eq_false_iff_ne.mpr hf]

/-- Whatever the names: each field is the last that is read under its name. -/
theorem get_formFields {parts : List Part} (h : ∀ p ∈ parts, p.Clear b) (name : Text) :
    (formFields (encode b parts) b.text).get name =
      (parts.filterMap Part.readAs).reverse.lookup name := by
  rw [formFields_encode h, get_foldl_set]
  exact Option.or_none

end Body

/-! ## The names -/

/-- The fields are read as they were meant. -/
def Reads (b : Boundary) (parts : List Part) : Prop :=
  ∀ name, (formFields (encode b parts) b.text).get name = meant parts name

theorem toLower_toLower (c : Char) : c.toLower.toLower = c.toLower := by
  have hupper : ∀ d : Char, ¬ (d.val ≥ 'A'.val ∧ d.val ≤ 'Z'.val) → d.toLower = d := by
    intro d hd
    rw [Char.toLower, dif_neg hd]
  by_cases h : c.val ≥ 'A'.val ∧ c.val ≤ 'Z'.val
  · refine hupper _ fun hagain => ?_
    have hval : c.toLower.val = c.val + ('a'.val - 'A'.val) := by rw [Char.toLower, dif_pos h]
    have hlo : 65 ≤ c.val.toNat := h.1
    have hhi : c.val.toNat ≤ 90 := h.2
    have hbig : c.toLower.val.toNat ≤ 90 := hagain.2
    rw [hval, UInt32.toNat_add] at hbig
    have hshift : ('a'.val - 'A'.val).toNat = 32 := by decide
    rw [hshift] at hbig
    omega
  · rw [hupper c h, hupper c h]

theorem readAs_of_plain {p : Part} (h : p.Plain) : p.readAs = p.field := by
  cases p with
  | file name filename content => rfl
  | text name value =>
    obtain ⟨hchars, hfile⟩ := h
    have hlower : (quote name).map Char.toLower = name := by
      rw [quote_eq_self fun c hc => (hchars c hc).1]
      exact (List.map_congr_left fun c hc => (hchars c hc).2).trans (List.map_id name)
    have hread : readName name = name := by
      rw [readName, hlower, List.takeWhile_eq_self_iff]
      intro c hc
      refine bne_iff_ne.mpr fun hquote => ?_
      have hspecial := (hchars c hc).1
      rw [hquote] at hspecial
      cases hspecial
    rw [Part.readAs, hlower, if_neg hfile, hread]
    rfl

theorem reads_of_plain {b : Boundary} {parts : List Part} (h : ∀ p ∈ parts, p.Clear b)
    (hplain : ∀ p ∈ parts, p.Plain) : Reads b parts := by
  intro name
  rw [get_formFields h, meant, List.filterMap_congr fun p hp => readAs_of_plain (hplain p hp)]

theorem mem_quote {s : Text} {c : Char} (h : c ∈ quote s) : c = '\\' ∨ c ∈ s := by
  obtain ⟨d, hd, hc⟩ := List.mem_flatMap.mp h
  split at hc
  · rcases List.mem_pair.mp hc with rfl | rfl
    · exact .inl rfl
    · exact .inr hd
  · exact .inr (List.mem_singleton.mp hc ▸ hd)

theorem lookup_isSome {l : List (Text × Text)} {name : Text} :
    (l.lookup name).isSome = true ↔ name ∈ l.map (·.1) := by
  induction l with
  | nil => simp
  | cons f l ih =>
    rw [List.lookup_cons]
    by_cases hf : name = f.1
    · simp [hf]
    · simp [hf, beq_eq_false_iff_ne.mpr hf, ih]

/-- Where every name is what some name among them is read as, all are plain. -/
theorem plain_of_names {names : List Text} (h : ∀ n ∈ names, ∃ m ∈ names,
      ¬ filenameKey <:+: (quote m).map Char.toLower ∧ readName m = n) :
    ∀ n ∈ names, (∀ c ∈ n, isSpecial c = false ∧ c.toLower = c) ∧ ¬ filenameKey <:+: n := by
  have hletters : ∀ n ∈ names, ∀ c ∈ n, c.toLower = c ∧ c ≠ '"' := by
    intro n hn c hc
    obtain ⟨m, -, -, rfl⟩ := h n hn
    rw [readName] at hc
    have hquote := List.mem_takeWhile_imp hc
    obtain ⟨d, -, rfl⟩ := List.mem_map.mp ((List.takeWhile_prefix _).subset hc)
    exact ⟨toLower_toLower d, bne_iff_ne.mp hquote⟩
  -- So a name is read as it is quoted.
  have hquote : ∀ m ∈ names, (quote m).map Char.toLower = quote m ∧ readName m = quote m := by
    intro m hm
    have hlow : ∀ c ∈ quote m, c.toLower = c ∧ c ≠ '"' := by
      intro c hc
      rcases mem_quote hc with rfl | hc
      · exact ⟨by decide, by decide⟩
      · exact hletters m hm c hc
    have hmap : (quote m).map Char.toLower = quote m :=
      (List.map_congr_left fun c hc => (hlow c hc).1).trans (List.map_id _)
    refine ⟨hmap, ?_⟩
    rw [readName, hmap, List.takeWhile_eq_self_iff]
    exact fun c hc => bne_iff_ne.mpr (hlow c hc).2
  have hsource : ∀ n ∈ names, ∃ m ∈ names, ¬ filenameKey <:+: n ∧ quote m = n := by
    intro n hn
    obtain ⟨m, hm, hfile, hread⟩ := h n hn
    obtain ⟨hmap, hsame⟩ := hquote m hm
    rw [hsame] at hread
    rw [hmap, hread] at hfile
    exact ⟨m, hm, hfile, hread⟩
  -- A name with something to quote is longer than the one it is read from, which has it too.
  have hspecial : ∀ k, ∀ n ∈ names, n.length = k → n.countP isSpecial = 0 := by
    intro k
    induction k using Nat.strong_induction_on with
    | _ k ih =>
      intro n hn hk
      obtain ⟨m, hm, -, hmn⟩ := hsource n hn
      have hlen := length_quote m
      rw [hmn, hk] at hlen
      have hzero : m.countP isSpecial = 0 := by
        by_contra hpos
        exact hpos (ih m.length (by omega) m hm rfl)
      have hself : quote m = m := quote_eq_self fun c hc => by
        rw [Bool.eq_false_iff]
        exact List.countP_eq_zero.mp hzero c hc
      rw [← hmn, hself]
      exact hzero
  intro n hn
  obtain ⟨m, -, hfile, -⟩ := hsource n hn
  refine ⟨fun c hc => ⟨?_, (hletters n hn c hc).1⟩, hfile⟩
  rw [Bool.eq_false_iff]
  exact List.countP_eq_zero.mp (hspecial _ n hn rfl) c hc

theorem plain_of_reads {b : Boundary} {parts : List Part} (h : ∀ p ∈ parts, p.Clear b)
    (hreads : Reads b parts) : ∀ p ∈ parts, p.Plain := by
  have hnames : ∀ n, n ∈ (parts.filterMap Part.readAs).map (·.1) ↔
      n ∈ (parts.filterMap Part.field).map (·.1) := by
    intro n
    have hn := hreads n
    rw [get_formFields h, meant] at hn
    have hsome := congrArg Option.isSome hn
    rw [Bool.eq_iff_iff, lookup_isSome, lookup_isSome, List.map_reverse, List.map_reverse,
      List.mem_reverse, List.mem_reverse] at hsome
    exact hsome
  have hsources : ∀ n ∈ (parts.filterMap Part.field).map (·.1),
      ∃ m ∈ (parts.filterMap Part.field).map (·.1),
        ¬ filenameKey <:+: (quote m).map Char.toLower ∧ readName m = n := by
    intro n hn
    obtain ⟨f, hf, rfl⟩ := List.mem_map.mp ((hnames n).mpr hn)
    obtain ⟨p, hp, hread⟩ := List.mem_filterMap.mp hf
    cases p with
    | file name filename content => cases hread
    | text name value =>
      rw [Part.readAs] at hread
      split at hread
      · cases hread
      · next hfile =>
        cases hread
        exact ⟨name, List.mem_map.mpr ⟨(name, value), List.mem_filterMap.mpr ⟨_, hp, rfl⟩, rfl⟩,
          hfile, rfl⟩
  intro p hp
  cases p with
  | file name filename content => trivial
  | text name value =>
    exact plain_of_names hsources name
      (List.mem_map.mpr ⟨(name, value), List.mem_filterMap.mpr ⟨_, hp, rfl⟩, rfl⟩)

/-! ## The route -/

def formType : Text := "multipart/form-data; boundary=".toList

/-- The content type with the boundary in quotes. -/
def contentType (b : Boundary) : Text := formType ++ '"' :: (b.text ++ ['"'])

theorem trim_quoted (s : Text) : Text.trim ('"' :: (s ++ ['"'])) = '"' :: (s ++ ['"']) := by
  have hquote : isWhiteSpace '"' = false := by decide
  rw [Text.trim, Text.stripped, List.dropWhile_cons_of_neg (by simp [hquote]), ← List.cons_append]
  exact List.rdropWhile_concat_neg _ _ _ (by simp [hquote])

theorem stripped_quoted {c : Char} {s : Text} (hne : s ≠ []) (hc : c ∉ s) :
    Text.stripped (· == c) (c :: (s ++ [c])) = s := by
  have hself : Text.stripped (· == c) s = s :=
    Text.stripped_eq_self fun d hd => beq_eq_false_iff_ne.mpr fun he => hc (he ▸ hd)
  obtain ⟨d, rest, rfl⟩ := List.exists_cons_of_ne_nil hne
  have hd : (d == c) = false := beq_eq_false_iff_ne.mpr fun he => hc (he ▸ List.mem_cons_self)
  have hdrop : ∀ l, (d :: l).dropWhile (· == c) = d :: l := fun l => by simp [hd]
  rw [Text.stripped, hdrop] at hself
  rw [Text.stripped, List.dropWhile_cons_of_pos (by simp), List.cons_append, hdrop,
    ← List.cons_append, List.rdropWhile_concat_pos _ _ _ (by simp), hself]

theorem boundaryOf_contentType (b : Boundary) : boundaryOf (contentType b) = some b.text := by
  have hform : formType = "multipart/form-data".toList ++ ';' :: " boundary=".toList := by
    decide
  have hparam : " boundary=".toList = " boundary".toList ++ ['='] := by decide
  have hfree : ∀ c, isBchar c = false → c ∉ b.text := by
    intro c hc hin
    rw [b.chars c hin] at hc
    cases hc
  have hkind : Text.splitOnce ';' (contentType b) =
      some ("multipart/form-data".toList, " boundary=".toList ++ '"' :: (b.text ++ ['"'])) := by
    rw [contentType, hform, List.append_assoc, List.cons_append]
    exact Text.splitOnce_append _ (by decide)
  have hone : (" boundary=".toList ++ '"' :: (b.text ++ ['"'])).splitOn ';' =
      [" boundary=".toList ++ '"' :: (b.text ++ ['"'])] := by
    have hfixed : ';' ∉ " boundary=".toList := by decide
    refine List.splitOn_eq_singleton fun hin => ?_
    rcases List.mem_append.mp hin with hin | hin
    · exact hfixed hin
    · simp [hfree ';' (by decide)] at hin
  have hpair : Text.splitOnce '=' (" boundary=".toList ++ '"' :: (b.text ++ ['"'])) =
      some (" boundary".toList, '"' :: (b.text ++ ['"'])) := by
    rw [hparam, List.append_assoc, List.singleton_append]
    exact Text.splitOnce_append _ (by decide)
  have hdata : eqIgnoreAsciiCase (Text.trim "multipart/form-data".toList)
      "multipart/form-data".toList = true := by
    decide
  have hkey : eqIgnoreAsciiCase (Text.trim " boundary".toList) "boundary".toList = true := by
    decide
  simp only [boundaryOf, hkind, hdata, if_true, hone, List.findSome?_cons, hpair, hkey, trim_quoted,
    stripped_quoted b.nonempty (hfree '"' (by decide))]

/-- The request goes where the text fields say. -/
def Routes (fromSlice : List UInt8 → Option Value) (b : Boundary) (parts : List Part) : Prop :=
  routeBy fromSlice (some (contentType b)) (encode b parts) =
    match meant parts "model".toList with
    | none => .error "no model field in the form"
    | some model => .ok ⟨model, meant parts "stream".toList == some "true".toList⟩

/-- A form in which the delimiter stands nowhere but where it should is read as it was meant, and
routed so, exactly when its text parts' names are plain. -/
theorem forms_read_iff (fromSlice : List UInt8 → Option Value) (b : Boundary) (parts : List Part)
    (h : ∀ p ∈ parts, p.Clear b) :
    Reads b parts ∧ Routes fromSlice b parts ↔ ∀ p ∈ parts, p.Plain := by
  refine ⟨fun hboth => plain_of_reads h hboth.1, fun hplain => ⟨reads_of_plain h hplain, ?_⟩⟩
  have hreads := reads_of_plain h hplain
  rw [Routes, routeBy, Option.getD_some, boundaryOf_contentType]
  simp only [hreads "model".toList, hreads "stream".toList]

namespace Sample

def bound : Boundary where
  text := ['B']
  nonempty := by decide
  short := by decide
  chars := Text.forall_mem_of_all (by decide +kernel)
  last := by decide

/-- Audio beside a model. -/
def whisper : List Part := [.file "file".toList "a.wav".toList [82, 73, 70, 70, 45, 45],
  .text "model".toList "whisper".toList]

/-- Bytes with a delimiter and a header in the middle of a line, after a letter. -/
def upload : List UInt8 :=
  utf8 ("x--B\r\nContent-Disposition: form-data; name=\"model\"\r\n\r\nother".toList)

def disguised : List Part := [.text "model".toList "whisper".toList,
  .file "file".toList "a.wav".toList upload]

/-- The upload's part up to the delimiter in it. -/
def uploadHead : List UInt8 :=
  utf8 (crlf ++ (Part.file "file".toList "a.wav".toList upload).header) ++
    (utf8 (crlf ++ crlf) ++ utf8 ['x'])

end Sample

theorem forms_read_iff_whisper : Reads Sample.bound Sample.whisper ∧
    Routes (fun _ => none) Sample.bound Sample.whisper := by
  refine (forms_read_iff _ _ _ fun p hp => ?_).mpr fun p hp => ?_
  · rcases List.mem_pair.mp hp with rfl | rfl
    · exact ⟨by decide +kernel, by decide +kernel, by decide +kernel⟩
    · exact ⟨by decide +kernel, by decide +kernel⟩
  · rcases List.mem_pair.mp hp with rfl | rfl
    · trivial
    · exact ⟨Text.forall_mem_of_all (by decide +kernel), by decide +kernel⟩

/-- The model is taken from an upload that has no line with the delimiter in it. -/
theorem model_from_upload :
    ¬ utf8 (crlf ++ delimiter Sample.bound.text) <:+: Sample.upload ∧
    meant Sample.disguised "model".toList = some "whisper".toList ∧
    (formFields (encode Sample.bound Sample.disguised) Sample.bound.text).get "model".toList =
      some "other".toList := by
  refine ⟨by decide +kernel, by decide +kernel, ?_⟩
  have hbody : body Sample.bound Sample.disguised =
      (Part.text "model".toList "whisper".toList).segment ++ (utf8 (delimiter Sample.bound.text) ++
        (Sample.uploadHead ++ (utf8 (delimiter Sample.bound.text) ++
          ((Part.text "model".toList "other".toList).segment ++
            (utf8 (delimiter Sample.bound.text) ++ utf8 ("--".toList ++ crlf)))))) := by
    decide +kernel
  have hfirst : Search.Before (utf8 (delimiter Sample.bound.text)) [] :=
    ⟨fun hin => utf8_delimiter_ne_nil (List.infix_nil.mp hin), by simp⟩
  have hmodel : ∀ value, ¬ delimiter Sample.bound.text <:+: value →
      Search.Before (utf8 (delimiter Sample.bound.text)) (Part.text "model".toList value).segment :=
    fun value hvalue => before_segment ⟨by decide +kernel, hvalue⟩
  have hlast : Sample.uploadHead.getLast? = some 120 := by decide +kernel
  have hhead : Search.Before (utf8 (delimiter Sample.bound.text)) Sample.uploadHead := by
    refine ⟨by decide +kernel, fun c hc => ?_⟩
    rw [hlast] at hc
    cases hc
    decide +kernel
  have hclose : Search.find (utf8 (delimiter Sample.bound.text)) (utf8 ("--".toList ++ crlf)) = none := by
    decide +kernel
  have hpiece : textPart Sample.uploadHead = none := by
    have hfind := Search.find_append
      (before_head (.file "file".toList "a.wav".toList Sample.upload)) (utf8 ['x'])
    rw [textPart, Sample.uploadHead, hfind]
    simp only [List.take_left, fromUtf8Lossy_utf8, nameIn_file]
  have hplain : ∀ value, textPart (Part.text "model".toList value).segment =
      some ("model".toList, value) := fun value => by
    rw [textPart_eq]
    exact readAs_of_plain ⟨Text.forall_mem_of_all (by decide +kernel), by decide +kernel⟩
  rw [formFields, encode_eq, ← List.nil_append (utf8 _ ++ body _ _), scan_append hfirst, hbody,
    scan_append (hmodel _ (by decide +kernel)), scan_append hhead,
    scan_append (hmodel _ (by decide +kernel)), scan_none hclose]
  simp only [insertPart, hpiece, hplain, if_true, Option.elim_none, Option.elim_some]
  rw [Table.get_set_self]

end Mentat.Form
