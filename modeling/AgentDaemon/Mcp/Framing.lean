import AgentDaemon.Lib.ByteLines
import AgentDaemon.Lib.JsonText
import AgentDaemon.Lib.Text
import AgentDaemon.Lib.Utf8

/-!
The frames that an MCP server writes: a line of JSON, or headers that begin with `Content-Length`
and that many bytes. `read_frame` takes one frame off what is left to read. `reads_parts`: frames
of both kinds in any order, with blank lines between them, are read back one by one.
-/

namespace AgentDaemon.Mcp

open ByteLines

/-! ## Reading -/

/-- The bytes up to and with the next line feed, and what is behind it. -/
def takeLine : List UInt8 → List UInt8 × List UInt8
  | [] => ([], [])
  | b :: bytes =>
    if b = lineFeed then ([b], bytes)
    else (b :: (takeLine bytes).1, (takeLine bytes).2)

/-- `read_line`. -/
def readLine (bytes : List UInt8) : Except String (List Char × List UInt8) :=
  match fromUtf8 (takeLine bytes).1 with
  | none => .error "stream did not contain valid UTF-8"
  | some line => .ok (line, (takeLine bytes).2)

/-- The first line that is not blank. A line takes a byte at least, so that their number is fuel
enough. -/
def readFirst : Nat → List UInt8 → Except String (Option (List Char) × List UInt8)
  | 0, bytes => .ok (none, bytes)
  | n + 1, bytes => do
    let (line, rest) ← readLine bytes
    if line.isEmpty then return (none, rest)
    else if line.all isWhiteSpace then readFirst n rest
    else return (some line, rest)

/-- The rest of the headers, and the blank line behind them. -/
def readHeaders : Nat → List UInt8 → Except String (List UInt8)
  | 0, _ => .error "MCP header 未完整结束"
  | n + 1, bytes => do
    let (header, rest) ← readLine bytes
    if header.isEmpty then .error "MCP header 未完整结束"
    else if header.all isWhiteSpace then return rest
    else readHeaders n rest

/-- The number of a `Content-Length` header. -/
def contentLength (first : List Char) : Option (List Char) :=
  ((trimMatches isWhiteSpace first).dropPrefix? "Content-Length:".toList).map
    (trimMatches isWhiteSpace)

/-- The body of a frame, after its first header; a `usize` has 64 bits. -/
def readBody (length : List Char) (bytes : List UInt8) :
    Except String (Option (List UInt8) × List UInt8) :=
  match parseU64 length with
  | none => .error "非法 MCP Content-Length"
  | some length => do
    let rest ← readHeaders (bytes.length + 1) bytes
    if rest.length < length then .error "early eof"
    else return (some (rest.take length), rest.drop length)

def readFrame (bytes : List UInt8) : Except String (Option (List UInt8) × List UInt8) := do
  let (first, rest) ← readFirst (bytes.length + 1) bytes
  match first with
  | none => return (none, rest)
  | some first =>
    match contentLength first with
    | some length => readBody length rest
    | none => return (some (utf8 (trimEndMatches isWhiteSpace first)), rest)

/-- The calls of `read_frame` on what is left to read return these frames, and then none. -/
inductive Reads : List UInt8 → List (List UInt8) → Prop where
  | done {bytes : List UInt8} : readFrame bytes = .ok (none, []) → Reads bytes []
  | more {bytes rest frame : List UInt8} {frames : List (List UInt8)} :
    readFrame bytes = .ok (some frame, rest) → Reads rest frames → Reads bytes (frame :: frames)

/-! ## Writing -/

/-- White space on one line. -/
structure BlankText where
  text : List Char
  blank : ∀ c ∈ text, isWhiteSpace c = true
  oneLine : '\n' ∉ text

structure HeaderText where
  text : List Char
  filled : ∃ c ∈ text, isWhiteSpace c = false
  oneLine : '\n' ∉ text

/-- What a JSON value may start with. -/
def startsValue (c : Char) : Bool :=
  c = '\x7b' || c = '[' || c = '"' || c = '-' || c.isDigit || c = 't' || c = 'f' || c = 'n'

/-- A text that starts like JSON, on one line. -/
structure JsonLine where
  text : List Char
  json : ∃ c cs, text.dropWhile JsonText.isSpace = c :: cs ∧ startsValue c = true
  oneLine : '\n' ∉ text

/-- A `Content-Length` header with white space on both sides of the number, more headers, the blank
line and the bytes; no byte buffer is longer than a `usize`. -/
structure SizedFrame where
  before : BlankText
  after : BlankText
  headers : List HeaderText
  blank : BlankText
  payload : List UInt8
  fits : payload.length < 2 ^ 64

inductive Frame where
  | line (l : JsonLine)
  | sized (f : SizedFrame)

def lineBytes (text : List Char) : List UInt8 := utf8 (text ++ ['\n'])

def SizedFrame.first (f : SizedFrame) : List Char :=
  "Content-Length:".toList ++ (f.before.text ++ (Nat.toDigits 10 f.payload.length ++ f.after.text))

def SizedFrame.bytes (f : SizedFrame) : List UInt8 :=
  lineBytes f.first ++ (f.headers.flatMap (lineBytes ·.text) ++ (lineBytes f.blank.text ++ f.payload))

def Frame.bytes : Frame → List UInt8
  | .line l => lineBytes l.text
  | .sized f => f.bytes

/-- A line is read up to the white space at its end. -/
def Frame.payload : Frame → List UInt8
  | .line l => utf8 (trimEndMatches isWhiteSpace l.text)
  | .sized f => f.payload

/-- Blank lines. -/
def gapBytes (gap : List BlankText) : List UInt8 := gap.flatMap (lineBytes ·.text)

/-! ## One line -/

theorem takeLine_append {line : List UInt8} (h : lineFeed ∉ line) (rest : List UInt8) :
    takeLine (line ++ lineFeed :: rest) = (line ++ [lineFeed], rest) := by
  induction line with
  | nil => rw [List.nil_append, takeLine, if_pos rfl, List.nil_append]
  | cons b line ih =>
    have hb : b ≠ lineFeed := fun e => h (e ▸ List.mem_cons_self)
    rw [List.cons_append, takeLine, if_neg hb, ih fun hm => h (List.mem_cons_of_mem _ hm)]
    rfl

theorem readLine_line {text : List Char} (h : '\n' ∉ text) (rest : List UInt8) :
    readLine (lineBytes text ++ rest) = .ok (text ++ ['\n'], rest) := by
  have hbytes : lineBytes text ++ rest = utf8 text ++ lineFeed :: rest := by
    rw [lineBytes, utf8_append, List.append_assoc]
    rfl
  have hline : utf8 text ++ [lineFeed] = utf8 (text ++ ['\n']) := by
    rw [utf8_append]
    rfl
  rw [readLine, hbytes, takeLine_append fun hm => h (lf_mem_utf8 hm), hline, fromUtf8_utf8]

theorem readLine_nil : readLine [] = .ok ([], []) := by decide +kernel

theorem all_line {text : List Char} (h : ∀ c ∈ text, isWhiteSpace c = true) :
    (text ++ ['\n']).all isWhiteSpace = true := by
  rw [List.all_append, List.all_eq_true.mpr h]
  decide

theorem not_all_line {text : List Char} (h : ∃ c ∈ text, isWhiteSpace c = false) :
    (text ++ ['\n']).all isWhiteSpace = false := by
  obtain ⟨c, hc, hw⟩ := h
  rw [List.all_append, List.all_eq_false.mpr ⟨c, hc, by simp [hw]⟩, Bool.false_and]

theorem isEmpty_line (text : List Char) : (text ++ ['\n']).isEmpty = false := by simp

/-! ## The two loops -/

theorem readFirst_gap (gap : List BlankText) (n : Nat) (rest : List UInt8) :
    readFirst (gap.length + n) (gapBytes gap ++ rest) = readFirst n rest := by
  induction gap with
  | nil => rw [List.length_nil, Nat.zero_add]; rfl
  | cons blank gap ih =>
    have hn : (blank :: gap).length + n = (gap.length + n) + 1 := by
      rw [List.length_cons]
      omega
    rw [hn, gapBytes, List.flatMap_cons, List.append_assoc, readFirst, readLine_line blank.oneLine]
    change (if (blank.text ++ ['\n']).isEmpty = true then _ else _) = _
    rw [isEmpty_line, if_neg Bool.false_ne_true, all_line blank.blank, if_pos rfl]
    exact ih

theorem readFirst_line {text : List Char} (h : '\n' ∉ text)
    (hf : ∃ c ∈ text, isWhiteSpace c = false) (n : Nat) (rest : List UInt8) :
    readFirst (n + 1) (lineBytes text ++ rest) = .ok (some (text ++ ['\n']), rest) := by
  rw [readFirst, readLine_line h]
  change (if (text ++ ['\n']).isEmpty = true then _ else _) = _
  rw [isEmpty_line, if_neg Bool.false_ne_true, not_all_line hf, if_neg Bool.false_ne_true]
  rfl

theorem readHeaders_append (headers : List HeaderText) (blank : BlankText) (n : Nat)
    (rest : List UInt8) :
    readHeaders (headers.length + (n + 1))
      (headers.flatMap (lineBytes ·.text) ++ (lineBytes blank.text ++ rest)) = .ok rest := by
  induction headers with
  | nil =>
    rw [List.length_nil, Nat.zero_add, List.flatMap_nil, List.nil_append, readHeaders,
      readLine_line blank.oneLine]
    change (if (blank.text ++ ['\n']).isEmpty = true then _ else _) = _
    rw [isEmpty_line, if_neg Bool.false_ne_true, all_line blank.blank, if_pos rfl]
    rfl
  | cons header headers ih =>
    have hn : (header :: headers).length + (n + 1) = (headers.length + (n + 1)) + 1 := by
      rw [List.length_cons]
      omega
    rw [hn, List.flatMap_cons, List.append_assoc, readHeaders, readLine_line header.oneLine]
    change (if (header.text ++ ['\n']).isEmpty = true then _ else _) = _
    rw [isEmpty_line, if_neg Bool.false_ne_true, not_all_line header.filled,
      if_neg Bool.false_ne_true]
    exact ih

theorem length_lineBytes_pos (text : List Char) : 0 < (lineBytes text).length := by
  rw [lineBytes, utf8_append, List.length_append]
  have h : (utf8 ['\n']).length = 1 := by decide
  omega

/-- A line takes a byte at least. -/
theorem length_le_lines {α : Type} (text : α → List Char) (l : List α) :
    l.length ≤ (l.flatMap fun a => lineBytes (text a)).length := by
  induction l with
  | nil => exact Nat.zero_le _
  | cons a l ih =>
    have h := length_lineBytes_pos (text a)
    rw [List.length_cons, List.flatMap_cons, List.length_append]
    omega

/-! ## The first line -/

theorem trimEndMatches_append (cs : List Char) {back : List Char}
    (h : ∀ c ∈ back, isWhiteSpace c = true) :
    trimEndMatches isWhiteSpace (cs ++ back) = trimEndMatches isWhiteSpace cs := by
  have hback : ∀ c ∈ back.reverse, isWhiteSpace c = true := fun c hc => h c (List.mem_reverse.mp hc)
  rw [trimEndMatches, trimEndMatches, List.reverse_append, List.dropWhile_append_of_pos hback]

theorem isWhiteSpace_digit {c : Char} (h : c.isDigit = true) : isWhiteSpace c = false := by
  have hlow : 48 ≤ c.toNat ∧ c.toNat ≤ 57 := by
    simp only [Char.isDigit, Bool.and_eq_true, decide_eq_true_eq] at h
    exact ⟨UInt32.le_iff_toNat_le.mp h.1, UInt32.le_iff_toNat_le.mp h.2⟩
  simp only [isWhiteSpace, Bool.or_eq_false_iff, Bool.and_eq_false_iff, decide_eq_false_iff_not]
  omega

theorem isWhiteSpace_value {c : Char} (h : startsValue c = true) : isWhiteSpace c = false := by
  simp only [startsValue, Bool.or_eq_true, decide_eq_true_eq] at h
  rcases h with ((((((rfl | rfl) | rfl) | rfl) | h) | rfl) | rfl) | rfl
  · decide
  · decide
  · decide
  · decide
  · exact isWhiteSpace_digit h
  · decide
  · decide
  · decide

/-- White space in front of a number and behind it is trimmed. -/
theorem trimEndMatches_digits (front : List Char) (n : Nat) {back : List Char}
    (h : ∀ c ∈ back, isWhiteSpace c = true) :
    trimEndMatches isWhiteSpace (front ++ Nat.toDigits 10 n ++ back) = front ++ Nat.toDigits 10 n := by
  obtain ⟨init, last, hlast⟩ := (List.eq_nil_or_concat _).resolve_left
    (Nat.toDigits_ne_nil (n := n) (b := 10))
  have hdigit : last.isDigit = true := by
    refine Nat.isDigit_of_mem_toDigits (n := n) (b := 10) (by decide) (by decide) ?_
    rw [hlast, List.concat_eq_append]
    exact List.mem_concat_self
  have hw : ¬ isWhiteSpace last = true := by simp [isWhiteSpace_digit hdigit]
  rw [trimEndMatches_append _ h, hlast, List.concat_eq_append, ← List.append_assoc]
  exact List.rdropWhile_concat_neg isWhiteSpace _ last hw

theorem dropWhile_digits {front : List Char} (h : ∀ c ∈ front, isWhiteSpace c = true) (n : Nat) :
    (front ++ Nat.toDigits 10 n).dropWhile isWhiteSpace = Nat.toDigits 10 n := by
  rw [List.dropWhile_append_of_pos h]
  cases hdigits : Nat.toDigits 10 n with
  | nil => rfl
  | cons c cs =>
    have hdigit : c.isDigit = true := by
      refine Nat.isDigit_of_mem_toDigits (n := n) (b := 10) (by decide) (by decide) ?_
      rw [hdigits]
      exact List.mem_cons_self
    exact List.dropWhile_cons_of_neg (by simp [isWhiteSpace_digit hdigit])

/-- The number of a header is found. -/
theorem contentLength_first (f : SizedFrame) :
    contentLength (f.first ++ ['\n']) = some (Nat.toDigits 10 f.payload.length) := by
  have hback : ∀ c ∈ f.after.text ++ ['\n'], isWhiteSpace c = true := by
    intro c hc
    rcases List.mem_append.mp hc with hc | hc
    · exact f.after.blank c hc
    · rw [List.mem_singleton.mp hc]
      decide
  have hsplit : f.first ++ ['\n'] = ("Content-Length:".toList ++ f.before.text) ++
      Nat.toDigits 10 f.payload.length ++ (f.after.text ++ ['\n']) := by
    have hassoc : ∀ a b c d : List Char,
        (a ++ (b ++ (c ++ d))) ++ ['\n'] = (a ++ b) ++ c ++ (d ++ ['\n']) := by
      intro a b c d
      simp only [List.append_assoc]
    exact hassoc "Content-Length:".toList f.before.text (Nat.toDigits 10 f.payload.length) f.after.text
  have hfront : (f.first ++ ['\n']).dropWhile isWhiteSpace = f.first ++ ['\n'] := by
    obtain ⟨cs, hcs⟩ : ∃ cs, f.first = 'C' :: cs := ⟨_, rfl⟩
    rw [hcs, List.cons_append, List.dropWhile_cons_of_neg (by decide)]
  have hnumber : trimMatches isWhiteSpace (f.before.text ++ Nat.toDigits 10 f.payload.length) =
      Nat.toDigits 10 f.payload.length := by
    have hdigits := @trimEndMatches_digits [] f.payload.length [] (fun _ hc => nomatch hc)
    rw [List.nil_append, List.append_nil] at hdigits
    rw [trimMatches, dropWhile_digits f.before.blank, hdigits]
  rw [contentLength, trimMatches, hfront, hsplit, trimEndMatches_digits _ _ hback, List.append_assoc,
    List.dropPrefix?_append_of_beq _ (by decide), Option.map_some, hnumber]

/-- A line of JSON is no header. -/
theorem contentLength_json (l : JsonLine) : contentLength (l.text ++ ['\n']) = none := by
  obtain ⟨c, cs, hdrop, hc⟩ := l.json
  have hspace : ∀ d ∈ l.text.takeWhile JsonText.isSpace, isWhiteSpace d = true := by
    intro d hd
    have hs := List.mem_takeWhile_imp hd
    simp only [JsonText.isSpace, Bool.or_eq_true, decide_eq_true_eq] at hs
    rcases hs with ((rfl | rfl) | rfl) | rfl <;> decide
  have hsplit : l.text ++ ['\n'] = l.text.takeWhile JsonText.isSpace ++ (c :: (cs ++ ['\n'])) := by
    have h := List.takeWhile_append_dropWhile (p := JsonText.isSpace) (l := l.text)
    rw [hdrop] at h
    rw [← List.cons_append, ← List.append_assoc, h]
  have hw := isWhiteSpace_value hc
  have hfront : (l.text ++ ['\n']).dropWhile isWhiteSpace = c :: (cs ++ ['\n']) := by
    rw [hsplit, List.dropWhile_append_of_pos hspace, List.dropWhile_cons_of_neg (by simp [hw])]
  have htrim : ∃ t, trimEndMatches isWhiteSpace (c :: (cs ++ ['\n'])) = c :: t := by
    obtain ⟨back, hback⟩ := List.rdropWhile_prefix isWhiteSpace (c :: (cs ++ ['\n']))
    cases ht : List.rdropWhile isWhiteSpace (c :: (cs ++ ['\n'])) with
    | nil =>
      have hall := List.rdropWhile_eq_nil_iff.mp ht c List.mem_cons_self
      rw [hw] at hall
      cases hall
    | cons d t =>
      rw [ht] at hback
      obtain ⟨rfl, -⟩ := List.cons.inj hback
      exact ⟨t, ht⟩
  obtain ⟨t, htrim⟩ := htrim
  have hne : c ≠ 'C' := by
    rintro rfl
    revert hc
    decide
  rw [contentLength, trimMatches, hfront, htrim]
  simp [List.dropPrefix?, hne]

theorem JsonLine.filled (l : JsonLine) : ∃ c ∈ l.text, isWhiteSpace c = false := by
  obtain ⟨c, cs, hdrop, hc⟩ := l.json
  refine ⟨c, ?_, isWhiteSpace_value hc⟩
  refine (List.dropWhile_suffix JsonText.isSpace).subset ?_
  rw [hdrop]
  exact List.mem_cons_self

theorem SizedFrame.oneLine (f : SizedFrame) : '\n' ∉ f.first := by
  intro h
  rcases List.mem_append.mp h with h | h
  · revert h
    decide
  · rcases List.mem_append.mp h with h | h
    · exact f.before.oneLine h
    · rcases List.mem_append.mp h with h | h
      · exact absurd (Nat.isDigit_of_mem_toDigits (by decide) (by decide) h) (by decide)
      · exact f.after.oneLine h

/-! ## Frames -/

/-- A frame behind blank lines is read, and nothing of what follows it. -/
theorem readFrame_part (gap : List BlankText) (frame : Frame) (rest : List UInt8) :
    readFrame (gapBytes gap ++ (frame.bytes ++ rest)) = .ok (some frame.payload, rest) := by
  have hfuel : ∃ n, (gapBytes gap ++ (frame.bytes ++ rest)).length + 1 = gap.length + (n + 1) := by
    have h := length_le_lines BlankText.text gap
    refine ⟨(gapBytes gap ++ (frame.bytes ++ rest)).length - gap.length, ?_⟩
    rw [List.length_append, gapBytes]
    omega
  obtain ⟨n, hn⟩ := hfuel
  cases frame with
  | line l =>
    have hread : readFirst (gap.length + (n + 1)) (gapBytes gap ++ (lineBytes l.text ++ rest)) =
        .ok (some (l.text ++ ['\n']), rest) := by
      rw [readFirst_gap, readFirst_line l.oneLine l.filled]
    have hend : trimEndMatches isWhiteSpace (l.text ++ ['\n']) =
        trimEndMatches isWhiteSpace l.text :=
      trimEndMatches_append _ fun c hc => by rw [List.mem_singleton.mp hc]; decide
    rw [readFrame, hn]
    change (readFirst (gap.length + (n + 1)) (gapBytes gap ++ (lineBytes l.text ++ rest)) >>= _) = _
    rw [hread]
    change (match contentLength (l.text ++ ['\n']) with | some length => _ | none => _) = _
    rw [contentLength_json, hend]
    rfl
  | sized f =>
    have hfilled : ∃ c ∈ f.first, isWhiteSpace c = false := ⟨'C', List.mem_cons_self, by decide⟩
    let body := f.headers.flatMap (lineBytes ·.text) ++ (lineBytes f.blank.text ++ (f.payload ++ rest))
    have hbytes : f.bytes ++ rest = lineBytes f.first ++ body := by
      simp only [body, SizedFrame.bytes, List.append_assoc]
    have hread : readFirst (gap.length + (n + 1)) (gapBytes gap ++ (f.bytes ++ rest)) =
        .ok (some (f.first ++ ['\n']), body) := by
      rw [readFirst_gap, hbytes, readFirst_line f.oneLine hfilled]
    have hheaders : readHeaders (body.length + 1) body = .ok (f.payload ++ rest) := by
      have h := length_le_lines HeaderText.text f.headers
      have hlen : body.length + 1 = f.headers.length + ((body.length - f.headers.length) + 1) := by
        have hbody : f.headers.length ≤ body.length := by
          rw [List.length_append]
          omega
        omega
      rw [hlen]
      exact readHeaders_append f.headers f.blank _ _
    rw [readFrame, hn]
    change (readFirst (gap.length + (n + 1)) (gapBytes gap ++ (f.bytes ++ rest)) >>= _) = _
    rw [hread]
    change (match contentLength (f.first ++ ['\n']) with | some length => _ | none => _) = _
    rw [contentLength_first]
    change readBody (Nat.toDigits 10 f.payload.length) body = _
    rw [readBody, parseU64_toDigits f.fits]
    change (readHeaders (body.length + 1) body >>= _) = _
    rw [hheaders]
    change (if (f.payload ++ rest).length < f.payload.length then _ else _) = _
    rw [if_neg (by rw [List.length_append]; omega), List.take_left, List.drop_left]
    rfl

example : readFrame (utf8 "Content-Length: 2\r\n\r\n\x7b\x7d\x7b\x7d\n".toList) =
    .ok (some (utf8 "\x7b\x7d".toList), utf8 "\x7b\x7d\n".toList) := by decide +kernel

/-- Behind the last frame there may be blank lines. -/
theorem readFrame_gap (gap : List BlankText) : readFrame (gapBytes gap) = .ok (none, []) := by
  have h := length_le_lines BlankText.text gap
  have hn : (gapBytes gap).length + 1 = gap.length + (((gapBytes gap).length - gap.length) + 1) := by
    rw [gapBytes]
    omega
  have hread : readFirst (gap.length + (((gapBytes gap).length - gap.length) + 1)) (gapBytes gap) =
      .ok (none, []) := by
    have hgap := readFirst_gap gap (((gapBytes gap).length - gap.length) + 1) []
    rw [List.append_nil] at hgap
    rw [hgap, readFirst, readLine_nil]
    rfl
  rw [readFrame, hn, hread]
  rfl

/-- **Framing.** Frames of both kinds, with blank lines before, between and behind them, are read
back in their order, and then there are none. -/
theorem reads_parts (parts : List (List BlankText × Frame)) (gap : List BlankText) :
    Reads ((parts.flatMap fun part => gapBytes part.1 ++ part.2.bytes) ++ gapBytes gap)
      (parts.map fun part => part.2.payload) := by
  induction parts with
  | nil => exact .done (readFrame_gap gap)
  | cons part parts ih =>
    refine .more ?_ ih
    rw [List.flatMap_cons, List.append_assoc, List.append_assoc]
    exact readFrame_part part.1 part.2 _

end AgentDaemon.Mcp
