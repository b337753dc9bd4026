import AgentDaemon.Provider.Openai

/-!
White space at the ends of the lines of an OpenAI stream. The test for `[DONE]` trims a line on both
sides, `consume_sse_line` only at the front: white space behind the marker makes it a line of JSON,
which it is not. `ignoresLineEnds_iff` says that this is the only place where it matters.
-/

namespace AgentDaemon

/-- What is put behind a list, and does not occur in a pattern, does not help it to be found. -/
theorem dropPrefix?_append {α : Type} [BEq α] [LawfulBEq α] {pattern back : List α}
    (h : ∀ b ∈ back, b ∉ pattern) (l : List α) :
    (l ++ back).dropPrefix? pattern = (l.dropPrefix? pattern).map (· ++ back) := by
  induction pattern generalizing l with
  | nil => rw [List.dropPrefix?_nil, List.dropPrefix?_nil, Option.map_some]
  | cons c pattern ih =>
    cases l with
    | nil =>
      cases back with
      | nil => rfl
      | cons b back =>
        have hb : b ≠ c := fun e => h b List.mem_cons_self (e ▸ List.mem_cons_self)
        simp [List.dropPrefix?, hb]
    | cons a l =>
      have ih := ih (fun b hb hm => h b hb (List.mem_cons_of_mem _ hm)) l
      rw [List.cons_append, List.dropPrefix?, List.dropPrefix?, ih]
      split <;> rfl

namespace Provider.Openai

open ByteLines

/-! ## Lines -/

def marker : List Char := "[DONE]".toList

def IsBlank (b : UInt8) : Prop := b = 32 ∨ b = 9 ∨ b = 13

instance (b : UInt8) : Decidable (IsBlank b) := inferInstanceAs (Decidable (_ ∨ _ ∨ _))

/-- What `parse_sse` makes of a line that it has stripped. -/
def consumeLine (fromStr : String → Option StreamChunk) (s : State) (line : List UInt8) :
    Except (AdapterError × State) State :=
  consumeSseLine fromStr line { s with done := s.done || isDone line }

/-- No text or a marker, or a text that is a chunk. -/
def Readable (fromStr : String → Option StreamChunk) (line : List UInt8) : Prop :=
  ∀ data, dataOf line = some data →
    data = [] ∨ data = marker ∨ (fromStr (String.ofList data)).isSome

/-- What the parser of a chunk does with the two texts that matter here. -/
structure SkipsBlanks (fromStr : String → Option StreamChunk) : Prop where
  /-- White space behind a value is skipped. -/
  behind : ∀ text back : List Char, (∀ c ∈ back, c = ' ' ∨ c = '\t' ∨ c = '\r') →
    fromStr (String.ofList (text ++ back)) = fromStr (String.ofList text)
  /-- No JSON value starts like the marker. -/
  noValue : ∀ back : List Char, fromStr (String.ofList (marker ++ back)) = none

variable {fromStr : String → Option StreamChunk} {line back : List UInt8}

theorem consumeLine_cases (fromStr : String → Option StreamChunk) (s : State) (line : List UInt8) :
    (Readable fromStr line ∧ ∃ s', consumeLine fromStr s line = .ok s') ∨
      (¬ Readable fromStr line ∧ ∃ s', consumeLine fromStr s line = .error (.sanitized, s')) := by
  unfold consumeLine consumeSseLine Readable
  cases hd : dataOf line with
  | none => exact .inl ⟨fun _ h => (nomatch h), _, rfl⟩
  | some data =>
    by_cases hskip : data = [] ∨ data = marker
    · refine .inl ⟨?_, _, if_pos hskip⟩
      rintro _ ⟨⟩
      exact hskip.elim .inl fun h => .inr (.inl h)
    · have hskip' : ¬ (data = [] ∨ data = "[DONE]".toList) := hskip
      simp only [if_neg hskip']
      cases hread : fromStr (String.ofList data) with
      | none =>
        refine .inr ⟨fun h => ?_, _, rfl⟩
        rcases h data rfl with h | h | h
        · exact hskip (.inl h)
        · exact hskip (.inr h)
        · rw [hread] at h
          cases h
      | some chunk =>
        refine .inl ⟨?_, _, rfl⟩
        rintro _ ⟨⟩
        rw [hread]
        exact .inr (.inr rfl)

theorem readable_of_ok {s s' : State} (h : consumeLine fromStr s line = .ok s') :
    Readable fromStr line := by
  rcases consumeLine_cases fromStr s line with ⟨hr, -⟩ | ⟨-, s'', he⟩
  · exact hr
  · rw [he] at h
    cases h

theorem ok_of_readable (h : Readable fromStr line) (s : State) :
    ∃ s', consumeLine fromStr s line = .ok s' := by
  rcases consumeLine_cases fromStr s line with ⟨-, hok⟩ | ⟨hr, -⟩
  · exact hok
  · exact absurd h hr

theorem error_of_not_readable (h : ¬ Readable fromStr line) (s : State) :
    ∃ s', consumeLine fromStr s line = .error (.sanitized, s') := by
  rcases consumeLine_cases fromStr s line with ⟨hr, -⟩ | ⟨-, he⟩
  · exact absurd hr h
  · exact he

/-! ## Blanks behind a line -/

/-- Blanks as characters. -/
def chars (back : List UInt8) : List Char := back.map fun b => Char.ofNat b.toNat

theorem utf8_chars (h : ∀ b ∈ back, IsBlank b) : utf8 (chars back) = back := by
  induction back with
  | nil => rfl
  | cons b back ih =>
    have hone : String.utf8EncodeChar (Char.ofNat b.toNat) = [b] := by
      rcases h b List.mem_cons_self with rfl | rfl | rfl <;> decide
    rw [chars, List.map_cons, utf8_cons, hone, ← chars,
      ih fun b hb => h b (List.mem_cons_of_mem _ hb)]
    rfl

theorem mem_chars (h : ∀ b ∈ back, IsBlank b) {c : Char} (hc : c ∈ chars back) :
    c = ' ' ∨ c = '\t' ∨ c = '\r' := by
  obtain ⟨b, hb, rfl⟩ := List.mem_map.mp hc
  rcases h b hb with rfl | rfl | rfl <;> decide

theorem isWhiteSpace_chars (h : ∀ b ∈ back, IsBlank b) : ∀ c ∈ chars back, isWhiteSpace c := by
  intro c hc
  rcases mem_chars h hc with rfl | rfl | rfl <;> decide

theorem fromUtf8Lossy_back (h : ∀ b ∈ back, IsBlank b) (line : List UInt8) :
    fromUtf8Lossy (line ++ back) = fromUtf8Lossy line ++ chars back := by
  have hascii : StartsAscii back := by
    intro b hb
    rcases h b (List.mem_of_mem_head? hb) with rfl | rfl | rfl <;> decide
  have hread := fromUtf8Lossy_utf8 (chars back)
  rw [utf8_chars h] at hread
  rw [fromUtf8Lossy_append line hascii, hread]

/-- A text that is not empty has the blanks behind it. -/
theorem dataOf_append (h : ∀ b ∈ back, IsBlank b) (line : List UInt8) :
    dataOf (line ++ back) =
      (dataOf line).map fun data => if data = [] then [] else data ++ chars back := by
  have hnot : ∀ c ∈ chars back, c ∉ "data:".toList := by
    intro c hc
    rcases mem_chars h hc with rfl | rfl | rfl <;> decide
  unfold dataOf
  rw [fromUtf8Lossy_back h, dropPrefix?_append hnot, Option.map_map, Option.map_map]
  congr 1
  funext rest
  rw [Function.comp_apply, Function.comp_apply, List.dropWhile_append,
    List.dropWhile_eq_nil_iff.mpr (isWhiteSpace_chars h)]
  simp only [List.isEmpty_iff]

theorem isDone_append (h : ∀ b ∈ back, IsBlank b) (line : List UInt8) :
    isDone (line ++ back) = isDone line := by
  have hnot : ∀ b ∈ back, b ∉ "data:".toByteArray.toList := by
    intro b hb
    rcases h b hb with rfl | rfl | rfl <;> decide +kernel
  have hspace : ∀ b ∈ back, isAsciiWhitespace b := by
    intro b hb
    rcases h b hb with rfl | rfl | rfl <;> decide
  unfold isDone
  rw [dropPrefix?_append hnot]
  cases line.dropPrefix? "data:".toByteArray.toList with
  | none => rfl
  | some rest =>
    simp only [Option.map_some, Option.any_some, trimAscii_append _ hspace]

/-- A line that is taken for the end of the stream starts like the marker where it is consumed. -/
theorem dataOf_of_isDone (h : isDone line = true) : ∃ rest, dataOf line = some (marker ++ rest) := by
  unfold isDone at h
  cases hdrop : line.dropPrefix? "data:".toByteArray.toList with
  | none =>
    rw [hdrop] at h
    cases h
  | some data =>
    rw [hdrop, Option.any_some, decide_eq_true_eq] at h
    obtain ⟨front, back, hdata, hfront, -⟩ := exists_trimAscii data
    obtain ⟨head, hline, hhead⟩ := List.dropPrefix?_eq_some_iff.mp hdrop
    have hfield : head = utf8 "data:".toList := by
      rw [eq_of_beq hhead]
      decide +kernel
    have hmarker : trimAscii data = utf8 marker := by
      rw [h]
      decide +kernel
    have hspace : ∃ cs : List Char, front = utf8 cs ∧ ∀ c ∈ cs, isWhiteSpace c := by
      clear hdata
      induction front with
      | nil => exact ⟨[], rfl, by simp⟩
      | cons b front ih =>
        obtain ⟨cs, rfl, hcs⟩ := ih fun b hb => hfront b (List.mem_cons_of_mem _ hb)
        have hb := hfront b List.mem_cons_self
        simp only [isAsciiWhitespace, Bool.or_eq_true, decide_eq_true_eq] at hb
        have hone : ∃ c, String.utf8EncodeChar c = [b] ∧ isWhiteSpace c = true := by
          rcases hb with (((rfl | rfl) | rfl) | rfl) | rfl
          · exact ⟨'\t', by decide, by decide⟩
          · exact ⟨'\n', by decide, by decide⟩
          · exact ⟨'\x0C', by decide, by decide⟩
          · exact ⟨'\r', by decide, by decide⟩
          · exact ⟨' ', by decide, by decide⟩
        obtain ⟨c, hc, hcw⟩ := hone
        refine ⟨c :: cs, by rw [utf8_cons, hc]; rfl, ?_⟩
        rw [List.forall_mem_cons]
        exact ⟨hcw, hcs⟩
    obtain ⟨cs, rfl, hcs⟩ := hspace
    refine ⟨fromUtf8Lossy back, ?_⟩
    have htext : fromUtf8Lossy line = "data:".toList ++ (cs ++ (marker ++ fromUtf8Lossy back)) := by
      rw [hline, hdata, hfield, hmarker, List.append_assoc, fromUtf8Lossy_utf8_append,
        fromUtf8Lossy_utf8_append, fromUtf8Lossy_utf8_append]
    have hdropped : ("data:".toList ++ (cs ++ (marker ++ fromUtf8Lossy back))).dropPrefix?
        "data:".toList = some (cs ++ (marker ++ fromUtf8Lossy back)) :=
      List.dropPrefix?_append_of_beq _ (by decide)
    rw [dataOf, htext, hdropped, Option.map_some, List.dropWhile_append_of_pos hcs]
    rfl

theorem marker_ne_append (hb : ∀ b ∈ back, IsBlank b) (hne : back ≠ []) (data : List Char) :
    data ++ chars back ≠ marker := by
  intro h
  have hmap : (chars back).getLast? = marker.getLast? := by
    rw [← h, List.getLast?_append_of_ne_nil _ (by simpa [chars] using hne)]
  have hlast := mem_chars hb (List.mem_of_getLast? (hmap.trans (by rfl : _ = some ']')))
  revert hlast
  decide

/-- Blanks behind a line that is no marker change nothing. -/
theorem consumeLine_append (h : SkipsBlanks fromStr) (hb : ∀ b ∈ back, IsBlank b)
    (hm : dataOf line = some marker → back = []) (s : State) :
    consumeLine fromStr s (line ++ back) = consumeLine fromStr s line := by
  by_cases hne : back = []
  · rw [hne, List.append_nil]
  unfold consumeLine consumeSseLine
  rw [isDone_append hb, dataOf_append hb]
  cases hd : dataOf line with
  | none => rfl
  | some data =>
    by_cases hempty : data = []
    · rw [hempty]
      rfl
    have hdata : data ≠ "[DONE]".toList := fun e => hne (hm (by rw [hd, e]; rfl))
    have hpadded : data ++ chars back ≠ "[DONE]".toList := marker_ne_append hb hne data
    have hfilled : data ++ chars back ≠ [] := by simp [hempty]
    have hread := h.behind data (chars back) fun c hc => mem_chars hb hc
    simp only [Option.map_some, hempty, hdata, hfilled, hpadded, or_self, if_false,
      hread]

/-- A marker with a blank behind it is a line of JSON that cannot be read. -/
theorem not_readable_append (h : SkipsBlanks fromStr) (hb : ∀ b ∈ back, IsBlank b) (hne : back ≠ [])
    (hm : dataOf line = some marker) : ¬ Readable fromStr (line ++ back) := by
  intro hread
  have hmarker : ¬ marker = [] := by decide
  have hdata : dataOf (line ++ back) = some (marker ++ chars back) := by
    rw [dataOf_append hb, hm, Option.map_some, if_neg hmarker]
  rcases hread _ hdata with e | e | e
  · exact absurd (List.append_eq_nil_iff.mp e).1 hmarker
  · exact marker_ne_append hb hne marker e
  · rw [h.noValue] at e
    cases e

/-- So is a line that is taken for the end of the stream and has more than the marker in it. -/
theorem not_readable_of_isDone (h : SkipsBlanks fromStr) (hdone : isDone line = true)
    (hm : dataOf line ≠ some marker) : ¬ Readable fromStr line := by
  intro hread
  obtain ⟨rest, hdata⟩ := dataOf_of_isDone hdone
  rcases hread _ hdata with e | e | e
  · exact absurd (List.append_eq_nil_iff.mp e).1 (by decide)
  · exact hm (by rw [hdata, e])
  · rw [h.noValue] at e
    cases e

/-! ## Streams -/

/-- A line of a stream, and what is put at its end. -/
structure PaddedLine where
  text : List UInt8
  pad : List UInt8
  oneLine : lineFeed ∉ text
  blank : ∀ b ∈ pad, IsBlank b

def PaddedLine.empty : PaddedLine := ⟨[], [], List.not_mem_nil, fun _ hb => nomatch hb⟩

def PaddedLine.padded (l : PaddedLine) : List UInt8 := l.text ++ l.pad

theorem PaddedLine.oneLine_padded (l : PaddedLine) : lineFeed ∉ l.padded := by
  intro h
  rcases List.mem_append.mp h with h | h
  · exact l.oneLine h
  · rcases l.blank _ h with e | e | e <;> cases e

/-- The lines that a line feed ends, what is behind the last of them, and the error that the
transport ends with, if it does. -/
structure Stream where
  lines : List PaddedLine
  rest : PaddedLine
  failure : Option AdapterError

/-- The bytes of lines and of what is behind them. -/
def streamBytes (lines : List (List UInt8)) (rest : List UInt8) : List UInt8 :=
  lines.flatMap (· ++ [lineFeed]) ++ rest

/-- What `parse_sse` leaves: the events it has sent, and its error. -/
def outcome (x : Except (AdapterError × State) State) : List ProviderEvent × Option AdapterError :=
  ((last x).events, match x with
    | .ok _ => none
    | .error (e, _) => some e)

namespace Stream

/-- The stream that ends after some of the lines. -/
def upTo (n : Nat) (s : Stream) : Stream := ⟨s.lines.take n, .empty, none⟩

/-- The lines as they are consumed, without the padding and with it. -/
def read (s : Stream) : List (List UInt8 × List UInt8) :=
  s.lines.map (fun l => (stripEnd (l.text ++ [lineFeed]), stripEnd (l.padded ++ [lineFeed]))) ++
    if s.failure.isNone then [(s.rest.text, s.rest.padded)] else []

/-- The same events and the same result, however the bytes come in. -/
def Same (fromStr : String → Option StreamChunk) (s : Stream) : Prop :=
  ∀ cut cut' : List (List UInt8),
    cut.flatten = streamBytes (s.lines.map PaddedLine.text) s.rest.text →
    cut'.flatten = streamBytes (s.lines.map PaddedLine.padded) s.rest.padded →
    outcome (parseSse fromStr (cut.map Except.ok ++ s.failure.toList.map Except.error)) =
      outcome (parseSse fromStr (cut'.map Except.ok ++ s.failure.toList.map Except.error))

end Stream

/-- The state before the first line. -/
def start : State := { events := [.responseStarted] }

/-- The padding is not seen: not in the events and the result of the stream, nor where it is cut
short after a line, and no line that is taken for the end of the stream is an error. -/
structure IgnoresLineEnds (fromStr : String → Option StreamChunk) (s : Stream) : Prop where
  same : s.Same fromStr
  sameUpTo : ∀ n, (s.upTo n).Same fromStr
  marked : ∀ before line after, s.read.map Prod.snd = before ++ line :: after →
    isDone line = true → ∀ s', before.foldlM (consumeLine fromStr) start = .ok s' →
      ∃ s'', consumeLine fromStr s' line = .ok s''

/-- With the padding, too, the line has nothing but the marker in it, if it is one. -/
def BareLine (line padded : List UInt8) : Prop :=
  (dataOf line = some marker → padded = line) ∧ (isDone padded = true → dataOf padded = some marker)

instance (line padded : List UInt8) : Decidable (BareLine line padded) :=
  inferInstanceAs (Decidable ((_ → _) ∧ (_ → _)))

/-- No marker that is reached has white space behind it. -/
def Bare (fromStr : String → Option StreamChunk) : List (List UInt8 × List UInt8) → Prop
  | [] => True
  | (line, padded) :: lines =>
    BareLine line padded ∧ (Readable fromStr padded → Bare fromStr lines)

/-! ## Reading a stream -/

/-- The end of `parse_sse`. -/
def finish (failure : Option AdapterError) (s : State) : Except (AdapterError × State) State :=
  match failure with
  | some e => .error (e, s)
  | none => do
    let s ← expectDone s.done "OpenAI 流缺少结束标记" s
    return (completeCalls s.calls.toList s).send .protocolDone

theorem consumeLine_nil (s : State) : consumeLine fromStr s [] = .ok s := by
  have hdone : isDone [] = false := by decide +kernel
  have hdata : dataOf [] = none := by decide +kernel
  rw [consumeLine, consumeSseLine, hdata, hdone, Bool.or_false]

theorem parseSse_eq {lines : List (List UInt8)} (h : ∀ line ∈ lines, lineFeed ∉ line)
    {rest : List UInt8} (hr : lineFeed ∉ rest) {cut : List (List UInt8)}
    (hcut : cut.flatten = streamBytes lines rest) (failure : Option AdapterError) :
    parseSse fromStr (cut.map Except.ok ++ failure.toList.map Except.error) =
      (lines.map (fun line => stripEnd (line ++ [lineFeed])) ++
        if failure.isNone then [rest] else []).foldlM (consumeLine fromStr) start >>=
          finish failure := by
  have hread := @feed_lines State AdapterError (fun line s => consumeLine fromStr s line) lines h rest hr
    start
  change read (fun line s => consumeLine fromStr s line) [] _ start >>= _ = _
  rw [read_append, hcut, streamBytes, hread, List.foldlM_append, List.foldlM_map]
  cases lines.foldlM (fun s line => consumeLine fromStr s (stripEnd (line ++ [lineFeed]))) start with
  | error e => rfl
  | ok s =>
    cases failure with
    | some e => rfl
    | none =>
      change (read (fun line s => consumeLine fromStr s line) rest [] s >>= finish none) =
        ([rest].foldlM (consumeLine fromStr) s >>= finish none)
      rw [ByteLines.read, List.foldlM_cons]
      cases rest with
      | nil =>
        rw [consumeLine_nil]
        rfl
      | cons b rest =>
        rw [List.isEmpty_cons, if_neg (by decide)]
        cases consumeLine fromStr s (b :: rest) <;> rfl

namespace Stream

theorem map_read (s : Stream) :
    s.read.map Prod.fst =
      (s.lines.map PaddedLine.text).map (fun line => stripEnd (line ++ [lineFeed])) ++
        (if s.failure.isNone then [s.rest.text] else []) ∧
    s.read.map Prod.snd =
      (s.lines.map PaddedLine.padded).map (fun line => stripEnd (line ++ [lineFeed])) ++
        (if s.failure.isNone then [s.rest.padded] else []) := by
  simp only [read, List.map_append, List.map_map, apply_ite (List.map _), List.map_nil,
    List.map_cons]
  exact ⟨rfl, rfl⟩

/-- What there is to compare: the runs over the consumed lines. -/
theorem same_iff (s : Stream) : s.Same fromStr ↔
    outcome ((s.read.map Prod.fst).foldlM (consumeLine fromStr) start >>= finish s.failure) =
      outcome ((s.read.map Prod.snd).foldlM (consumeLine fromStr) start >>= finish s.failure) := by
  have htext : ∀ line ∈ s.lines.map PaddedLine.text, lineFeed ∉ line := by
    intro line hl
    obtain ⟨l, -, rfl⟩ := List.mem_map.mp hl
    exact l.oneLine
  have hpadded : ∀ line ∈ s.lines.map PaddedLine.padded, lineFeed ∉ line := by
    intro line hl
    obtain ⟨l, -, rfl⟩ := List.mem_map.mp hl
    exact l.oneLine_padded
  have hfst : ∀ cut : List (List UInt8), cut.flatten = _ → _ = _ := fun cut hcut =>
    @parseSse_eq fromStr _ htext _ s.rest.oneLine _ hcut s.failure
  have hsnd : ∀ cut : List (List UInt8), cut.flatten = _ → _ = _ := fun cut hcut =>
    @parseSse_eq fromStr _ hpadded _ s.rest.oneLine_padded _ hcut s.failure
  rw [← s.map_read.1] at hfst
  rw [← s.map_read.2] at hsnd
  constructor
  · intro h
    have h := h [streamBytes (s.lines.map PaddedLine.text) s.rest.text]
      [streamBytes (s.lines.map PaddedLine.padded) s.rest.padded]
      (List.append_nil _) (List.append_nil _)
    rwa [hfst _ (List.append_nil _), hsnd _ (List.append_nil _)] at h
  · intro h cut cut' hcut hcut'
    rw [hfst cut hcut, hsnd cut' hcut', h]

/-- The padding is blanks behind each line that is consumed. -/
theorem padded_read (s : Stream) : ∀ pair ∈ s.read, ∃ back : List UInt8,
    (∀ b ∈ back, IsBlank b) ∧ pair.2 = pair.1 ++ back := by
  intro pair hp
  rcases List.mem_append.mp hp with hp | hp
  · obtain ⟨l, -, rfl⟩ := List.mem_map.mp hp
    obtain ⟨back, e, hback⟩ := stripEnd_append l.oneLine l.pad
    refine ⟨back, fun b hb => ?_, e⟩
    rcases hback b hb with hb | hb
    · exact l.blank b hb
    · exact .inr (.inr hb)
  · split at hp
    · rw [List.mem_singleton.mp hp]
      exact ⟨s.rest.pad, s.rest.blank, rfl⟩
    · cases hp

/-- A stream that is cut short ends with an empty line. -/
theorem read_upTo (s : Stream) (n : Nat) :
    (s.upTo n).read = s.read.take (min n s.lines.length) ++ [([], [])] := by
  have hlen : (s.lines.map fun l => (stripEnd (l.text ++ [lineFeed]),
      stripEnd (l.padded ++ [lineFeed]))).length = s.lines.length := List.length_map _
  rw [read, read, upTo, List.take_append_of_le_length (by rw [hlen]; omega), ← List.map_take,
    List.take_eq_take_min]
  rfl

end Stream

/-! ## Bare markers -/

section Bare

variable {pairs : List (List UInt8 × List UInt8)}

theorem Bare.left {more : List (List UInt8 × List UInt8)} (h : Bare fromStr (pairs ++ more)) :
    Bare fromStr pairs := by
  induction pairs with
  | nil => trivial
  | cons pair pairs ih => exact ⟨h.1, fun hr => ih (h.2 hr)⟩

theorem Bare.concat_nil (h : Bare fromStr pairs) : Bare fromStr (pairs ++ [([], [])]) := by
  induction pairs with
  | nil =>
    have hdone : isDone [] = false := by decide +kernel
    refine ⟨⟨fun _ => rfl, fun hd => ?_⟩, fun _ => trivial⟩
    rw [hdone] at hd
    cases hd
  | cons pair pairs ih => exact ⟨h.1, fun hr => ih (h.2 hr)⟩

/-- The lines are consumed alike. -/
theorem Bare.foldlM_eq (hskip : SkipsBlanks fromStr) (h : Bare fromStr pairs)
    (hp : ∀ pair ∈ pairs, ∃ back : List UInt8, (∀ b ∈ back, IsBlank b) ∧ pair.2 = pair.1 ++ back)
    (s : State) : (pairs.map Prod.fst).foldlM (consumeLine fromStr) s =
      (pairs.map Prod.snd).foldlM (consumeLine fromStr) s := by
  induction pairs generalizing s with
  | nil => rfl
  | cons pair pairs ih =>
    obtain ⟨line, padded⟩ := pair
    obtain ⟨back, hblank, hpad⟩ := hp _ List.mem_cons_self
    obtain rfl : padded = line ++ back := hpad
    have hsame : consumeLine fromStr s (line ++ back) = consumeLine fromStr s line :=
      consumeLine_append hskip hblank (fun hm => List.append_right_eq_self.mp (h.1.1 hm)) s
    rw [List.map_cons, List.map_cons, List.foldlM_cons, List.foldlM_cons, hsame]
    cases hc : consumeLine fromStr s line with
    | error e => rfl
    | ok s' =>
      exact ih (h.2 (readable_of_ok (hsame.trans hc)))
        (fun pair hm => hp pair (List.mem_cons_of_mem _ hm)) s'

/-- The first marker that is not bare. -/
theorem exists_of_not_bare (h : ¬ Bare fromStr pairs) : ∃ before line padded after,
    pairs = before ++ (line, padded) :: after ∧ Bare fromStr before ∧
      (∀ pair ∈ before, Readable fromStr pair.2) ∧ ¬ BareLine line padded := by
  induction pairs with
  | nil => exact absurd trivial h
  | cons pair pairs ih =>
    by_cases hline : BareLine pair.1 pair.2
    · by_cases hread : Readable fromStr pair.2
      · obtain ⟨before, line, padded, after, rfl, hbare, hbefore, hnot⟩ :=
          ih fun hb => h ⟨hline, fun _ => hb⟩
        refine ⟨pair :: before, line, padded, after, rfl, ⟨hline, fun _ => hbare⟩, ?_, hnot⟩
        rw [List.forall_mem_cons]
        exact ⟨hread, hbefore⟩
      · exact absurd ⟨hline, fun hr => absurd hr hread⟩ h
    · exact ⟨[], pair.1, pair.2, pairs, rfl, trivial, fun _ hm => (nomatch hm), hline⟩

/-- A line that is reached and taken for the end of the stream is the marker alone. -/
theorem Bare.marker_of_isDone (h : Bare fromStr pairs) {before after : List (List UInt8)}
    {line : List UInt8} (hread : pairs.map Prod.snd = before ++ line :: after)
    (hdone : isDone line = true) {s s' : State}
    (hbefore : before.foldlM (consumeLine fromStr) s = .ok s') : dataOf line = some marker := by
  induction before generalizing pairs s with
  | nil =>
    cases pairs with
    | nil => cases hread
    | cons pair pairs =>
      obtain ⟨rfl, -⟩ := List.cons.inj hread
      exact h.1.2 hdone
  | cons l before ih =>
    cases pairs with
    | nil => cases hread
    | cons pair pairs =>
      obtain ⟨rfl, hmore⟩ := List.cons.inj hread
      rw [List.foldlM_cons] at hbefore
      cases hc : consumeLine fromStr s pair.2 with
      | error e =>
        rw [hc] at hbefore
        cases hbefore
      | ok s₁ =>
        rw [hc] at hbefore
        exact ih (h.2 (readable_of_ok hc)) hmore hbefore

end Bare

theorem foldlM_ok {lines : List (List UInt8)} (h : ∀ line ∈ lines, Readable fromStr line)
    (s : State) : ∃ s', lines.foldlM (consumeLine fromStr) s = .ok s' := by
  induction lines generalizing s with
  | nil => exact ⟨s, rfl⟩
  | cons line lines ih =>
    obtain ⟨s', hs'⟩ := ok_of_readable (h line List.mem_cons_self) s
    obtain ⟨s'', hs''⟩ := ih (fun l hl => h l (List.mem_cons_of_mem _ hl)) s'
    exact ⟨s'', by rw [List.foldlM_cons, hs']; exact hs''⟩

/-- The missing end of a stream is another error than a line that cannot be read. -/
theorem finish_ne_sanitized (s : State) : (outcome (finish none s)).2 ≠ some .sanitized := by
  unfold finish expectDone
  cases s.done with
  | true => exact fun h => nomatch h
  | false =>
    change some (⟨.protocol, "OpenAI 流缺少结束标记"⟩ : AdapterError) ≠ some .sanitized
    decide

/-- A stream with a marker that is not bare ends in an error with the padding only. -/
theorem not_same {t : Stream} (hskip : SkipsBlanks fromStr) (hopen : t.failure = none)
    {before after : List (List UInt8 × List UInt8)} {line padded : List UInt8}
    (hread : t.read = before ++ (line, padded) :: after) (hbare : Bare fromStr before)
    (hbefore : ∀ pair ∈ before, Readable fromStr pair.2)
    (hafter : ∀ pair ∈ after, Readable fromStr pair.1)
    (hmarker : dataOf line = some marker) (hne : padded ≠ line) : ¬ t.Same fromStr := by
  have hpadded := t.padded_read
  rw [hread] at hpadded
  obtain ⟨back, hblank, hpad⟩ := hpadded (line, padded) (by simp)
  obtain rfl : padded = line ++ back := hpad
  have hback : back ≠ [] := fun e => hne (by rw [e, List.append_nil])
  have hline : Readable fromStr line := by
    intro data hd
    rw [hmarker] at hd
    exact .inr (.inl (Option.some.inj hd).symm)
  have hsame := hbare.foldlM_eq hskip (fun pair hp => hpadded pair (List.mem_append_left _ hp)) start
  obtain ⟨s, hs⟩ := @foldlM_ok fromStr (before.map Prod.snd) (fun l hl => by
    obtain ⟨pair, hp, rfl⟩ := List.mem_map.mp hl
    exact hbefore pair hp) start
  obtain ⟨s₁, hs₁⟩ := @foldlM_ok fromStr (line :: after.map Prod.fst) (fun l hl => by
    rcases List.mem_cons.mp hl with rfl | hl
    · exact hline
    · obtain ⟨pair, hp, rfl⟩ := List.mem_map.mp hl
      exact hafter pair hp) s
  obtain ⟨s₂, hs₂⟩ := error_of_not_readable (not_readable_append hskip hblank hback hmarker) s
  have hplain : (t.read.map Prod.fst).foldlM (consumeLine fromStr) start = .ok s₁ := by
    rw [hread, List.map_append, List.foldlM_append, hsame, hs]
    exact hs₁
  have hfails : (t.read.map Prod.snd).foldlM (consumeLine fromStr) start =
      .error (.sanitized, s₂) := by
    rw [hread, List.map_append, List.foldlM_append, hs, List.map_cons]
    change List.foldlM (consumeLine fromStr) s ((line ++ back) :: after.map Prod.snd) = _
    rw [List.foldlM_cons, hs₂]
    rfl
  rw [t.same_iff, hplain, hfails, hopen]
  intro h
  exact finish_ne_sanitized s₁ (congrArg Prod.snd h)

/-! ## Line ends -/

/-- **White space at line ends.** The padding of a stream is not seen exactly if no marker that is
reached, as it stands there with its padding, has white space behind it. -/
theorem ignoresLineEnds_iff (hskip : SkipsBlanks fromStr) (s : Stream) :
    IgnoresLineEnds fromStr s ↔ Bare fromStr s.read := by
  constructor
  · intro h
    by_contra hnot
    obtain ⟨before, line, padded, after, hread, hbare, hbefore, hline⟩ := exists_of_not_bare hnot
    by_cases hmarker : dataOf line = some marker ∧ padded ≠ line
    · obtain ⟨hmarker, hne⟩ := hmarker
      by_cases hlast : before.length < s.lines.length
      · -- the marker is a whole line: the stream may end behind it
        have htake : (s.upTo (before.length + 1)).read = before ++ (line, padded) :: [([], [])] := by
          rw [Stream.read_upTo, min_eq_left hlast, hread, List.take_append, List.take_of_length_le (by omega),
            Nat.add_sub_cancel_left, List.take_succ_cons, List.take_zero, List.append_assoc]
          rfl
        have hrest : ∀ pair ∈ [(([] : List UInt8), ([] : List UInt8))], Readable fromStr pair.1 := by
          intro pair hp
          rw [List.mem_singleton.mp hp]
          exact readable_of_ok (consumeLine_nil start)
        exact not_same hskip rfl htake hbare hbefore hrest hmarker hne (h.sameUpTo _)
      · -- the marker is what is behind the last line feed
        have hlen := congrArg List.length hread
        simp only [Stream.read, List.length_append, List.length_map, List.length_cons] at hlen
        cases hopen : s.failure with
        | some e =>
          rw [hopen] at hlen
          simp at hlen
          omega
        | none =>
          rw [hopen] at hlen
          simp at hlen
          have hafter : after = [] := List.length_eq_zero_iff.mp (by omega)
          subst hafter
          exact not_same hskip hopen hread hbare hbefore (fun _ hm => nomatch hm) hmarker hne h.same
    · have hdone : isDone padded = true ∧ dataOf padded ≠ some marker := by
        by_contra hn
        refine hline ⟨fun hm => ?_, fun hd => ?_⟩
        · by_contra hne
          exact hmarker ⟨hm, hne⟩
        · by_contra hne
          exact hn ⟨hd, hne⟩
      obtain ⟨s', hs'⟩ := @foldlM_ok fromStr (before.map Prod.snd) (fun l hl => by
        obtain ⟨pair, hp, rfl⟩ := List.mem_map.mp hl
        exact hbefore pair hp) start
      obtain ⟨s'', hs''⟩ := h.marked (before.map Prod.snd) padded (after.map Prod.snd)
        (by rw [hread, List.map_append, List.map_cons]) hdone.1 s' hs'
      exact not_readable_of_isDone hskip hdone.1 hdone.2 (readable_of_ok hs'')
  · intro h
    refine ⟨?_, fun n => ?_, ?_⟩
    · rw [s.same_iff, h.foldlM_eq hskip s.padded_read]
    · have hshort : Bare fromStr (s.upTo n).read := by
        rw [Stream.read_upTo]
        have hall := h
        rw [← List.take_append_drop (min n s.lines.length) s.read] at hall
        exact hall.left.concat_nil
      rw [(s.upTo n).same_iff, hshort.foldlM_eq hskip (s.upTo n).padded_read]
    · intro before line after hread hdone s' hs'
      have hmarker := h.marker_of_isDone hread hdone hs'
      refine ok_of_readable (fun data hd => ?_) s'
      rw [hmarker] at hd
      exact .inr (.inl (Option.some.inj hd).symm)

/-! ## Two streams -/

/-- `serde_json`, as far as it goes with a chunk that says nothing. -/
def emptyChunk (text : String) : Option StreamChunk :=
  if text.toList.rdropWhile (fun c => c = ' ' || c = '\t' || c = '\r') =
    "\x7b\"choices\":[]\x7d".toList then some {} else none

theorem skipsBlanks_emptyChunk : SkipsBlanks emptyChunk where
  behind text back h := by
    have hback : ∀ c ∈ back.reverse, (c = ' ' || c = '\t' || c = '\r') = true := by
      intro c hc
      simpa [or_assoc] using h c (List.mem_reverse.mp hc)
    have hdrop : (text ++ back).rdropWhile (fun c => c = ' ' || c = '\t' || c = '\r') =
        text.rdropWhile (fun c => c = ' ' || c = '\t' || c = '\r') := by
      rw [List.rdropWhile, List.rdropWhile, List.reverse_append, List.dropWhile_append_of_pos hback]
    rw [emptyChunk, emptyChunk, @String.toList_ofList (text ++ back), @String.toList_ofList text,
      hdrop]
  noValue back := by
    unfold emptyChunk
    rw [String.toList_ofList, if_neg]
    intro e
    obtain ⟨cs, hcs⟩ := List.rdropWhile_prefix (fun c => c = ' ' || c = '\t' || c = '\r')
      (marker ++ back)
    rw [e] at hcs
    cases hcs

/-- A line, and what is put at its end. -/
def paddedLine (text pad : String) (h : lineFeed ∉ utf8 text.toList)
    (hb : (utf8 pad.toList).all (fun b => decide (IsBlank b)) = true) : PaddedLine where
  text := utf8 text.toList
  pad := utf8 pad.toList
  oneLine := h
  blank b hm := of_decide_eq_true (List.all_eq_true.mp hb b hm)

/-- Blanks behind a chunk, and a carriage return before the line feed of the marker. -/
def crlfStream : Stream where
  lines := [paddedLine "data: \x7b\"choices\":[]\x7d" " \t\r" (by decide +kernel) (by decide +kernel),
    paddedLine "data: [DONE]" "\r" (by decide +kernel) (by decide +kernel)]
  rest := .empty
  failure := none

/-- A blank behind the marker. -/
def blankStream : Stream where
  lines := [paddedLine "data: [DONE]" " " (by decide +kernel) (by decide +kernel)]
  rest := .empty
  failure := none

theorem ignoresLineEnds_crlfStream : IgnoresLineEnds emptyChunk crlfStream :=
  (ignoresLineEnds_iff skipsBlanks_emptyChunk crlfStream).mpr
    ⟨by decide +kernel, fun _ => ⟨by decide +kernel, fun _ => ⟨by decide +kernel, fun _ => trivial⟩⟩⟩

/-- The whole answer has been sent, and the blank makes it an error. -/
theorem not_same_blankStream : ¬ ∀ s : Stream, s.Same emptyChunk := by
  intro h
  have h := congrArg Prod.snd (h blankStream
    [streamBytes (blankStream.lines.map PaddedLine.text) blankStream.rest.text]
    [streamBytes (blankStream.lines.map PaddedLine.padded) blankStream.rest.padded]
    (List.append_nil _) (List.append_nil _))
  revert h
  decide +kernel

end Provider.Openai

end AgentDaemon
