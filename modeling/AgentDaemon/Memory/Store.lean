import AgentDaemon.Session.Log
import Mathlib.Data.Finset.Card
import Mathlib.Data.Finset.Image
import Mathlib.Algebra.Ring.Nat

/-!
The long-term memory: `save` appends to a file of JSON lines, `recall` loads all of it and ranks what
it finds. The file is loaded as a session is whose last line is complete (`loadLines_eq`), so that a
torn record is never left out; `recallsAll_iff` says after which crashes `recall` still works.
-/

namespace AgentDaemon.Memory

open JsonText

structure MemoryEntry where
  id : String
  content : String
  createdAt : Nat
  expiresAt : Option Nat
  manual : Bool
  deriving DecidableEq, Repr

inductive MemoryError where
  | corruptLine (line : Nat) (source : String)
  | invalidSystemTime
  /-- Behind the context of `read_to_string`. -/
  | invalidUtf8
  deriving DecidableEq, Repr

/-! ## Saving -/

/-- An argument list of `save`, with the clock and the number that it draws. -/
structure Save where
  content : String
  ttlDays : Option Nat
  now : Nat
  sequence : Nat
  deriving DecidableEq, Repr

def u64Max : Nat := 2 ^ 64 - 1

/-- `u64::saturating_mul`. -/
def saturatingMul (a b : Nat) : Nat := min (a * b) u64Max

/-- `u64::saturating_add`. -/
def saturatingAdd (a b : Nat) : Nat := min (a + b) u64Max

def Save.entry (call : Save) : MemoryEntry where
  id := "mem-" ++ toString call.now ++ "-" ++ toString call.sequence
  content := call.content
  createdAt := call.now
  expiresAt := call.ttlDays.map fun days =>
    saturatingAdd call.now (saturatingMul (saturatingMul (saturatingMul days 24) 60) 60)
  manual := true

variable (codec : Codec MemoryEntry)

/-- A `save` that returns; `none` is a file that does not exist. -/
def MemoryStore.save (file : Option (List UInt8)) (call : Save) : Option (List UInt8) :=
  some (file.getD [] ++ codec.record call.entry)

/-! ## Recalling -/

/-- The lines from `index` on. -/
def loadLines : Nat → List (List Char) → Except MemoryError (List MemoryEntry)
  | _, [] => .ok []
  | index, line :: lines =>
    if line.all isWhiteSpace then loadLines (index + 1) lines
    else match codec.fromStr (String.ofList line) with
      | .ok entry => (entry :: ·) <$> loadLines (index + 1) lines
      | .error source => .error (.corruptLine (index + 1) source)

def MemoryStore.load (file : Option (List UInt8)) : Except MemoryError (List MemoryEntry) :=
  match file with
  | none => .ok []
  | some bytes =>
    match fromUtf8 bytes with
    | some content => loadLines codec 0 (lines content)
    | none => .error .invalidUtf8

def isCjk (c : Char) : Bool :=
  (0x3400 ≤ c.toNat && c.toNat ≤ 0x4DBF) || (0x4E00 ≤ c.toNat && c.toNat ≤ 0x9FFF) ||
    (0xF900 ≤ c.toNat && c.toNat ≤ 0xFAFF)

/-- What `terms` has found and what it has not flushed yet. -/
structure Terms where
  output : Finset (List Char) := ∅
  ascii : List Char := []
  cjkRun : List Char := []

def Terms.flushAscii (t : Terms) : Terms :=
  if t.ascii.isEmpty then t else { t with output := insert t.ascii t.output, ascii := [] }

/-- `windows(2)`. -/
def windows (run : List Char) : List (List Char) := run.zipWith (fun a b => [a, b]) run.tail

def Terms.flushCjk (t : Terms) : Terms :=
  match t.cjkRun with
  | [c] => { t with output := insert [c] t.output, cjkRun := [] }
  | run => { t with output := t.output ∪ (windows run).toFinset, cjkRun := [] }

def Terms.feed (t : Terms) (c : Char) : Terms :=
  if c.isAlphanum || c = '_' || c = '-' then
    let t := t.flushCjk
    { t with ascii := t.ascii ++ [c] }
  else if isCjk c then
    let t := t.flushAscii
    { t with cjkRun := t.cjkRun ++ [c] }
  else t.flushAscii.flushCjk

variable (toLowercase : String → List Char)

/-- Words, and the pairs of neighbours in a run of Chinese characters. -/
def terms (text : String) : Finset (List Char) :=
  ((toLowercase text).foldl Terms.feed {}).flushAscii.flushCjk.output

def MemoryEntry.alive (now : Nat) (entry : MemoryEntry) : Bool := entry.expiresAt.all (now < ·)

def score (query : String) (entry : MemoryEntry) : Nat :=
  let queryLower := toLowercase query
  let contentLower := toLowercase entry.content
  let overlap := (terms toLowercase entry.content ∩ terms toLowercase query).card
  let substringBonus :=
    if queryLower ≠ [] ∧ (queryLower <:+: contentLower ∨ contentLower <:+: queryLower) then 1 else 0
  overlap + substringBonus * 100

/-- The order of the ranking: by score, manual before others, new before old. -/
def ranksBefore (left right : Nat × MemoryEntry) : Bool :=
  ((compare right.1 left.1).then ((compare right.2.manual left.2.manual).then
    (compare right.2.createdAt left.2.createdAt))).isLE

def rank (now : Nat) (query : String) (limit : Nat) (entries : List MemoryEntry) :
    List MemoryEntry :=
  let ranked := (entries.filter (MemoryEntry.alive now)).filterMap fun entry =>
    let score := score toLowercase query entry
    if 0 < score then some (score, entry) else none
  ((ranked.mergeSort ranksBefore).take (min (max limit 1) 20)).map Prod.snd

/-- `clock` is what `unix_time` finds: nothing before 1970. -/
def MemoryStore.recall (file : Option (List UInt8)) (clock : Option Nat) (query : String) (limit : Nat) :
    Except MemoryError (List MemoryEntry) := do
  let entries ← MemoryStore.load codec file
  match clock with
  | none => .error .invalidSystemTime
  | some now => .ok (rank toLowercase now query limit entries)

/-! ## A crash -/

/-- Saves, a crash that leaves some bytes of another one, and saves after the restart. -/
def fileAfter (before : List Save) (torn : List UInt8) (later : List Save) :
    Option (List UInt8) :=
  later.foldl (MemoryStore.save codec) (some ((before.foldl (MemoryStore.save codec) none).getD [] ++ torn))

/-- `recall` succeeds and ranks all entries that were saved, and at most the torn one besides. -/
def RecallsAll (before : List Save) (call : Save) (torn : List UInt8) (later : List Save) : Prop :=
  ∃ entries, (entries = (before ++ later).map Save.entry ∨
      entries = (before ++ call :: later).map Save.entry) ∧
    ∀ now query limit, MemoryStore.recall codec toLowercase (fileAfter codec before torn later) (some now) query
      limit = .ok (rank toLowercase now query limit entries)

/-! ## Loading -/

variable {codec} {toLowercase} {records : List MemoryEntry}

/-- A torn last line is no exception here. -/
theorem loadLines_eq (codec : Codec MemoryEntry) (index : Nat) (ls : List (List Char)) :
    loadLines codec index ls = (Session.loadLines codec true index ls).mapError fun e =>
      .corruptLine e.line e.source := by
  induction ls generalizing index with
  | nil => rfl
  | cons line ls ih =>
    rw [loadLines, Session.loadLines, Bool.not_true, Bool.and_false]
    split
    · exact ih (index + 1)
    · cases codec.fromStr (String.ofList line) with
      | ok entry =>
        dsimp only
        rw [ih]
        cases Session.loadLines codec true (index + 1) ls <;> rfl
      | error source => rfl

theorem load_eq_ok {bytes : List UInt8} {entries : List MemoryEntry} :
    MemoryStore.load codec (some bytes) = .ok entries ↔ utf8 (fromUtf8Lossy bytes) = bytes ∧
      Session.loadLines codec true 0 (lines (fromUtf8Lossy bytes)) = .ok entries := by
  rw [MemoryStore.load, fromUtf8]
  by_cases hvalid : utf8 (fromUtf8Lossy bytes) = bytes
  · rw [if_pos hvalid]
    dsimp only
    rw [loadLines_eq]
    cases Session.loadLines codec true 0 (lines (fromUtf8Lossy bytes)) <;>
      simp [Except.mapError, hvalid]
  · rw [if_neg hvalid]
    simp [hvalid]

theorem recall_eq_ok {file : Option (List UInt8)} {entries : List MemoryEntry}
    (h : MemoryStore.load codec file = .ok entries) (now : Nat) (query : String) (limit : Nat) :
    MemoryStore.recall codec toLowercase file (some now) query limit =
      .ok (rank toLowercase now query limit entries) := by
  rw [MemoryStore.recall, h]
  rfl

theorem exists_load {file : Option (List UInt8)} {clock : Option Nat} {query : String}
    {limit : Nat} {found : List MemoryEntry}
    (h : MemoryStore.recall codec toLowercase file clock query limit = .ok found) :
    ∃ entries, MemoryStore.load codec file = .ok entries := by
  cases hload : MemoryStore.load codec file with
  | ok entries => exact ⟨entries, rfl⟩
  | error e =>
    rw [MemoryStore.recall, hload] at h
    cases h

/-- Only entries that have not expired and that share something with the query are recalled. -/
theorem mem_rank {now : Nat} {query : String} {limit : Nat} {entries : List MemoryEntry}
    {entry : MemoryEntry} (h : entry ∈ rank toLowercase now query limit entries) :
    entry ∈ entries ∧ entry.alive now = true ∧ 0 < score toLowercase query entry := by
  obtain ⟨⟨points, found⟩, hfound, rfl⟩ := List.mem_map.mp h
  obtain ⟨candidate, hcandidate, hscore⟩ :=
    List.mem_filterMap.mp (List.mem_mergeSort.mp (List.mem_of_mem_take hfound))
  dsimp only at hscore
  split at hscore
  · rename_i hpos
    cases hscore
    exact ⟨(List.mem_filter.mp hcandidate).1, (List.mem_filter.mp hcandidate).2, hpos⟩
  · cases hscore

/-! ## Recovery -/

theorem fileAfter_eq (before : List Save) (torn : List UInt8) (later : List Save) :
    fileAfter codec before torn later = some (codec.log (before.map Save.entry) ++
      (torn ++ codec.log (later.map Save.entry))) := by
  rw [← Session.fileAfter_eq, Session.fileAfter, List.foldl_map, List.foldl_map]
  rfl

theorem log_eq_utf8 (records : List MemoryEntry) :
    codec.log records = utf8 (records.flatMap fun r => codec.line r ++ ['\n']) := by
  induction records with
  | nil => rfl
  | cons r records ih =>
    rw [Codec.log, List.flatMap_cons, List.flatMap_cons, utf8_append, ← ih, Codec.record, utf8_append]
    rfl

/-- The lines of the entries before a crash, and what is behind them. -/
theorem loadLines_log (h : codec.LawfulObjects 'i' records) {before : List MemoryEntry}
    (hb : ∀ r ∈ before, r ∈ records) (rest : List UInt8) :
    ∃ index, Session.loadLines codec true 0 (lines (fromUtf8Lossy (codec.log before ++ rest))) =
      (before ++ ·) <$> Session.loadLines codec true index (lines (fromUtf8Lossy rest)) := by
  rw [Codec.fromUtf8Lossy_log_append]
  exact Session.loadLines_records h before hb 0 _

theorem load_log (h : codec.LawfulObjects 'i' records) {entries : List MemoryEntry}
    (hm : ∀ r ∈ entries, r ∈ records) : MemoryStore.load codec (some (codec.log entries)) = .ok entries := by
  refine load_eq_ok.mpr ⟨?_, ?_⟩
  · rw [log_eq_utf8, fromUtf8Lossy_utf8]
  · obtain ⟨index, e⟩ := loadLines_log h hm []
    rw [List.append_nil] at e
    rw [e]
    exact congrArg Except.ok (List.append_nil entries)

/-- Where only the line feed is missing, the torn entry is read whole. -/
theorem load_unended (h : codec.LawfulObjects 'i' records) {before : List MemoryEntry}
    (hb : ∀ r ∈ before, r ∈ records) {entry : MemoryEntry} (hr : entry ∈ records) :
    MemoryStore.load codec (some (codec.log before ++ utf8 (codec.line entry))) = .ok (before ++ [entry]) := by
  obtain ⟨body, hbody⟩ := h.object entry hr
  refine load_eq_ok.mpr ⟨?_, ?_⟩
  · rw [log_eq_utf8, ← utf8_append, fromUtf8Lossy_utf8]
  · obtain ⟨index, e⟩ := loadLines_log h hb (utf8 (codec.line entry))
    have hread : codec.fromStr (String.ofList (codec.line entry)) = .ok entry := by
      rw [Codec.line, String.ofList_toList]
      exact h.readsBack entry hr
    rw [e, fromUtf8Lossy_utf8, lines_last (h.oneLine entry hr) (hbody ▸ List.cons_ne_nil _ _),
      Session.loadLines, Session.not_blank_of_head hbody, if_neg (by decide), hread]
    rfl

/-- Any other torn entry stops the load, also where nothing follows. -/
theorem torn_of_load (h : codec.LawfulObjects 'i' records) {before entries : List MemoryEntry}
    (hb : ∀ r ∈ before, r ∈ records) {entry : MemoryEntry} {torn : List UInt8} {tail : List Char}
    (ht : Codec.Tail codec entry torn [] tail)
    (hload : MemoryStore.load codec (some (codec.log before ++ torn)) = .ok entries) :
    torn = utf8 (codec.line entry) := by
  obtain ⟨hvalid, hlines⟩ := load_eq_ok.mp hload
  obtain ⟨cs, hhead⟩ := ht.head
  have hseen := ht.seen
  rw [List.append_nil, fromUtf8Lossy_nil, List.append_nil] at hseen
  rcases ht.whole with rfl | hill
  · -- all bytes are read as text
    rw [Codec.fromUtf8Lossy_log_append, utf8_append, ← log_eq_utf8, List.append_cancel_left_eq,
      hseen] at hvalid
    exact hvalid.symm
  · obtain ⟨index, e⟩ := loadLines_log h hb torn
    obtain ⟨source, hrefused⟩ := Session.loadLines_refused hhead h hill true index []
    rw [Bool.not_true, Bool.and_false, if_neg (by decide)] at hrefused
    rw [e, hseen, lines_last ht.oneLine (hhead ▸ List.cons_ne_nil _ _), hrefused] at hlines
    cases hlines

theorem mem_entries_before (before later : List Save) (call : Save) :
    ∀ r ∈ before.map Save.entry, r ∈ (call :: (before ++ later)).map Save.entry := by
  intro r hm
  rw [List.map_cons, List.map_append]
  exact List.mem_cons_of_mem _ (List.mem_append_left _ hm)

theorem mem_entries_later (before later : List Save) (call : Save) :
    ∀ r ∈ later.map Save.entry, r ∈ (call :: (before ++ later)).map Save.entry := by
  intro r hm
  rw [List.map_cons, List.map_append]
  exact List.mem_cons_of_mem _ (List.mem_append_right _ hm)

/-- What a crash has left, where all entries are recalled. -/
theorem left_of_recallsAll {before later : List Save} {call : Save} {torn : List UInt8}
    (h : codec.LawfulObjects 'i' ((call :: (before ++ later)).map Save.entry))
    (hp : torn <+: codec.record call.entry) (hcut : torn ≠ codec.record call.entry)
    (hrecalls : RecallsAll codec toLowercase before call torn later) :
    torn = [] ∨ torn = utf8 (codec.line call.entry) ∧ later = [] := by
  have hr : call.entry ∈ (call :: (before ++ later)).map Save.entry :=
    List.mem_map_of_mem List.mem_cons_self
  have hb := mem_entries_before before later call
  have hl := mem_entries_later before later call
  obtain ⟨_, _, hrecall⟩ := hrecalls
  obtain ⟨entries, hload⟩ := exists_load (hrecall 0 "" 0)
  rw [fileAfter_eq] at hload
  by_cases hne : torn = []
  · exact .inl hne
  · right
    cases later with
    | nil =>
      have hnil : StartsAscii [] := fun _ hb => nomatch hb
      obtain ⟨tail, ht⟩ := Codec.torn_tail h hr hp hcut hne hnil
      rw [List.map_nil, show codec.log [] = [] from rfl, List.append_nil] at hload
      exact ⟨torn_of_load h hb ht hload, rfl⟩
    | cons next later =>
      obtain ⟨tail, ht⟩ := Codec.torn_tail h hr hp hcut hne (Codec.startsAscii_log (h.mono hl))
      have hlast : (codec.log (before.map Save.entry) ++
          (torn ++ codec.log ((next :: later).map Save.entry))).getLast? = some 10 := by
        rw [← List.append_assoc]
        exact Session.getLast?_log _ (List.cons_ne_nil _ _)
      refine absurd ?_ (Session.load_glued rfl h hb (hl next.entry List.mem_cons_self) ht entries)
      rw [← List.map_cons, Session.load, hlast]
      exact (load_eq_ok.mp hload).2

/-- **Crash recovery.** After a crash that leaves a strict prefix of a record, all entries are recalled
exactly if nothing of it is left, or all but its line feed and nothing is saved later. -/
theorem recallsAll_iff {before later : List Save} {call : Save} {torn : List UInt8}
    (h : codec.LawfulObjects 'i' ((call :: (before ++ later)).map Save.entry))
    (hp : torn <+: codec.record call.entry) (hcut : torn ≠ codec.record call.entry) :
    RecallsAll codec toLowercase before call torn later ↔
      torn = [] ∨ torn = utf8 (codec.line call.entry) ∧ later = [] := by
  constructor
  · exact left_of_recallsAll h hp hcut
  · rintro (rfl | ⟨rfl, rfl⟩)
    · refine ⟨(before ++ later).map Save.entry, .inl rfl, recall_eq_ok ?_⟩
      rw [fileAfter_eq, List.nil_append, ← Codec.log_append, ← List.map_append]
      exact load_log h fun r hm => List.mem_cons_of_mem _ hm
    · refine ⟨(before ++ [call]).map Save.entry, .inr rfl, recall_eq_ok ?_⟩
      rw [fileAfter_eq, List.map_nil, show codec.log [] = [] from rfl, List.append_nil,
        List.map_append]
      exact load_unended h (mem_entries_before before [] call) (List.mem_map_of_mem List.mem_cons_self)

/-! ## Two crashes -/

/-- Two entries as `serde_json` writes them. -/
def fact : Save := ⟨"ok", none, 1700000000, 0⟩

def factText : String :=
  "\x7b\"id\":\"mem-1700000000-0\",\"content\":\"ok\"," ++
    "\"created_at\":1700000000,\"expires_at\":null,\"manual\":true\x7d"

def preference : Save := ⟨"问题", some 1, 1700000000, 1⟩

def preferenceText : String :=
  "\x7b\"id\":\"mem-1700000000-1\",\"content\":\"问题\"," ++
    "\"created_at\":1700000000,\"expires_at\":1700086400,\"manual\":true\x7d"

/-- `serde_json`, as far as it goes with these two. -/
def twoEntries : Codec MemoryEntry where
  text entry := if entry = fact.entry then factText else preferenceText
  fromStr s :=
    if s = factText then .ok fact.entry
    else if s = preferenceText then .ok preference.entry
    else .error "expected value"

theorem lawful_twoEntries :
    twoEntries.LawfulObjects 'i' ([preference, fact, fact].map Save.entry) where
  readsBack := by decide +kernel
  oneLine := by decide +kernel
  object r hr := by
    simp only [List.map_cons, List.map_nil, List.mem_cons, List.not_mem_nil, or_false, or_self] at hr
    rcases hr with rfl | rfl
    · exact ⟨(preferenceText.toList.drop 3).dropLast, by decide +kernel⟩
    · exact ⟨(factText.toList.drop 3).dropLast, by decide +kernel⟩
  wellFormed text r h := by
    simp only [twoEntries] at h
    split at h
    · rename_i e
      rw [e]
      decide +kernel
    · split at h
      · rename_i e
        rw [e]
        decide +kernel
      · cases h

/-- ASCII only. -/
def asciiLowercase (text : String) : List Char := text.toList.map Char.toLower

/-- A crash that leaves all but the line feed. -/
theorem recallsAll_unended : RecallsAll twoEntries asciiLowercase [fact, fact] preference
    (utf8 (twoEntries.line preference.entry)) [] :=
  (recallsAll_iff lawful_twoEntries (List.prefix_append _ _) (by decide +kernel)).mpr
    (.inr ⟨rfl, rfl⟩)

/-- A crash in the middle of a character, and an entry saved later. -/
theorem not_recallsAll_torn : ¬ ∀ (before : List Save) (call : Save) (torn : List UInt8)
    (later : List Save),
    twoEntries.LawfulObjects 'i' ((call :: (before ++ later)).map Save.entry) →
      torn <+: twoEntries.record call.entry → torn ≠ twoEntries.record call.entry →
        RecallsAll twoEntries asciiLowercase before call torn later := by
  intro h
  have hp : (twoEntries.record preference.entry).take 37 <+: twoEntries.record preference.entry :=
    List.take_prefix 37 _
  have hcut : (twoEntries.record preference.entry).take 37 ≠ twoEntries.record preference.entry := by
    decide +kernel
  have hrecalls := h [fact] preference _ [fact] lawful_twoEntries hp hcut
  rcases left_of_recallsAll lawful_twoEntries hp hcut hrecalls with hnil | ⟨-, hnil⟩
  · revert hnil
    decide +kernel
  · cases hnil

end AgentDaemon.Memory
