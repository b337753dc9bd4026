import AgentDaemon.Lib.JsonLines
import AgentDaemon.Lib.Fallible
import AgentDaemon.Provider.Message

/-!
The session file: `append` and `load`, over bytes. `load` leaves out a last line that it cannot
read and that no line feed ends; `append` does not look at what the file ends with.
`recovers_iff` says after which crashes the messages can still be loaded.
-/

namespace AgentDaemon.Session

open Provider JsonText

structure CorruptLine where
  line : Nat
  source : String
  deriving DecidableEq, Repr

variable {ρ : Type} (codec : Codec ρ)

/-- The lines from `index` on; `complete` says that a line feed ends the last one. -/
def loadLines (complete : Bool) : Nat → List (List Char) → Except CorruptLine (List ρ)
  | _, [] => .ok []
  | index, line :: lines =>
    if line.all isWhiteSpace then loadLines complete (index + 1) lines
    else match codec.fromStr (String.ofList line) with
      | .ok message => (message :: ·) <$> loadLines complete (index + 1) lines
      | .error source =>
        if lines.isEmpty && !complete then .ok [] else .error ⟨index + 1, source⟩

/-- `load_path`; `none` is a file that does not exist. -/
def load (file : Option (List UInt8)) : Except CorruptLine (List ρ) :=
  match file with
  | none => .ok []
  | some bytes => loadLines codec (bytes.getLast?.all (· = 10)) 0 (lines (fromUtf8Lossy bytes))

/-- An append that returns. -/
def append (file : Option (List UInt8)) (message : ρ) : Option (List UInt8) :=
  some (file.getD [] ++ codec.record message)

/-- A crash after some bytes of an append. -/
def crash (file : Option (List UInt8)) (torn : List UInt8) : Option (List UInt8) :=
  some (file.getD [] ++ torn)

/-- Appends, a crash in the append of another message, and appends after the restart. -/
def fileAfter (before : List ρ) (torn : List UInt8) (later : List ρ) : Option (List UInt8) :=
  later.foldl (append codec) (crash (before.foldl (append codec) none) torn)

/-- All messages are loaded, and at most the torn one is missing. -/
def Recovers (before : List ρ) (message : ρ) (torn : List UInt8) (later : List ρ) : Prop :=
  ∃ messages, load codec (fileAfter codec before torn later) = .ok messages ∧
    (messages = before ++ later ∨ messages = before ++ message :: later)

/-! ## The bytes and the lines -/

variable {codec} {first : Char} {records : List ρ}

theorem foldl_append (bytes : List UInt8) (messages : List ρ) :
    messages.foldl (append codec) (some bytes) = some (bytes ++ codec.log messages) := by
  induction messages generalizing bytes with
  | nil => exact congrArg some (List.append_nil bytes).symm
  | cons message messages ih =>
    rw [List.foldl_cons, append, Option.getD_some, ih, List.append_assoc]
    rfl

theorem getD_foldl_append (messages : List ρ) :
    (messages.foldl (append codec) none).getD [] = codec.log messages := by
  cases messages with
  | nil => rfl
  | cons message messages =>
    rw [List.foldl_cons, append, Option.getD_none, List.nil_append, foldl_append, Option.getD_some]
    rfl

theorem fileAfter_eq (before : List ρ) (torn : List UInt8) (later : List ρ) :
    fileAfter codec before torn later =
      some (codec.log before ++ (torn ++ codec.log later)) := by
  rw [fileAfter, crash, getD_foldl_append, foldl_append, List.append_assoc]

theorem not_blank_of_head {line cs : List Char} (h : line = '\x7b' :: cs) :
    line.all isWhiteSpace = false := by
  rw [h, List.all_cons, show isWhiteSpace '\x7b' = false from by decide, Bool.false_and]

/-- The lines of records are read back one by one. -/
theorem loadLines_records (h : codec.LawfulObjects first records) {complete : Bool} (messages : List ρ)
    (hm : ∀ r ∈ messages, r ∈ records) (index : Nat) (cs : List Char) :
    ∃ index', loadLines codec complete index
      (lines ((messages.flatMap fun r => codec.line r ++ ['\n']) ++ cs)) =
        (messages ++ ·) <$> loadLines codec complete index' (lines cs) := by
  induction messages generalizing index with
  | nil =>
    refine ⟨index, ?_⟩
    rw [List.flatMap_nil, List.nil_append]
    cases loadLines codec complete index (lines cs) <;> rfl
  | cons message messages ih =>
    have hr := hm message List.mem_cons_self
    obtain ⟨index', ih⟩ := ih (fun r hr => hm r (List.mem_cons_of_mem _ hr)) (index + 1)
    obtain ⟨body, hbody⟩ := h.object message hr
    refine ⟨index', ?_⟩
    have hline := Codec.lines_record h hr [] List.not_mem_nil
      ((messages.flatMap fun r => codec.line r ++ ['\n']) ++ cs)
    rw [List.nil_append, List.nil_append] at hline
    have hread : codec.fromStr (String.ofList (codec.line message)) = .ok message := by
      rw [Codec.line, String.ofList_toList]
      exact h.readsBack message hr
    rw [List.flatMap_cons, List.append_assoc, List.append_assoc, List.singleton_append, hline,
      loadLines, not_blank_of_head hbody, if_neg (by decide), hread]
    dsimp only
    rw [ih]
    cases loadLines codec complete index' (lines cs) <;> rfl

/-- A line that does not read as a record stops the load. -/
theorem loadLines_refused {line : List Char} {cs : List Char} (hhead : line = '\x7b' :: cs)
    (h : codec.LawfulObjects first records) (hill : ¬ WellFormed line) (complete : Bool) (index : Nat)
    (rest : List (List Char)) : ∃ source, loadLines codec complete index (line :: rest) =
      if rest.isEmpty && !complete then .ok [] else .error ⟨index + 1, source⟩ := by
  rw [loadLines, not_blank_of_head hhead, if_neg (by decide)]
  cases hread : codec.fromStr (String.ofList line) with
  | ok r =>
    have hwell := h.wellFormed _ r hread
    rw [String.toList_ofList] at hwell
    exact absurd hwell hill
  | error source => exact ⟨source, rfl⟩

/-! ## Recovery -/

theorem getLast?_log {messages : List ρ} (bytes : List UInt8) (hne : messages ≠ []) :
    (bytes ++ codec.log messages).getLast? = some 10 := by
  obtain ⟨init, last, rfl⟩ := (List.eq_nil_or_concat messages).resolve_left hne
  rw [Codec.log, List.concat_eq_append, List.flatMap_append, List.flatMap_singleton, Codec.record,
    ← List.append_assoc, ← List.append_assoc, List.getLast?_concat]

/-- The file as `load` sees it: the lines of the messages before the crash, and the rest. -/
theorem load_eq (h : codec.LawfulObjects first records) {before : List ρ} (hb : ∀ r ∈ before, r ∈ records)
    (rest : List UInt8) : ∃ index, load codec (some (codec.log before ++ rest)) =
      (before ++ ·) <$> loadLines codec ((codec.log before ++ rest).getLast?.all (· = 10)) index
        (lines (fromUtf8Lossy rest)) := by
  rw [load, Codec.fromUtf8Lossy_log_append]
  exact loadLines_records h before hb 0 _

/-- Without torn bytes the file is as if there had been no crash. -/
theorem load_log (h : codec.LawfulObjects first records) {messages : List ρ} (hm : ∀ r ∈ messages, r ∈ records) :
    load codec (some (codec.log messages)) = .ok messages := by
  obtain ⟨index, e⟩ := load_eq h hm []
  rw [List.append_nil] at e
  rw [e]
  exact congrArg Except.ok (List.append_nil messages)

/-- Where nothing follows, the torn record is the last line, and left out or read whole. -/
theorem load_torn (h : codec.LawfulObjects first records) {before : List ρ} (hb : ∀ r ∈ before, r ∈ records)
    {message : ρ} (hr : message ∈ records) {torn : List UInt8} {tail : List Char}
    (ht : Codec.Tail codec message torn [] tail) :
    load codec (some (codec.log before ++ torn)) = .ok before ∨
      load codec (some (codec.log before ++ torn)) = .ok (before ++ [message]) := by
  obtain ⟨index, e⟩ := load_eq h hb torn
  obtain ⟨cs, hhead⟩ := ht.head
  have hseen := ht.seen
  rw [List.append_nil, fromUtf8Lossy_nil, List.append_nil] at hseen
  have hincomplete : (codec.log before ++ torn).getLast?.all (· = 10) = false := by
    have hne : torn ≠ [] := by
      rintro rfl
      rw [fromUtf8Lossy_nil, hhead] at hseen
      cases hseen
    rw [List.getLast?_append_of_ne_nil _ hne]
    obtain ⟨b, hb⟩ := Option.ne_none_iff_exists'.mp (fun hn => hne (List.getLast?_eq_none_iff.mp hn))
    have hunended := ht.unended
    rw [hb] at hunended ⊢
    simpa using hunended
  rw [e, hseen, lines_last ht.oneLine (hhead ▸ List.cons_ne_nil _ _), hincomplete]
  rcases ht.whole with rfl | hill
  · right
    have hread : codec.fromStr (String.ofList (codec.line message)) = .ok message := by
      rw [Codec.line, String.ofList_toList]
      exact h.readsBack message hr
    rw [loadLines, not_blank_of_head hhead, if_neg (by decide), hread]
    rfl
  · left
    obtain ⟨source, hill⟩ := loadLines_refused hhead h hill false index []
    rw [hill]
    exact congrArg Except.ok (List.append_nil before)

/-- Where a message follows, it is on one line with the torn bytes, which reads as nothing. -/
theorem load_glued (hfirst : step (.afterString 0) first = none)
    (h : codec.LawfulObjects first records) {before later : List ρ}
    (hb : ∀ r ∈ before, r ∈ records) {message next : ρ} (hnext : next ∈ records)
    {torn : List UInt8} {tail : List Char}
    (ht : Codec.Tail codec message torn (codec.log (next :: later)) tail) (messages : List ρ) :
    load codec (some (codec.log before ++ (torn ++ codec.log (next :: later)))) ≠ .ok messages := by
  obtain ⟨index, e⟩ := load_eq h hb (torn ++ codec.log (next :: later))
  have hcomplete : (codec.log before ++ (torn ++ codec.log (next :: later))).getLast? = some 10 := by
    rw [← List.append_assoc]
    exact getLast?_log _ (List.cons_ne_nil _ _)
  obtain ⟨cs, hhead⟩ := ht.head
  obtain ⟨body, hbody⟩ := h.object next hnext
  have hill : ¬ WellFormed (tail ++ codec.line next) := by
    have hwell := h.wellFormed_line hnext
    rw [hbody] at hwell ⊢
    refine glued_not_wellFormed (hhead ▸ List.cons_ne_nil _ _) ?_ hfirst hwell
    rw [hhead]
    rintro d ⟨⟩
    rfl
  have hlog : fromUtf8Lossy (codec.log (next :: later)) =
      codec.line next ++ '\n' :: (fromUtf8Lossy (codec.log later)) := by
    have hone := Codec.fromUtf8Lossy_log_append codec [next] (codec.log later)
    rw [List.flatMap_singleton, List.append_assoc, List.singleton_append] at hone
    rw [← hone, Codec.log, List.flatMap_cons, Codec.log, Codec.log, List.flatMap_singleton]
  have hhead' : tail ++ codec.line next = '\x7b' :: (cs ++ codec.line next) := by
    rw [hhead]
    rfl
  obtain ⟨source, hrefused⟩ := loadLines_refused hhead' h hill true index
    (lines (fromUtf8Lossy (codec.log later)))
  rw [e, hcomplete, ht.seen, hlog, Codec.lines_record h hnext tail ht.oneLine]
  intro hok
  obtain ⟨rest, hrest, -⟩ := Fallible.map_eq_ok.mp hok
  rw [Bool.not_true, Bool.and_false, if_neg (by decide)] at hrefused
  cases hrefused.symm.trans hrest

/-- Two messages as `serde_json` writes them. -/
def question : Message Json := .text .user "问题"

def questionText : String := "\x7b\"role\":\"user\",\"content\":\"问题\"\x7d"

def reply : Message Json := .text .assistant "ok"

def replyText : String := "\x7b\"role\":\"assistant\",\"content\":\"ok\"\x7d"

/-- `serde_json`, as far as it goes with these two. -/
def twoMessages : Codec (Message Json) where
  text m := if m = question then questionText else replyText
  fromStr s :=
    if s = questionText then .ok question
    else if s = replyText then .ok reply
    else .error "expected value"

theorem lawful_twoMessages : twoMessages.Lawful [question, reply, reply] where
  readsBack := by decide +kernel
  oneLine := by decide +kernel
  object r hr := by
    simp only [List.mem_cons, List.not_mem_nil, or_false, or_self] at hr
    rcases hr with rfl | rfl
    · exact ⟨"ole\":\"user\",\"content\":\"问题\"".toList, by decide +kernel⟩
    · exact ⟨"ole\":\"assistant\",\"content\":\"ok\"".toList, by decide +kernel⟩
  wellFormed text r h := by
    simp only [twoMessages] at h
    split at h
    · rename_i e
      rw [e]
      decide +kernel
    · split at h
      · rename_i e
        rw [e]
        decide +kernel
      · cases h

end AgentDaemon.Session
