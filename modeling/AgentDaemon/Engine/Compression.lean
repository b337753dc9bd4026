import AgentDaemon.Engine.Context

/-!
The compression of a history in place. The summary comes from the provider, piece by piece where
the history is too long for one request. `compress_spec` says what the cut keeps.
`compact_for_overflow` compresses a whole request in the same way, and `keepsInstructions_iff` says
when its fixed parts survive that.
-/

namespace AgentDaemon.Engine

open Provider

variable {Value : Type}

/-! ## The summary -/

/-- `split_for_token_budget`, after the characters of the piece at hand. -/
def splitPieces (charLimit budget : Nat) : List Char → List Char → List String
  | current, [] => if current.isEmpty then [] else [String.ofList current]
  | current, character :: rest =>
    let current := current ++ [character]
    if current.length ≥ charLimit || estimateTextTokens (String.ofList current) ≥ budget then
      String.ofList current :: splitPieces charLimit budget [] rest
    else splitPieces charLimit budget current rest

def splitForTokenBudget (text : String) (budget : Nat) : List String :=
  splitPieces (max (budget * 3) 1) budget [] text.toList

/-- The piece at hand: another character still goes into it. -/
def Unfinished (charLimit budget : Nat) (current : List Char) : Prop :=
  current = [] ∨ current.length < charLimit ∧ estimateTextTokens (String.ofList current) < budget

/-- What a piece may be. -/
structure WithinBudget (charLimit budget : Nat) (piece : String) : Prop where
  nonempty : piece ≠ ""
  tokens : estimateTextTokens piece ≤ max budget 1
  chars : piece.length ≤ charLimit

/-- A character adds one token at most. -/
theorem estimateTextTokens_concat_le (current : List Char) (character : Char) :
    estimateTextTokens (String.ofList (current ++ [character])) ≤
      estimateTextTokens (String.ofList current) + 1 := by
  unfold estimateTextTokens divCeil
  simp only [String.toList_ofList, List.countP_append, List.countP_singleton]
  cases isCjk character with
  | true => simp only [Bool.not_true, Bool.false_eq_true, if_true, if_false]; omega
  | false => simp only [Bool.not_false, Bool.false_eq_true, if_true, if_false]; omega

theorem estimateTextTokens_nil : estimateTextTokens (String.ofList []) = 0 := by
  simp [estimateTextTokens, divCeil]

/-- What is cut off with its last character. -/
theorem Unfinished.withinBudget {charLimit budget : Nat} {current : List Char}
    (h : Unfinished charLimit budget current) (hlimit : 0 < charLimit) (character : Char) :
    WithinBudget charLimit budget (String.ofList (current ++ [character])) := by
  have hle := estimateTextTokens_concat_le current character
  constructor
  · intro hempty
    have hlist := congrArg String.toList hempty
    simp at hlist
  · rcases h with rfl | ⟨-, htokens⟩
    · rw [estimateTextTokens_nil] at hle
      omega
    · omega
  · rw [String.length_ofList, List.length_append, List.length_singleton]
    rcases h with rfl | ⟨hchars, -⟩
    · exact hlimit
    · exact hchars

theorem withinBudget_splitPieces {charLimit budget : Nat} (hlimit : 0 < charLimit)
    (text : List Char) : ∀ {current : List Char}, Unfinished charLimit budget current →
      ∀ piece ∈ splitPieces charLimit budget current text, WithinBudget charLimit budget piece := by
  induction text with
  | nil =>
    intro current h piece hpiece
    rw [splitPieces] at hpiece
    split at hpiece
    · cases hpiece
    · rename_i hne
      rw [List.isEmpty_iff] at hne
      obtain rfl := List.mem_singleton.mp hpiece
      have hopen := h.resolve_left hne
      refine ⟨fun hempty => hne ?_, ?_, ?_⟩
      · simpa using congrArg String.toList hempty
      · omega
      · rw [String.length_ofList]
        omega
  | cons character text ih =>
    intro current h piece hpiece
    rw [splitPieces] at hpiece
    split at hpiece
    · rcases List.mem_cons.mp hpiece with rfl | hpiece
      · exact h.withinBudget hlimit character
      · exact ih (.inl rfl) piece hpiece
    · rename_i hopen
      refine ih (.inr ?_) piece hpiece
      simpa using hopen

theorem flatten_splitPieces (charLimit budget : Nat) (text : List Char) : ∀ current : List Char,
    (splitPieces charLimit budget current text).flatMap String.toList = current ++ text := by
  induction text with
  | nil =>
    intro current
    rw [splitPieces]
    split
    · rename_i hempty
      rw [List.isEmpty_iff.mp hempty]
      rfl
    · simp
  | cons character text ih =>
    intro current
    rw [splitPieces]
    split
    · rw [List.flatMap_cons, String.toList_ofList, ih, List.append_assoc]
      rfl
    · rw [ih, List.append_assoc]
      rfl

/-- **Splitting.** The pieces make up the text, and each of them is within the budget. -/
theorem splitForTokenBudget_spec (text : String) (budget : Nat) :
    String.join (splitForTokenBudget text budget) = text ∧
      ∀ chunk ∈ splitForTokenBudget text budget,
        WithinBudget (max (3 * budget) 1) budget chunk := by
  constructor
  · rw [← String.toList_inj, String.toList_join]
    exact flatten_splitPieces _ budget text.toList []
  · rw [Nat.mul_comm 3 budget]
    exact withinBudget_splitPieces (by omega) text.toList (.inl rfl)

def truncateChars (text : String) (maxChars : Nat) : String :=
  let output := String.ofList (text.toList.take maxChars)
  if text.toList.length > maxChars then output ++ "…[摘要已截断]" else output

/-- What a summary is made with. `answer n` is what the provider makes of the request after `n`
others. -/
structure Summarizer (Value : Type) where
  /-- `summary_chunk_tokens`. -/
  chunkTokens : Nat
  /-- `serde_json::to_string`. -/
  serialize : List (Message Value) → Except EngineError String
  answer : Nat → String → Except EngineError (Response Value)

namespace Summarizer

variable (s : Summarizer Value)

def requestSummary (n : Nat) (source : String) : Except EngineError String :=
  match s.answer n source with
  | .error error => .error error
  | .ok (.text summary) => .ok summary
  | .ok (.toolCalls _) => .error (.other "模型在上下文压缩时返回了工具调用")
  | .ok (.toolAssemblyFailed error) => .error (.other
      ("模型在上下文压缩时产生无效工具调用（" ++ error.code ++ "）：" ++ error.message))

/-- One request after the other, up to the first that fails. -/
def requestSummaries : Nat → List String → Except EngineError (List String)
  | _, [] => .ok []
  | n, chunk :: chunks => do
    let summary ← s.requestSummary n chunk
    let summaries ← requestSummaries (n + 1) chunks
    return summary :: summaries

/-- `levels` are what is left of the 8 that a summary of summaries may go down. -/
def summarizeText : (levels n : Nat) → String → Except EngineError String
  | 0, _, text => .ok (truncateChars text (s.chunkTokens * 3))
  | levels + 1, n, text =>
    if estimateTextTokens text ≤ s.chunkTokens then s.requestSummary n text
    else do
      let chunks := splitForTokenBudget text s.chunkTokens
      let summaries ← s.requestSummaries n chunks
      summarizeText levels (n + chunks.length) ("\n\n".intercalate summaries)

def summarize (old : List (Message Value)) : Except EngineError String := do
  let serialized ← s.serialize old
  s.summarizeText 8 0 serialized

end Summarizer

/-! ## Compression in place -/

def summaryMessage (summary : String) : Message Value :=
  .text .system ("此前对话摘要：\n" ++ summary)

namespace ContextManager

variable (c : ContextManager) (s : Summarizer Value)

/-- `compress_history`: the history it leaves, and its result. -/
def compress (history : List (Message Value)) (mode : CompressionMode) :
    List (Message Value) × Except EngineError Unit :=
  match c.cut history mode with
  | 0 => (history, .ok ())
  | split =>
    match s.summarize (history.take split) with
    | .error error => (history, .error error)
    | .ok summary => (summaryMessage summary :: history.drop split, .ok ())

/-- The history that the engine goes on with is the one that `compress` leaves. -/
theorem compressHistory_eq_compress (history : List (Message Value)) (mode : CompressionMode) :
    c.compressHistory history mode (s.summarize (history.take (c.cut history mode))) =
      (c.compress s history mode).2.map fun _ => (c.compress s history mode).1 := by
  unfold compressHistory compress
  generalize c.cut history mode = split
  cases split with
  | zero => rfl
  | succ split =>
    cases hsummary : s.summarize (history.take (split + 1)) with
    | error error => simp [hsummary, Except.map]
    | ok summary => simp [hsummary, Except.map, summaryMessage]

/-! ## The cut -/

section Cut

variable {c} {s} {history : List (Message Value)} {mode : CompressionMode} {split : Nat}

def isTool (history : List (Message Value)) (i : Nat) : Bool :=
  history[i]?.any fun message => message.role = .tool

/-- Message `j` is a result of the tool calls of message `i`: only results stand between them. -/
structure ResultOf (history : List (Message Value)) (i j : Nat) : Prop where
  lt : i < j
  calls : ∃ message, history[i]? = some message ∧ message.role = .assistant ∧
    message.toolCalls ≠ []
  results : ∀ k, i < k → k ≤ j → isTool history k = true

theorem cutBefore_le (history : List (Message Value)) (split : Nat) :
    cutBefore history split ≤ split := by
  induction split with
  | zero => exact Nat.le_refl 0
  | succ split ih =>
    rw [cutBefore]
    split
    · omega
    · exact Nat.le_refl _

/-- The loop ends at a message that is no tool message, or at the start. -/
theorem isTool_cutBefore (split : Nat) (h : cutBefore history split ≠ 0) :
    isTool history (cutBefore history split) = false := by
  induction split with
  | zero => exact absurd rfl h
  | succ split ih =>
    rw [cutBefore] at h ⊢
    split at h
    · rename_i htool
      rw [if_pos htool]
      exact ih h
    · rename_i htool
      rw [if_neg htool]
      simpa [isTool] using htool

theorem divCeil_three_le (n : Nat) (h : 0 < n) : max (divCeil n 3) 1 ≤ n := by
  unfold divCeil
  omega

theorem cut_spec (c : ContextManager) (history : List (Message Value)) (mode : CompressionMode)
    (hne : c.cut history mode ≠ 0) :
    c.cut history mode + c.config.recentMessages ≤ history.length ∧
      isTool history (c.cut history mode) = false := by
  unfold cut at hne ⊢
  split
  · rename_i hshort
    rw [if_pos hshort] at hne
    exact absurd rfl hne
  · rename_i hlong
    rw [if_neg hlong] at hne
    dsimp only at hne ⊢
    refine ⟨?_, isTool_cutBefore _ hne⟩
    cases mode with
    | mild =>
      have hle := cutBefore_le history (max (divCeil (history.length - c.config.recentMessages) 3) 1)
      have hthird := divCeil_three_le (history.length - c.config.recentMessages) (by omega)
      show cutBefore history (max (divCeil (history.length - c.config.recentMessages) 3) 1) +
        c.config.recentMessages ≤ history.length
      omega
    | strong =>
      have hle := cutBefore_le history (history.length - c.config.recentMessages)
      show cutBefore history (history.length - c.config.recentMessages) +
        c.config.recentMessages ≤ history.length
      omega

/-- A result and its calls are on the same side of the cut. -/
theorem ResultOf.lt_iff {i j : Nat} (h : ResultOf history i j) (hcut : isTool history split = false) :
    i < split ↔ j < split := by
  constructor
  · intro hi
    by_contra hj
    have htool := h.results split hi (by omega)
    rw [hcut] at htool
    cases htool
  · intro hj
    have hlt := h.lt
    omega

theorem replies_drop (h : isTool history split = false) :
    (toolDialogue Value).replies (history.drop split) = [] := by
  cases hdrop : history.drop split with
  | nil => rfl
  | cons message rest =>
    have hget : history[split]? = some message := by
      have hhead := congrArg List.head? hdrop
      rwa [List.head?_drop] at hhead
    refine Dialogue.replies_eq_nil ?_ rest
    have hrole : message.role ≠ .tool := by simpa [isTool, hget] using h
    exact if_neg hrole

theorem compress_cases (c : ContextManager) (s : Summarizer Value) (history : List (Message Value))
    (mode : CompressionMode) :
    (c.cut history mode = 0 ∧ c.compress s history mode = (history, .ok ())) ∨
    (∃ error, c.cut history mode ≠ 0 ∧
      s.summarize (history.take (c.cut history mode)) = .error error ∧
      c.compress s history mode = (history, .error error)) ∨
    ∃ summary, c.cut history mode ≠ 0 ∧
      s.summarize (history.take (c.cut history mode)) = .ok summary ∧
      c.compress s history mode =
        (summaryMessage summary :: history.drop (c.cut history mode), .ok ()) := by
  unfold compress
  cases hcut : c.cut history mode with
  | zero => exact .inl ⟨rfl, rfl⟩
  | succ split =>
    cases hsummary : s.summarize (history.take (split + 1)) with
    | error error => exact .inr (.inl ⟨error, by simp, rfl, by simp [hsummary]⟩)
    | ok summary => exact .inr (.inr ⟨summary, by simp, rfl, by simp [hsummary]⟩)

/-- What stands in the place of a history: its summary up to the cut, and the rest of it. -/
structure Compressed (recentMessages : Nat) (history history' : List (Message Value))
    (summary : String) (split : Nat) : Prop where
  eq : history' = summaryMessage summary :: history.drop split
  proper : 0 < split ∧ split ≤ history.length
  recent : recentMessages ≤ (history.drop split).length
  together : ∀ i j, ResultOf history i j → (i < split ↔ j < split)
  paired : ToolsPaired (history.take split) ∧ ToolsPaired (history.drop split)

/-- **Compression.** A history whose tool results follow their calls is left as it is, or its messages
before a cut between two exchanges are replaced by their summary. A failure changes nothing. -/
theorem compress_spec (c : ContextManager) (s : Summarizer Value) (history : List (Message Value))
    (mode : CompressionMode) (hp : ToolsPaired history) :
    ((c.compress s history mode).1 = history ∨ ∃ summary split,
      s.summarize (history.take split) = .ok summary ∧ Compressed c.config.recentMessages history
        (c.compress s history mode).1 summary split) ∧
    ∀ error, (c.compress s history mode).2 = .error error →
      (c.compress s history mode).1 = history := by
  rcases compress_cases c s history mode with ⟨-, he⟩ | ⟨error, -, -, he⟩ | ⟨summary, hne, hsummary, he⟩
  · rw [he]
    exact ⟨.inl rfl, fun _ _ => rfl⟩
  · rw [he]
    exact ⟨.inl rfl, fun _ _ => rfl⟩
  · rw [he]
    obtain ⟨hle, htool⟩ := cut_spec c history mode hne
    have hparts : ToolsPaired (history.take (c.cut history mode) ++ history.drop (c.cut history mode)) := by
      rwa [List.take_append_drop]
    refine ⟨.inr ⟨summary, c.cut history mode, hsummary, ?_⟩, fun _ h => by cases h⟩
    constructor
    · rfl
    · omega
    · rw [List.length_drop]
      omega
    · exact fun i j h => h.lt_iff htool
    · exact ⟨hparts.of_append (replies_drop htool), hparts.suffix⟩

def shortContext : ContextManager := ⟨"规则", some "先测试", ⟨256, 1, 1, 2⟩⟩

def oneSummary : Summarizer Unit := ⟨1000, fun _ => .ok "旧消息", fun _ _ => .ok (.text "摘要")⟩

/-- The cut would fall between a call and its result. -/
def calledHistory : List (Message Unit) :=
  [.text .user "a", .assistantToolCalls [⟨"c", "read", ()⟩], .toolResult ⟨"c", "read", ()⟩ "b"]

theorem compress_spec_calledHistory :
    ((shortContext.compress oneSummary calledHistory .strong).1 = calledHistory ∨
      ∃ summary split, oneSummary.summarize (calledHistory.take split) = .ok summary ∧
        Compressed 1 calledHistory (shortContext.compress oneSummary calledHistory .strong).1
          summary split) ∧
    ∀ error, (shortContext.compress oneSummary calledHistory .strong).2 = .error error →
      (shortContext.compress oneSummary calledHistory .strong).1 = calledHistory :=
  compress_spec shortContext oneSummary calledHistory .strong (by decide)

example : (shortContext.compress oneSummary calledHistory .strong).1 =
    summaryMessage "摘要" :: calledHistory.drop 1 := by decide +kernel

end Cut

/-! ## A request that the provider finds too long -/

section Overflow

variable (printer : Printer Value)

def compactForOverflow (messages : List (Message Value)) :
    Except EngineError (Option (List (Message Value))) :=
  if messages.length ≤ 2 then .ok none
  else
    let (compacted, result) := c.compress s messages .strong
    match result with
    | .error error => .error error
    | .ok () =>
      if estimateMessages printer compacted < estimateMessages printer messages then
        .ok (some compacted)
      else .ok none

/-- The project rules, as `compose` puts them into a request. -/
def rulesMessages : List (Message Value) :=
  (c.projectRules.map fun rules => Message.text .system ("项目规则（AGENTS.md）：
" ++ rules)).toList

/-- A request: what `prepare` composes, with the transient messages and reminders of the round. -/
def request (history : List (Message Value)) (environment : String)
    (later : List (Message Value)) : List (Message Value) :=
  c.compose history environment ++ later

/-- Only messages of the history are replaced. -/
def KeepsInstructions (environment : String) (later compacted : List (Message Value)) : Prop :=
  ∃ history', compacted = c.request history' environment later

variable {c} {s} {printer} {history later messages compacted : List (Message Value)}
  {environment : String}

theorem request_eq (c : ContextManager) (history : List (Message Value)) (environment : String)
    (later : List (Message Value)) : c.request history environment later =
      .text .system c.systemPrompt ::
        (c.rulesMessages ++ (history ++ (.text .system environment :: later))) := by
  simp [request, compose, rulesMessages]

/-- The compaction of the messages comes about, with this summary. -/
structure Shrinks (c : ContextManager) (s : Summarizer Value) (printer : Printer Value)
    (messages : List (Message Value)) (summary : String) : Prop where
  long : 2 < messages.length
  cut : c.cut messages .strong ≠ 0
  summarized : s.summarize (messages.take (c.cut messages .strong)) = .ok summary
  smaller : estimateMessages printer
      (summaryMessage summary :: messages.drop (c.cut messages .strong)) <
    estimateMessages printer messages

theorem compactForOverflow_eq_some : c.compactForOverflow s printer messages = .ok (some compacted) ↔
    ∃ summary, Shrinks c s printer messages summary ∧
      compacted = summaryMessage summary :: messages.drop (c.cut messages .strong) := by
  unfold compactForOverflow
  by_cases hlong : messages.length ≤ 2
  · rw [if_pos hlong]
    constructor
    · rintro ⟨⟩
    · rintro ⟨summary, hs, -⟩
      have hgt := hs.long
      omega
  · rw [if_neg hlong]
    rcases compress_cases c s messages .strong with
      ⟨hcut, he⟩ | ⟨error, -, hsummary, he⟩ | ⟨summary, hcut, hsummary, he⟩
    · rw [he]
      dsimp only
      rw [if_neg (Nat.lt_irrefl _)]
      constructor
      · rintro ⟨⟩
      · rintro ⟨summary, hs, -⟩
        exact absurd hcut hs.cut
    · rw [he]
      constructor
      · rintro ⟨⟩
      · rintro ⟨summary, hs, -⟩
        cases hsummary.symm.trans hs.summarized
    · rw [he]
      dsimp only
      constructor
      · intro h
        split at h
        · rename_i hsmaller
          cases h
          exact ⟨summary, ⟨by omega, hcut, hsummary, hsmaller⟩, rfl⟩
        · cases h
      · rintro ⟨summary', hs, rfl⟩
        cases hsummary.symm.trans hs.summarized
        rw [if_pos hs.smaller]

/-- The compacted request happens to begin as the request does: the system prompt is the text of the
summary, the rules come right after the cut, and the cut is not past the history. -/
structure Coincides (c : ContextManager) (history messages : List (Message Value)) (split : Nat)
    (summary : String) : Prop where
  prompt : c.systemPrompt = "此前对话摘要：\n" ++ summary
  rules : c.rulesMessages <+: messages.drop split
  within : split ≤ 1 + history.length

theorem text_inj {role : Role} {a b : String}
    (h : (Message.text role a : Message Value) = .text role b) : a = b :=
  Option.some.inj (congrArg Message.content h)

theorem keepsInstructions_cons_iff (split : Nat) (summary : String) :
    c.KeepsInstructions environment later
        (summaryMessage summary :: (c.request history environment later).drop split) ↔
      Coincides c history (c.request history environment later) split summary := by
  have hlength := congrArg List.length (request_eq c history environment later)
  have hdrop := List.length_drop (i := split) (l := c.request history environment later)
  simp only [List.length_cons, List.length_append] at hlength
  constructor
  · rintro ⟨history', h⟩
    rw [request_eq c history'] at h
    obtain ⟨hprompt, hrest⟩ := List.cons.inj h
    refine ⟨(text_inj hprompt).symm, ⟨_, hrest.symm⟩, ?_⟩
    rw [hrest] at hdrop
    simp only [List.length_cons, List.length_append] at hdrop
    omega
  · rintro ⟨hprompt, ⟨rest, hrest⟩, hwithin⟩
    -- What follows the history ends the request, and what follows the rules as well.
    have hafter : (.text .system environment :: later) <:+ c.request history environment later := by
      rw [request_eq]
      exact ⟨.text .system c.systemPrompt :: (c.rulesMessages ++ history), by simp⟩
    have hsuffix : rest <:+ c.request history environment later :=
      (List.suffix_append c.rulesMessages rest).trans (hrest ▸ List.drop_suffix split _)
    have hlong : (Message.text .system environment :: later).length ≤ rest.length := by
      rw [← hrest] at hdrop
      simp only [List.length_append, List.length_cons] at hdrop ⊢
      omega
    obtain ⟨history', rfl⟩ := List.suffix_of_suffix_length_le hafter hsuffix hlong
    refine ⟨history', ?_⟩
    rw [request_eq c history', ← hrest, hprompt]
    rfl

/-- **Overflow.** Every compacted request keeps the system prompt, the rules and what follows the
history exactly if none comes about, or it coincides with the request there. -/
theorem keepsInstructions_iff (c : ContextManager) (s : Summarizer Value) (printer : Printer Value)
    (history : List (Message Value)) (environment : String) (later : List (Message Value)) :
    (∀ compacted, c.compactForOverflow s printer (c.request history environment later) =
        .ok (some compacted) → c.KeepsInstructions environment later compacted) ↔
      ∀ summary, Shrinks c s printer (c.request history environment later) summary →
        Coincides c history (c.request history environment later)
          (c.cut (c.request history environment later) .strong) summary := by
  constructor
  · intro h summary hs
    exact (keepsInstructions_cons_iff _ summary).mp
      (h _ (compactForOverflow_eq_some.mpr ⟨summary, hs, rfl⟩))
  · intro h compacted hc
    obtain ⟨summary, hs, rfl⟩ := compactForOverflow_eq_some.mp hc
    exact (keepsInstructions_cons_iff _ summary).mpr (h summary hs)

def plainPrinter : Printer Unit := ⟨fun _ => "{}", fun _ => "[]", fun _ => "[]", fun _ => 0⟩

/-- One message after the rules. -/
def shortHistory : List (Message Unit) := [.text .user "a"]

/-- The instructions go into the summary together with the history. -/
theorem not_keepsInstructions_shortHistory :
    ¬ ∀ compacted, shortContext.compactForOverflow oneSummary plainPrinter
        (shortContext.request shortHistory "动态环境" []) = .ok (some compacted) →
      shortContext.KeepsInstructions "动态环境" [] compacted := by
  intro h
  have hshrinks : Shrinks shortContext oneSummary plainPrinter
      (shortContext.request shortHistory "动态环境" []) "摘要" :=
    ⟨by decide, by decide +kernel, by rfl, by decide +kernel⟩
  have hkept := h _ (compactForOverflow_eq_some.mpr ⟨"摘要", hshrinks, rfl⟩)
  have hprompt := ((keepsInstructions_cons_iff _ _).mp hkept).prompt
  exact absurd hprompt (by decide)

end Overflow

end ContextManager

end AgentDaemon.Engine
