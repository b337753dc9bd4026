import AgentDaemon.Engine.Turn
import AgentDaemon.Provider.Anthropic
import AgentDaemon.Provider.Ollama
import AgentDaemon.Provider.Openai

/-!
The identities of the tool calls of a turn. A round hands a batch of calls to the tools, whose ids
are those that the adapter of the provider gave to the stream that answered the round.
-/

namespace AgentDaemon.Engine

open Provider Transition

variable {Value : Type}

/-! ## Streams of the adapters -/

/-- What the adapters use of `serde_json`. -/
structure Codecs (Value : Type) where
  ollama : Ollama.Codec Value
  openai : String → Option Openai.StreamChunk
  anthropic : String → Option Json

/-- Events that an adapter has sent, up to some moment of the response. -/
inductive Streamed (codecs : Codecs Value) (events : List ProviderEvent) : Prop
  | ollama (chunks : List (Except AdapterError (List UInt8)))
    (h : events <+: (ByteLines.last (Ollama.parseNdjson codecs.ollama chunks)).events)
  | openai (chunks : List (Except AdapterError (List UInt8)))
    (h : events <+: (ByteLines.last (Openai.parseSse codecs.openai chunks)).events)
  | anthropic (chunks : List (Except AdapterError (List UInt8)))
    (h : events <+: (ByteLines.last (Anthropic.parseSse codecs.anthropic chunks)).events)

theorem Streamed.wired_or_counted {codecs : Codecs Value} {events : List ProviderEvent}
    (h : Streamed codecs events) : Wired events ∨ Counted events := by
  cases h with
  | ollama chunks h => exact .inr ((Ollama.counted_parseNdjson _ chunks).of_initial h)
  | openai chunks h => exact .inl ((Openai.wired_parseSse _ chunks).of_initial h)
  | anthropic chunks h => exact .inl ((Anthropic.wired_parseSse _ chunks).of_initial h)

/-- A call of the response is known by its position. -/
def positional (events : List ProviderEvent) : Bool :=
  (starts events).any fun execId => match execId.source with
    | .position _ => true
    | .wireId _ => false

theorem starts_eq (events : List ProviderEvent) :
    starts events = events.filterMap ProviderEvent.startedId := by
  refine congrArg (events.filterMap ·) (funext fun event => ?_)
  cases event <;> rfl

/-! ## The batches of a turn -/

/-- The calls that a round hands to the tools, with the events that answered the round. -/
structure Batch (Value : Type) where
  events : List ProviderEvent
  calls : List (ToolCall Value)

variable (json : Serde Value) (printer : Printer Value) (e : LoopEngine Value)

/-- The events of the attempt that answers the request of a round. -/
def answering (s : TurnState Value) (input : RoundInput Value) : List ProviderEvent :=
  ((requestModel json (e.audit.map fun runId => ⟨runId, s.round + 1⟩) e.route input.cancelled
    input.requests).attempts.getLast?.map (·.events)).getD []

/-- The message with the calls is recorded before they are handed over. -/
def handed (s : TurnState Value) (input : RoundInput Value) : Option (Batch Value) :=
  if s.result.isSome then none
  else match head json printer e s input with
    | .over _ => none
    | .batch _ calls _ =>
      if e.session = true ∧ input.appended ≠ .done then none
      else some ⟨answering json e s input, calls⟩

/-- The batches that a turn hands to the tools, in their order. -/
def batches (input : TurnInput) (history session : List (Message Value))
    (rounds : List (RoundInput Value)) : List (Batch Value) :=
  outputs (turnRound json printer e) (handed json printer e) (beginTurn e input history session)
    rounds

/-- The calls that a turn hands to the tools. -/
def executed (input : TurnInput) (history session : List (Message Value))
    (rounds : List (RoundInput Value)) : List (ToolCall Value) :=
  (batches json printer e input history session rounds).flatMap (·.calls)

section Handed

variable {json printer e} {s : TurnState Value} {input : RoundInput Value} {b : Batch Value}

/-- What is handed over goes to `execute_in_waves`. -/
theorem turnRound_of_handed (h : handed json printer e s input = some b) :
    ∃ s', turnRound json printer e s input = finishBatch printer e input b.calls s' := by
  unfold handed at h
  unfold turnRound
  by_cases hfree : s.result.isSome = true
  · rw [if_pos hfree] at h
    cases h
  · rw [if_neg hfree] at h ⊢
    rcases hhead : head json printer e s input with s₁ | ⟨s₁, calls, thinking⟩
    · rw [hhead] at h
      cases h
    · rw [hhead] at h
      dsimp only at h ⊢
      split at h
      · cases h
      · rename_i happ
        cases h
        unfold runBatch TurnState.record
        by_cases he : e.session = true
        · have hdone : input.appended = .done := by
            by_contra hne
            exact happ ⟨he, hne⟩
          rw [if_pos he, hdone]
          exact ⟨_, rfl⟩
        · rw [if_neg he]
          exact ⟨_, rfl⟩

/-- Where nothing is handed over, no tool is asked. -/
theorem turnRound_of_not_handed (h : handed json printer e s input = none)
    (runs : ToolCall Value → ToolRun Value) :
    turnRound json printer e s { input with runs } = turnRound json printer e s input := by
  have hsame : head json printer e s { input with runs } = head json printer e s input := rfl
  unfold handed at h
  unfold turnRound
  rw [hsame]
  by_cases hfree : s.result.isSome = true
  · rw [if_pos hfree, if_pos hfree]
  · rw [if_neg hfree] at h
    rw [if_neg hfree, if_neg hfree]
    rcases hhead : head json printer e s input with s₁ | ⟨s₁, calls, thinking⟩
    · rfl
    · rw [hhead] at h
      dsimp only at h ⊢
      split at h
      · rename_i hfailed
        unfold runBatch TurnState.record
        rw [if_pos hfailed.1, if_pos hfailed.1]
        cases happ : input.appended with
        | done => exact absurd happ hfailed.2
        | failed error kept => rfl
      · cases h

/-- A batch comes from the answer of the model. -/
theorem spend_batch {messages : List (Message Value)} {response : Response Value}
    {k : TurnState Value → Head Value} {s' : TurnState Value} {calls : List (ToolCall Value)}
    {thinking : Option String}
    (h : spend printer e input messages response s k = .batch s' calls thinking) :
    ∃ s₁, k s₁ = .batch s' calls thinking := by
  unfold spend at h
  split at h
  · exact ⟨s, h⟩
  · dsimp only at h
    split at h
    · cases h
    · split at h
      · cases h
      · exact ⟨_, h⟩

theorem answer_batch {output : ModelOutput Value} {s' : TurnState Value}
    {calls : List (ToolCall Value)} {thinking : Option String}
    (h : answer e input output s = .batch s' calls thinking) :
    output.response = .toolCalls calls ∧ calls ≠ [] := by
  unfold answer at h
  split at h
  · cases h
  · rename_i calls' hcalls
    split at h
    · cases h
    · rename_i hne
      split at h
      · cases h
      · split at h
        · cases h
        · cases h
          exact ⟨hcalls, fun e => hne (by rw [e]; rfl)⟩
  · cases h

/-- The calls of a batch are what the answering events spell. -/
theorem handed_spec (h : handed json printer e s input = some b) :
    (∃ r ∈ input.requests, b.events = r.stream.all) ∧ b.calls ≠ [] ∧
      Listed json b.events b.calls := by
  unfold handed at h
  split at h
  · cases h
  split at h
  · cases h
  rename_i s₁ calls thinking hhead
  split at h
  · cases h
  cases h
  unfold head at hhead
  dsimp only at hhead
  split at hhead
  · cases hhead
  split at hhead
  · cases hhead
  split at hhead
  · cases hhead
  · cases hhead
  · rename_i output hres
    obtain ⟨s₂, hanswer⟩ := spend_batch hhead
    obtain ⟨hcalls, hne⟩ := answer_batch hanswer
    obtain ⟨r, hr, candidate, hlast, hresponse⟩ := answered_of_result output hres
    have hevents : answering json e s input = r.stream.all := by
      unfold answering
      rw [hlast]
      rfl
    refine ⟨⟨r, hr, hevents⟩, hne, ?_⟩
    show Listed json (answering json e s input) calls
    rw [hevents]
    exact (assembled_spec json r.stream.all).2.1 calls (hresponse ▸ hcalls)

end Handed

/-! ## Distinct ids -/

/-- A provider does not use an id on the wire again in another round. -/
def WireDistinct (rounds : List (RoundInput Value)) : Prop :=
  rounds.Pairwise fun a b => ∀ r ∈ a.requests, ∀ r' ∈ b.requests, ∀ domain id,
    ExecutionIdentity.wire domain id ∈ starts r.stream.all →
      ExecutionIdentity.wire domain id ∉ starts r'.stream.all

/-- Two batches at most one of which is positional. -/
def Apart (b b' : Batch Value) : Prop :=
  ¬ (positional b.events = true ∧ positional b'.events = true)

/-- Members that satisfy `p` do not come in pairs. -/
theorem pairwise_not_both_iff {α : Type} {p : α → Bool} {l : List α} :
    l.Pairwise (fun a b => ¬ (p a = true ∧ p b = true)) ↔ l.countP p ≤ 1 := by
  induction l with
  | nil => simp
  | cons a l ih =>
    rw [List.pairwise_cons, ih, List.countP_cons]
    by_cases ha : p a = true
    · have hzero : (∀ b ∈ l, ¬ (p a = true ∧ p b = true)) ↔ l.countP p = 0 := by
        simp [ha, List.countP_eq_zero]
      rw [hzero, if_pos ha]
      omega
    · have hall : ∀ b ∈ l, ¬ (p a = true ∧ p b = true) := fun _ _ h => ha h.1
      simp [ha]

section Distinct

variable {json : Serde Value} {printer : Printer Value} {e : LoopEngine Value}
  {codecs : Codecs Value} {rounds : List (RoundInput Value)} {b b' : Batch Value}

/-- A batch as a round hands it over. -/
structure Batch.Sound (json : Serde Value) (b : Batch Value) : Prop where
  nonempty : b.calls ≠ []
  listed : Listed json b.events b.calls
  adapted : Wired b.events ∨ Counted b.events

theorem Batch.Sound.starts_ne_nil (h : b.Sound json) : starts b.events ≠ [] := by
  intro hnil
  have hids := h.listed.ids
  rw [hnil, List.map_nil, List.map_eq_nil_iff] at hids
  exact h.nonempty hids

theorem Batch.Sound.positional_iff (h : b.Sound json) :
    positional b.events = true ↔ .position .ollama 0 ∈ starts b.events := by
  constructor
  · intro hp
    obtain ⟨execId, hm, hsource⟩ := List.any_eq_true.mp hp
    rcases h.adapted with hw | hc
    · obtain ⟨domain, id, rfl⟩ := hw execId (starts_eq b.events ▸ hm)
      cases hsource
    · obtain ⟨first, rest, hl⟩ := List.exists_cons_of_ne_nil h.starts_ne_nil
      have hfirst : first = .position .ollama 0 :=
        hc.first first (by rw [← starts_eq, hl]; rfl)
      rw [hl, hfirst]
      exact List.mem_cons_self
  · exact fun hm => List.any_eq_true.mpr ⟨_, hm, rfl⟩

/-- The ids of two batches are apart exactly if not both count their calls. -/
theorem disjoint_iff_apart (h : b.Sound json) (h' : b'.Sound json)
    (hwire : ∀ domain id, ExecutionIdentity.wire domain id ∈ starts b.events →
      ExecutionIdentity.wire domain id ∉ starts b'.events) :
    List.Disjoint (b.calls.map (·.id)) (b'.calls.map (·.id)) ↔ Apart b b' := by
  rw [h.listed.ids, h'.listed.ids]
  constructor
  · rintro hd ⟨hp, hp'⟩
    exact hd (List.mem_map_of_mem (h.positional_iff.mp hp))
      (List.mem_map_of_mem (h'.positional_iff.mp hp'))
  · intro hapart id hm hm'
    obtain ⟨execId, he, rfl⟩ := List.mem_map.mp hm
    obtain ⟨execId', he', hid⟩ := List.mem_map.mp hm'
    rw [ExecutionIdentity.encode_injective hid] at he'
    obtain ⟨domain, source⟩ := execId
    cases source with
    | wireId id => exact hwire domain id he he'
    | position n => exact hapart ⟨List.any_eq_true.mpr ⟨_, he, rfl⟩, List.any_eq_true.mpr ⟨_, he', rfl⟩⟩

/-- **Distinct ids.** The tool calls of a turn have ids of their own exactly if the turn hands over
at most one batch whose calls are known by their position: the positions start again with every
response. -/
theorem nodup_ids_iff (json : Serde Value) (printer : Printer Value) (e : LoopEngine Value)
    (input : TurnInput) (history session : List (Message Value)) (codecs : Codecs Value)
    (hstreamed : ∀ round ∈ rounds, ∀ r ∈ round.requests, Streamed codecs r.stream.all)
    (hwire : WireDistinct rounds) :
    ((executed json printer e input history session rounds).map (·.id)).Nodup ↔
      (batches json printer e input history session rounds).countP
        (fun b => positional b.events) ≤ 1 := by
  have hsound : ∀ b ∈ batches json printer e input history session rounds, b.Sound json := by
    refine outputs_forall (fun s round hround b hb => ?_) _
    obtain ⟨⟨r, hr, hevents⟩, hne, hlisted⟩ := handed_spec hb
    exact ⟨hne, hlisted, hevents ▸ (hstreamed round hround r hr).wired_or_counted⟩
  have hdistinct : (batches json printer e input history session rounds).Pairwise fun b b' =>
      ∀ domain id, ExecutionIdentity.wire domain id ∈ starts b.events →
        ExecutionIdentity.wire domain id ∉ starts b'.events := by
    refine outputs_pairwise hwire (fun round round' hrounds s b s' b' hb hb' => ?_) _
    obtain ⟨⟨r, hr, hevents⟩, -⟩ := handed_spec hb
    obtain ⟨⟨r', hr', hevents'⟩, -⟩ := handed_spec hb'
    rw [hevents, hevents']
    exact hrounds r hr r' hr'
  rw [← pairwise_not_both_iff, executed, List.map_flatMap, List.nodup_flatMap]
  constructor
  · rintro ⟨-, hd⟩
    exact (hd.and hdistinct).imp_of_mem fun hb hb' h =>
      (disjoint_iff_apart (hsound _ hb) (hsound _ hb') h.2).mp h.1
  · intro hapart
    refine ⟨fun b hb => (hsound b hb).listed.nodup_ids, ?_⟩
    exact (List.Pairwise.and hapart hdistinct).imp_of_mem fun hb hb' h =>
      (disjoint_iff_apart (hsound _ hb) (hsound _ hb') h.2).mpr h.1

end Distinct

end AgentDaemon.Engine
