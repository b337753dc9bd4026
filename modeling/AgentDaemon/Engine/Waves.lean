import AgentDaemon.Engine.Turn

/-!
`execute_in_waves` while its calls run. Read-only calls that follow each other are pulled into a
buffer of eight, finish there in any order and leave it in theirs; every other call runs alone.
`scheduled_after` says which calls may run at the same time, and `outcome_eq` that what is
returned is what the calls give one after the other.
-/

namespace AgentDaemon.Engine

open Provider Storage Transition

variable {Value : Type}

/-! ## The waves -/

/-- The future of one call. -/
inductive CallState (Value : Type) where
  | waiting
  | running
  | finished (result : Except RuntimeError (ToolExecution Value))

namespace CallState

def isRunning : CallState Value → Bool
  | running => true
  | _ => false

def result? : CallState Value → Option (Except RuntimeError (ToolExecution Value))
  | finished result => some result
  | _ => none

end CallState

/-- A stretch of read-only calls up to `stop`, those before `pulled` in the buffer or through it,
those before `yielded` through it; or one call that is not read-only. -/
inductive Wave where
  | stretch (stop pulled yielded : Nat)
  | exclusive

/-- `wave` is the wave that begins at the cursor, if the loop is in one. -/
structure BatchState (Value : Type) where
  status : List (CallState Value)
  results : List (ToolExecution Value) := []
  cursor : Nat := 0
  wave : Option Wave := none
  outcome : Option (Except RuntimeError (List (ToolExecution Value))) := none

inductive WaveEvent (Value : Type) where
  /-- The head of the loop. -/
  | scan
  /-- The buffer takes the next call. -/
  | pull
  | finish (i : Nat) (result : Except RuntimeError (ToolExecution Value))
  /-- The buffer gives out the result of its first call. -/
  | yield
  /-- The end of the loop. -/
  | collect

/-- The limit of `buffered`. -/
def bufferLimit : Nat := 8

section Next

variable (tools : ToolRegistry Value) (calls : List (ToolCall Value))

def isReadOnlyAt (i : Nat) : Bool := calls[i]?.any fun call => tools.isReadOnly call.name

/-- The first call after `start` that is not read-only. -/
def stretchEnd (start : Nat) : Nat :=
  start + ((calls.drop start).takeWhile fun call => tools.isReadOnly call.name).length

namespace BatchState

variable (s : BatchState Value)

def conclude (outcome : Except RuntimeError (List (ToolExecution Value))) : BatchState Value :=
  { s with outcome := some outcome }

def start (i : Nat) : BatchState Value := { s with status := s.status.set i .running }

def scan : BatchState Value :=
  match s.wave with
  | some _ => s
  | none =>
    if s.cursor < calls.length then
      if isReadOnlyAt tools calls s.cursor then
        { s with wave := some (.stretch (stretchEnd tools calls s.cursor) s.cursor s.cursor) }
      else { s.start s.cursor with wave := some .exclusive }
    else s.conclude (.ok s.results)

def pull : BatchState Value :=
  match s.wave with
  | some (.stretch stop pulled yielded) =>
    if pulled < stop ∧ pulled - yielded < bufferLimit then
      { s.start pulled with wave := some (.stretch stop (pulled + 1) yielded) }
    else s
  | _ => s

def finish (i : Nat) (result : Except RuntimeError (ToolExecution Value)) : BatchState Value :=
  match s.status[i]? with
  | some .running => { s with status := s.status.set i (.finished result) }
  | _ => s

def yield : BatchState Value :=
  match s.wave with
  | some (.stretch stop pulled yielded) =>
    match s.status[yielded]? with
    | some (.finished _) => { s with wave := some (.stretch stop pulled (yielded + 1)) }
    | _ => s
  | _ => s

/-- The results of the wave, the first error of them before all others. -/
def collect : BatchState Value :=
  match s.wave with
  | some (.stretch stop _ yielded) =>
    if yielded = stop then
      match (((s.status.drop s.cursor).take (stop - s.cursor)).filterMap CallState.result?).mapM id with
      | .error error => s.conclude (.error error)
      | .ok batch => { s with results := s.results ++ batch, cursor := stop, wave := none }
    else s
  | some .exclusive =>
    match s.status[s.cursor]? with
    | some (.finished (.error error)) => s.conclude (.error error)
    | some (.finished (.ok result)) =>
      { s with results := s.results ++ [result], cursor := s.cursor + 1, wave := none }
    | _ => s
  | none => s

end BatchState

/-- One step of `execute_in_waves`. -/
def waveNext (s : BatchState Value) (event : WaveEvent Value) : BatchState Value :=
  if s.outcome.isSome then s
  else match event with
    | .scan => s.scan tools calls
    | .pull => s.pull
    | .finish i result => s.finish i result
    | .yield => s.yield
    | .collect => s.collect

def beginBatch : BatchState Value := { status := calls.map fun _ => .waiting }

end Next

/-! ## What may run at the same time -/

/-- The calls of a batch keep apart where one of them is not read-only. -/
structure Scheduled (tools : ToolRegistry Value) (calls : List (ToolCall Value))
    (s : BatchState Value) : Prop where
  /-- A call that is not read-only runs alone. -/
  alone : ∀ i j, i ≠ j → i < calls.length → isReadOnlyAt tools calls i = false →
    s.status[i]? = some .running → s.status[j]? ≠ some .running
  /-- When it has started, the calls before it have finished. -/
  before : ∀ i j, i < j → j < calls.length → isReadOnlyAt tools calls j = false →
    s.status[j]? ≠ some .waiting → ∃ result, s.status[i]? = some (.finished result)
  /-- When a call after it has started, it has finished. -/
  after : ∀ i j, i < j → j < calls.length → isReadOnlyAt tools calls i = false →
    s.status[j]? ≠ some .waiting → ∃ result, s.status[i]? = some (.finished result)
  bounded : s.status.countP CallState.isRunning ≤ 8
  /-- A result for each call, in their order. -/
  results : ∀ results, s.outcome = some (.ok results) →
    results.length = calls.length ∧
      s.status = results.map fun result => .finished (.ok result)

/-! ## The window of the calls at hand -/

section Window

variable {tools : ToolRegistry Value} {calls : List (ToolCall Value)} {s : BatchState Value}
  {status : List (CallState Value)} {lo hi : Nat}

/-- The calls before `lo` have finished, those from `hi` on wait, and those between are one call or
at most eight that are read-only. -/
structure Window (tools : ToolRegistry Value) (calls : List (ToolCall Value))
    (status : List (CallState Value)) (lo hi : Nat) : Prop where
  length : status.length = calls.length
  le : lo ≤ hi
  done : ∀ i, i < lo → ∃ result, status[i]? = some (.finished result)
  waiting : ∀ i, hi ≤ i → i < calls.length → status[i]? = some .waiting
  bound : hi ≤ lo + bufferLimit
  together : lo + 1 < hi → ∀ i, lo ≤ i → i < hi → isReadOnlyAt tools calls i = true

theorem Window.lt_of_started (h : Window tools calls status lo hi) {j : Nat} (hj : j < calls.length)
    (hs : status[j]? ≠ some .waiting) : j < hi := by
  by_contra hle
  exact hs (h.waiting j (by omega) hj)

theorem Window.le_of_running (h : Window tools calls status lo hi) {j : Nat}
    (hs : status[j]? = some .running) : lo ≤ j ∧ j < hi := by
  have hlen := (List.getElem?_eq_some_iff.mp hs).1
  have hlength := h.length
  refine ⟨?_, h.lt_of_started (by omega) (by simp [hs])⟩
  by_contra hlt
  obtain ⟨result, hdone⟩ := h.done j (by omega)
  cases hs.symm.trans hdone

/-- Where one of two calls is not read-only, the first has finished when the second starts. -/
theorem Window.finished (h : Window tools calls status lo hi) {i j : Nat} (hij : i < j)
    (hj : j < calls.length)
    (hex : isReadOnlyAt tools calls i = false ∨ isReadOnlyAt tools calls j = false)
    (hs : status[j]? ≠ some .waiting) : ∃ result, status[i]? = some (.finished result) := by
  have hjhi := h.lt_of_started hj hs
  by_cases hi : i < lo
  · exact h.done i hi
  · have hboth := h.together (by omega)
    have hri := hboth i (by omega) (by omega)
    have hrj := hboth j (by omega) (by omega)
    rw [hri, hrj] at hex
    rcases hex with hex | hex <;> cases hex

theorem countP_le_of_window {α : Type} (p : α → Bool) (l : List α) (lo hi : Nat)
    (h : ∀ i a, l[i]? = some a → p a = true → lo ≤ i ∧ i < hi) : l.countP p ≤ hi - lo := by
  induction l generalizing lo hi with
  | nil => exact Nat.zero_le _
  | cons a l ih =>
    have hrest := ih (lo - 1) (hi - 1) fun i b hb hp => by
      have := h (i + 1) b (by simpa using hb) hp
      omega
    rw [List.countP_cons]
    split
    · rename_i hp
      have := h 0 a rfl hp
      omega
    · omega

theorem Window.bounded (h : Window tools calls status lo hi) :
    status.countP CallState.isRunning ≤ bufferLimit := by
  have hcount := countP_le_of_window CallState.isRunning status lo hi fun i c hc hr => by
    cases c with
    | running => exact h.le_of_running hc
    | _ => cases hr
  have hbound := h.bound
  omega

theorem Window.alone (h : Window tools calls status lo hi) {i j : Nat} (hne : i ≠ j)
    (hex : isReadOnlyAt tools calls i = false) (hi : status[i]? = some .running) :
    status[j]? ≠ some .running := by
  intro hj
  have hwi := h.le_of_running hi
  have hwj := h.le_of_running hj
  have hri := h.together (by omega) i hwi.1 hwi.2
  rw [hri] at hex
  cases hex

/-! ## What the steps keep -/

/-- The calls of the wave that have left the buffer, and those that have entered it. -/
def BatchState.windowStart (s : BatchState Value) : Nat :=
  match s.wave with
  | some (.stretch _ _ yielded) => yielded
  | _ => s.cursor

def BatchState.windowEnd (s : BatchState Value) : Nat :=
  match s.wave with
  | some (.stretch _ pulled _) => pulled
  | some .exclusive => s.cursor + 1
  | none => s.cursor

/-- A wave begins at the cursor, and a stretch consists of read-only calls. -/
def BatchState.WaveOk (tools : ToolRegistry Value) (calls : List (ToolCall Value))
    (s : BatchState Value) : Prop :=
  match s.wave with
  | some (.stretch stop pulled yielded) => s.cursor ≤ yielded ∧ pulled ≤ stop ∧
    stop ≤ calls.length ∧ ∀ i, s.cursor ≤ i → i < stop → isReadOnlyAt tools calls i = true
  | some .exclusive => s.cursor < calls.length
  | none => s.cursor ≤ calls.length

structure Batched (tools : ToolRegistry Value) (calls : List (ToolCall Value))
    (s : BatchState Value) : Prop where
  window : Window tools calls s.status s.windowStart s.windowEnd
  wave : s.WaveOk tools calls
  results : s.status.take s.cursor = s.results.map fun result => .finished (.ok result)
  outcome : ∀ results, s.outcome = some (.ok results) →
    s.cursor = calls.length ∧ s.results = results

theorem Batched.cursor_le (h : Batched tools calls s) : s.cursor ≤ s.windowStart := by
  have hwave := h.wave
  unfold BatchState.WaveOk at hwave
  unfold BatchState.windowStart
  split
  · rename_i hw
    simp only [hw] at hwave
    exact hwave.1
  · exact Nat.le_refl _

theorem batched_begin : Batched tools calls (beginBatch calls) := by
  refine ⟨⟨?_, ?_, ?_, ?_, ?_, ?_⟩, ?_, ?_, ?_⟩
  · simp [beginBatch]
  · exact Nat.le_refl _
  · intro i hi
    cases hi
  · intro i _ hi
    simp [beginBatch, hi]
  · exact Nat.zero_le _
  · intro hlt
    cases hlt
  · exact Nat.zero_le _
  · rfl
  · intro results h
    cases h

theorem Batched.scheduled (h : Batched tools calls s) : Scheduled tools calls s where
  alone _ _ hne _ hex hi := h.window.alone hne hex hi
  before _ _ hij hj hex hs := h.window.finished hij hj (.inr hex) hs
  after _ _ hij hj hex hs := h.window.finished hij hj (.inl hex) hs
  bounded := h.window.bounded
  results results hres := by
    obtain ⟨hcursor, rfl⟩ := h.outcome results hres
    have hall := h.results
    have hlen := h.window.length
    rw [List.take_of_length_le (by omega)] at hall
    refine ⟨?_, hall⟩
    have hlength := congrArg List.length hall
    rw [List.length_map] at hlength
    omega

/-- A call of the window may change as long as it does not wait again. -/
theorem Window.set (h : Window tools calls status lo hi) {i : Nat} (hlo : lo ≤ i) (hhi : i < hi)
    (c : CallState Value) : Window tools calls (status.set i c) lo hi where
  length := by rw [List.length_set, h.length]
  le := h.le
  done j hj := by
    rw [List.getElem?_set_ne (by omega)]
    exact h.done j hj
  waiting j hj hjl := by
    rw [List.getElem?_set_ne (by omega)]
    exact h.waiting j hj hjl
  bound := h.bound
  together := h.together

/-- The next call enters the window. -/
theorem Window.start (h : Window tools calls status lo hi) (hroom : hi < lo + bufferLimit)
    (htogether : lo < hi → ∀ i, lo ≤ i → i < hi + 1 → isReadOnlyAt tools calls i = true) :
    Window tools calls (status.set hi .running) lo (hi + 1) where
  length := by rw [List.length_set, h.length]
  le := Nat.le_succ_of_le h.le
  done j hj := by
    have hle := h.le
    rw [List.getElem?_set_ne (by omega)]
    exact h.done j hj
  waiting j hj hjl := by
    rw [List.getElem?_set_ne (by omega)]
    exact h.waiting j (by omega) hjl
  bound := by omega
  together hlt := htogether (by omega)

/-- The first call of the window leaves it. -/
theorem Window.leave (h : Window tools calls status lo hi) (hlt : lo < hi)
    (hdone : ∃ result, status[lo]? = some (.finished result)) :
    Window tools calls status (lo + 1) hi where
  length := h.length
  le := hlt
  done i hi := by
    by_cases heq : i = lo
    · rwa [heq]
    · exact h.done i (by omega)
  waiting := h.waiting
  bound := by
    have hbound := h.bound
    omega
  together hlong i hi := h.together (by omega) i (by omega)

theorem isReadOnlyAt_stretch {start i : Nat} (hi : start ≤ i) (hs : i < stretchEnd tools calls start) :
    isReadOnlyAt tools calls i = true := by
  have hdrop : calls[i]? = (calls.drop start)[i - start]? := by
    rw [List.getElem?_drop, Nat.add_sub_cancel' hi]
  obtain ⟨rest, hrest⟩ := List.takeWhile_prefix (l := calls.drop start)
    fun call => tools.isReadOnly call.name
  have hlt : i - start <
      ((calls.drop start).takeWhile fun call => tools.isReadOnly call.name).length := by
    unfold stretchEnd at hs
    omega
  rw [← hrest, List.getElem?_append_left hlt, List.getElem?_eq_getElem hlt] at hdrop
  have hcall := List.mem_takeWhile_imp (List.getElem_mem hlt)
  rw [isReadOnlyAt, hdrop, Option.any_some]
  exact hcall

theorem stretchEnd_le {start : Nat} (h : start ≤ calls.length) :
    stretchEnd tools calls start ≤ calls.length := by
  have hle := (List.takeWhile_prefix (l := calls.drop start)
    fun call => tools.isReadOnly call.name).length_le
  rw [List.length_drop] at hle
  unfold stretchEnd
  omega

/-! ## Step by step -/

theorem Batched.scan (h : Batched tools calls s) :
    Batched tools calls (s.scan tools calls) := by
  obtain ⟨hwindow, hwave, hresults, houtcome⟩ := h
  unfold BatchState.scan
  unfold BatchState.windowStart BatchState.windowEnd at hwindow
  unfold BatchState.WaveOk at hwave
  cases hw : s.wave with
  | some wave =>
    refine ⟨?_, ?_, hresults, houtcome⟩
    · simpa [BatchState.windowStart, BatchState.windowEnd, hw] using hwindow
    · simpa [BatchState.WaveOk, hw] using hwave
  | none =>
    simp only [hw] at hwindow hwave
    dsimp only
    split
    · rename_i hlt
      split
      · refine ⟨hwindow, ?_, hresults, houtcome⟩
        refine ⟨Nat.le_refl _, Nat.le_add_right _ _, stretchEnd_le hwave, ?_⟩
        exact fun i hi hs => isReadOnlyAt_stretch hi hs
      · refine ⟨?_, hlt, ?_, houtcome⟩
        · refine hwindow.start ?_ fun hlt => absurd hlt (Nat.lt_irrefl _)
          unfold bufferLimit
          omega
        · show (s.status.set s.cursor .running).take s.cursor = _
          rw [List.take_set_of_le (Nat.le_refl _)]
          exact hresults
    · rename_i hge
      refine ⟨?_, ?_, hresults, ?_⟩
      · simpa [BatchState.conclude, BatchState.windowStart, BatchState.windowEnd, hw] using hwindow
      · simpa [BatchState.conclude, BatchState.WaveOk, hw] using hwave
      · rintro results ⟨⟩
        exact ⟨Nat.le_antisymm hwave (Nat.not_lt.mp hge), rfl⟩

theorem Batched.pull (h : Batched tools calls s) : Batched tools calls s.pull := by
  have h' := h
  obtain ⟨hwindow, hwave, hresults, houtcome⟩ := h'
  unfold BatchState.windowStart BatchState.windowEnd at hwindow
  unfold BatchState.WaveOk at hwave
  unfold BatchState.pull
  split
  · rename_i stop pulled yielded hw
    simp only [hw] at hwindow hwave
    obtain ⟨hcursor, hpulled, hstop, hread⟩ := hwave
    have hle := hwindow.le
    split
    · rename_i hroom
      refine ⟨?_, ⟨hcursor, hroom.1, hstop, hread⟩, ?_, houtcome⟩
      · refine hwindow.start (by omega) fun _ i hi hs => ?_
        exact hread i (by omega) (by omega)
      · show (s.status.set pulled .running).take s.cursor = _
        rw [List.take_set_of_le (by omega)]
        exact hresults
    · exact h
  · exact h

theorem Batched.finish (h : Batched tools calls s) (i : Nat)
    (result : Except RuntimeError (ToolExecution Value)) : Batched tools calls (s.finish i result) := by
  unfold BatchState.finish
  split
  · rename_i hrunning
    obtain ⟨hlo, hhi⟩ := h.window.le_of_running hrunning
    refine ⟨h.window.set hlo hhi _, h.wave, ?_, h.outcome⟩
    show (s.status.set i (.finished result)).take s.cursor = _
    rw [List.take_set_of_le (Nat.le_trans h.cursor_le hlo)]
    exact h.results
  · exact h

theorem Batched.yield (h : Batched tools calls s) : Batched tools calls s.yield := by
  have h' := h
  obtain ⟨hwindow, hwave, hresults, houtcome⟩ := h'
  unfold BatchState.windowStart BatchState.windowEnd at hwindow
  unfold BatchState.WaveOk at hwave
  unfold BatchState.yield
  split
  · rename_i stop pulled yielded hw
    simp only [hw] at hwindow hwave
    obtain ⟨hcursor, hpulled, hstop, hread⟩ := hwave
    split
    · rename_i result hfinished
      have hlt : yielded < pulled := by
        have hlen := (List.getElem?_eq_some_iff.mp hfinished).1
        have hlength := hwindow.length
        exact hwindow.lt_of_started (by omega) (by simp [hfinished])
      refine ⟨hwindow.leave hlt ⟨result, hfinished⟩, ?_, hresults, houtcome⟩
      exact ⟨Nat.le_succ_of_le hcursor, hpulled, hstop, hread⟩
    · exact h
  · exact h

/-- The results of calls that have all finished well. -/
theorem finished_of_mapM {l : List (CallState Value)} {batch : List (ToolExecution Value)}
    (hdone : ∀ c ∈ l, ∃ result, c = .finished result)
    (h : (l.filterMap CallState.result?).mapM id = .ok batch) :
    l = batch.map fun result => .finished (.ok result) := by
  induction l generalizing batch with
  | nil =>
    cases h
    rfl
  | cons c l ih =>
    obtain ⟨result, rfl⟩ := hdone c List.mem_cons_self
    have hcons : (CallState.finished result :: l).filterMap CallState.result? =
        result :: l.filterMap CallState.result? := rfl
    rw [hcons, List.mapM_cons] at h
    obtain ⟨r, hr, h⟩ := Fallible.bind_eq_ok.mp h
    obtain ⟨rest, hrest, h⟩ := Fallible.bind_eq_ok.mp h
    cases h
    have hresult : result = .ok r := hr
    rw [List.map_cons, hresult, ← ih (fun c hc => hdone c (List.mem_cons_of_mem _ hc)) hrest]

theorem Batched.collect (h : Batched tools calls s) (hr : s.outcome = none) :
    Batched tools calls s.collect := by
  have h' := h
  obtain ⟨hwindow, hwave, hresults, houtcome⟩ := h'
  unfold BatchState.windowStart BatchState.windowEnd at hwindow
  unfold BatchState.WaveOk at hwave
  -- An error ends the batch where it is.
  have herror : ∀ error, Batched tools calls (s.conclude (.error error)) := by
    intro error
    refine ⟨h.window, h.wave, hresults, ?_⟩
    rintro results ⟨⟩
  unfold BatchState.collect
  split
  · rename_i stop pulled yielded hw
    simp only [hw] at hwindow hwave
    obtain ⟨hcursor, hpulled, hstop, hread⟩ := hwave
    split
    · rename_i hall
      subst hall
      split
      · exact herror _
      · rename_i batch hbatch
        have hle := hwindow.le
        have hslice : (s.status.drop s.cursor).take (yielded - s.cursor) =
            batch.map fun result => .finished (.ok result) := by
          refine finished_of_mapM (fun c hc => ?_) hbatch
          obtain ⟨k, hk, rfl⟩ := List.getElem_of_mem hc
          rw [List.length_take] at hk
          obtain ⟨result, hdone⟩ := hwindow.done (s.cursor + k) (by omega)
          refine ⟨result, ?_⟩
          rw [List.getElem_take, List.getElem_drop]
          exact Option.some.inj (by rw [← List.getElem?_eq_getElem, hdone])
        refine ⟨?_, hstop, ?_, ?_⟩
        · have hsame : pulled = yielded := Nat.le_antisymm hpulled hle
          rwa [hsame] at hwindow
        · show s.status.take yielded = _
          rw [List.map_append, ← hslice, ← hresults]
          have hsplit := List.take_add (l := s.status) (i := s.cursor) (j := yielded - s.cursor)
          rwa [Nat.add_sub_cancel' hcursor] at hsplit
        · intro results hres
          cases hr.symm.trans hres
    · exact h
  · rename_i hw
    simp only [hw] at hwindow hwave
    split
    · exact herror _
    · rename_i result hfinished
      refine ⟨hwindow.leave (Nat.lt_succ_self _) ⟨_, hfinished⟩, hwave, ?_, ?_⟩
      · show s.status.take (s.cursor + 1) = _
        rw [List.take_add_one, hfinished, hresults, List.map_append]
        rfl
      · intro results hres
        cases hr.symm.trans hres
    · exact h
  · exact h

theorem Batched.next (h : Batched tools calls s) (event : WaveEvent Value) :
    Batched tools calls (waveNext tools calls s event) := by
  unfold waveNext
  split
  · exact h
  · rename_i hgoing
    have hr : s.outcome = none := by simpa using hgoing
    cases event with
    | scan => exact h.scan
    | pull => exact h.pull
    | finish i result => exact h.finish i result
    | yield => exact h.yield
    | collect => exact h.collect hr

theorem batched_after (tools : ToolRegistry Value) (calls : List (ToolCall Value))
    (events : List (WaveEvent Value)) :
    Batched tools calls (after (waveNext tools calls) (beginBatch calls) events) :=
  after_induct (G := fun _ _ => True) (fun _ event h _ => h.next event) batched_begin
    (along_true _ events)

/-- **Waves.** However the calls of a batch run and finish, they keep apart where they must, and a
batch that succeeds has a result for each call, in their order. -/
theorem scheduled_after (tools : ToolRegistry Value) (calls : List (ToolCall Value))
    (events : List (WaveEvent Value)) :
    Scheduled tools calls (after (waveNext tools calls) (beginBatch calls) events) :=
  (batched_after tools calls events).scheduled

/-- Two read-only calls run at the same time. -/
example : (after (waveNext ⟨fun name => name = "read", fun _ _ => .ok ()⟩
      [⟨"a", "read", ()⟩, ⟨"b", "read", ()⟩, ⟨"c", "write", ()⟩])
    (beginBatch [⟨"a", "read", ()⟩, ⟨"b", "read", ()⟩, ⟨"c", "write", ()⟩])
    [.scan, .pull, .pull, .pull]).status.countP CallState.isRunning = 2 := by decide

/-! ## One after the other -/

variable {run : ToolCall Value → Except RuntimeError (ToolExecution Value)}

/-- A call that finishes gives what `run` gives for it. -/
def Replays (run : ToolCall Value → Except RuntimeError (ToolExecution Value))
    (calls : List (ToolCall Value)) : WaveEvent Value → Prop
  | .finish i result => ∀ call, calls[i]? = some call → result = run call
  | _ => True

/-- The finished calls gave what `run` gives for them, and an error of the batch is the first. -/
structure Replayed (run : ToolCall Value → Except RuntimeError (ToolExecution Value))
    (calls : List (ToolCall Value)) (s : BatchState Value) : Prop where
  finished : ∀ (i : Nat) result call, s.status[i]? = some (.finished result) →
    calls[i]? = some call → result = run call
  failed : ∀ error, s.outcome = some (.error error) → calls.mapM run = .error error

theorem mapM_eq_error_of_parts {α β ε : Type} {f : α → Except ε β} {l : List α} {ys : List β}
    {a n : Nat} {e : ε} (hfirst : (l.take a).mapM f = .ok ys)
    (hnext : ((l.drop a).take n).mapM f = .error e) : l.mapM f = .error e := by
  have hsplit : l = l.take a ++ ((l.drop a).take n ++ (l.drop a).drop n) := by
    rw [List.take_append_drop, List.take_append_drop]
  rw [hsplit, List.mapM_append, List.mapM_append, hfirst, hnext]
  rfl

theorem filterMap_finished {α : Type} (f : α → Except RuntimeError (ToolExecution Value))
    (l : List α) :
    (l.map fun a => CallState.finished (f a)).filterMap CallState.result? = l.map f := by
  induction l with
  | nil => rfl
  | cons a l ih =>
    rw [List.map_cons, List.map_cons, ← ih]
    rfl

/-- What the finished calls of a window give. -/
theorem Replayed.mapM_window (h : Replayed run calls s) (hlength : s.status.length = calls.length)
    (a n : Nat) (hdone : ∀ i, i < a + n → ∃ result, s.status[i]? = some (.finished result)) :
    (((s.status.drop a).take n).filterMap CallState.result?).mapM id =
      ((calls.drop a).take n).mapM run := by
  have hslice : (s.status.drop a).take n =
      ((calls.drop a).take n).map fun call => .finished (run call) := by
    refine List.ext_getElem ?_ fun k hk hk' => ?_
    · simp [hlength]
    · simp only [List.getElem_take, List.getElem_drop, List.getElem_map]
      simp only [List.length_take, List.length_drop] at hk
      obtain ⟨result, hfinished⟩ := hdone (a + k) (by omega)
      have hcall : calls[a + k]? = some calls[a + k] := List.getElem?_eq_getElem _
      have hresult := h.finished _ _ _ hfinished hcall
      rw [← hresult]
      exact (List.getElem?_eq_some_iff.mp hfinished).2
  rw [hslice, filterMap_finished, List.mapM_map]
  rfl

theorem Replayed.take_cursor (h : Replayed run calls s) (hb : Batched tools calls s) :
    (calls.take s.cursor).mapM run = .ok s.results := by
  have hwindow := h.mapM_window hb.window.length 0 s.cursor fun i hi =>
    hb.window.done i (by have := hb.cursor_le; omega)
  rw [List.drop_zero, List.drop_zero, hb.results, filterMap_finished, List.mapM_map] at hwindow
  rw [← hwindow]
  have hpure := List.mapM_pure (m := Except RuntimeError) (l := s.results) (f := id)
  rwa [List.map_id] at hpure

/-- Where the results of some calls after the cursor are an error, the batch gives it. -/
theorem Replayed.mapM_error (h : Replayed run calls s) (hb : Batched tools calls s) {n : Nat}
    {error : RuntimeError}
    (hdone : ∀ i, i < s.cursor + n → ∃ result, s.status[i]? = some (.finished result))
    (herror : (((s.status.drop s.cursor).take n).filterMap CallState.result?).mapM id =
      .error error) : calls.mapM run = .error error := by
  rw [h.mapM_window hb.window.length s.cursor n hdone] at herror
  exact mapM_eq_error_of_parts (h.take_cursor hb) herror

theorem Replayed.start (h : Replayed run calls s) (i : Nat) (wave : Option Wave) :
    Replayed run calls { s.start i with wave } := by
  refine ⟨fun j result call hj hcall => ?_, h.failed⟩
  change (s.status.set i .running)[j]? = _ at hj
  rw [List.getElem?_set] at hj
  split at hj
  · split at hj <;> cases hj
  · exact h.finished j result call hj hcall

theorem Replayed.next (h : Replayed run calls s) (hb : Batched tools calls s)
    {event : WaveEvent Value} (hev : Replays run calls event) :
    Replayed run calls (waveNext tools calls s event) := by
  unfold waveNext
  split
  · exact h
  · rename_i hgoing
    have hr : s.outcome = none := by simpa using hgoing
    cases event with
    | scan =>
      show Replayed run calls (s.scan tools calls)
      unfold BatchState.scan
      split
      · exact h
      · split
        · split
          · exact ⟨h.finished, h.failed⟩
          · exact h.start _ _
        · refine ⟨h.finished, ?_⟩
          rintro error ⟨⟩
    | pull =>
      show Replayed run calls s.pull
      unfold BatchState.pull
      split
      · split
        · exact h.start _ _
        · exact h
      · exact h
    | finish i result =>
      show Replayed run calls (s.finish i result)
      unfold BatchState.finish
      split
      · refine ⟨fun j result' call hj hcall => ?_, h.failed⟩
        dsimp only at hj
        rw [List.getElem?_set] at hj
        split at hj
        · rename_i hij
          subst hij
          split at hj
          · cases hj
            exact hev call hcall
          · cases hj
        · exact h.finished j result' call hj hcall
      · exact h
    | yield =>
      show Replayed run calls s.yield
      unfold BatchState.yield
      split
      · split
        · exact ⟨h.finished, h.failed⟩
        · exact h
      · exact h
    | collect =>
      show Replayed run calls s.collect
      have hwindow := hb.window
      have hwave := hb.wave
      unfold BatchState.windowStart BatchState.windowEnd at hwindow
      unfold BatchState.WaveOk at hwave
      unfold BatchState.collect
      split
      · rename_i stop pulled yielded hw
        simp only [hw] at hwindow hwave
        split
        · rename_i hall
          subst hall
          split
          · rename_i error herror
            refine ⟨h.finished, ?_⟩
            rintro _ ⟨⟩
            refine h.mapM_error hb (fun i hi => hwindow.done i ?_) herror
            omega
          · exact ⟨h.finished, h.failed⟩
        · exact h
      · rename_i hw
        simp only [hw] at hwindow
        split
        · rename_i error hfinished
          refine ⟨h.finished, ?_⟩
          rintro _ ⟨⟩
          refine h.mapM_error (n := 1) hb (fun i hi => ?_) ?_
          · by_cases hlast : i = s.cursor
            · exact ⟨_, hlast ▸ hfinished⟩
            · exact hwindow.done i (by omega)
          · rw [List.take_one, List.head?_drop, hfinished]
            rfl
        · exact ⟨h.finished, h.failed⟩
        · exact h
      · exact h

/-- **Refinement.** A batch that returns gives what its calls give one after the other, in whatever
order they finish. -/
theorem outcome_eq_executeInWaves (printer : Printer Value) (audit : Bool)
    (runs : ToolCall Value → ToolRun Value) (tools : ToolRegistry Value)
    (calls : List (ToolCall Value)) (events : List (WaveEvent Value))
    (h : ∀ event ∈ events, Replays (executeOne printer audit runs) calls event)
    {outcome : Except RuntimeError (List (ToolExecution Value))}
    (ho : (after (waveNext tools calls) (beginBatch calls) events).outcome = some outcome) :
    outcome = executeInWaves printer audit runs tools calls := by
  have hstart : Batched tools calls (beginBatch calls) ∧
      Replayed (executeOne printer audit runs) calls (beginBatch calls) := by
    refine ⟨batched_begin, fun i result call hi => ?_, by rintro error ⟨⟩⟩
    have hmem := List.mem_of_getElem? hi
    simp [beginBatch] at hmem
  obtain ⟨hb, hreplayed⟩ := after_induct (G := fun _ event =>
      Replays (executeOne printer audit runs) calls event)
    (I := fun s => Batched tools calls s ∧ Replayed (executeOne printer audit runs) calls s)
    (fun s event hs hev => ⟨hs.1.next event, hs.2.next hs.1 hev⟩) hstart
    (along_mono (along_true _ events) fun _ event he _ => h event he)
  rw [executeInWaves, executeWaves_eq _ _ (Nat.le_refl _)]
  cases outcome with
  | error error => exact (hreplayed.failed error ho).symm
  | ok results =>
    obtain ⟨hcursor, rfl⟩ := hb.outcome results ho
    have hall := hreplayed.take_cursor hb
    rw [hcursor, List.take_length] at hall
    exact hall.symm

end Window

end AgentDaemon.Engine
