import AgentDaemon.Storage.Journal

/-!
Reading the event log. A page of `events_after` holds the oldest events above a cursor in
order, and misses an event only when it is full and the event comes after all of it. The
counter of a run never decreases, so an appended event comes after every event read before.
-/

namespace AgentDaemon.Storage

open Fallible

/-- Sequence number `n` of the run is in use, or below one that is. -/
def Journal.Below (j : Journal) (id : RunId) (n : Nat) : Prop := ∃ m, (id, m) ∈ j.runs ∧ n ≤ m

namespace Journal

variable {q : StoredEvent → Prop} {j k : Journal} {id : RunId} {n : Nat}

theorem Sound.last_unique (hj : j.Sound) {m m' : Nat} (h : (id, m) ∈ j.runs)
    (h' : (id, m') ∈ j.runs) : m = m' :=
  congrArg Prod.snd (List.inj_on_of_nodup_map hj.nodup h h' rfl)

theorem Sound.below_event (hj : j.Sound) {e : StoredEvent} (he : e ∈ j.events) :
    j.Below e.runId e.seq :=
  ((hj.gapless e.runId e.seq).mp (List.mem_map_of_mem he)).2

theorem Below.le (h : j.Below id n) (hj : j.Sound) {m : Nat} (hm : (id, m) ∈ j.runs) : n ≤ m := by
  obtain ⟨m', hm', hn⟩ := h
  rw [hj.last_unique hm hm']
  exact hn

theorem Below.enroll (h : j.Below id n) (k : RunId) (key : ActiveKey) :
    (j.enroll k key).Below id n := by
  obtain ⟨m, hm, hn⟩ := h
  exact ⟨m, List.mem_append_left _ hm, hn⟩

theorem Below.log (h : j.Below id n) (hj : j.Sound) {i : RunId} {m : Nat} (hm : (i, m) ∈ j.runs)
    (event : String) (data : Json) : (j.log i m event data).Below id n := by
  obtain ⟨m', hm', hn⟩ := h
  by_cases hid : id = i
  · subst hid
    have := hj.last_unique hm hm'
    refine ⟨m + 1, List.mem_map.mpr ⟨_, hm, if_pos rfl⟩, by omega⟩
  · exact ⟨m', List.mem_map.mpr ⟨_, hm', if_neg hid⟩, hn⟩

theorem Below.grows (h : j.Below id n) (hj : j.Sound) (hg : Grows q j k) : k.Below id n := by
  induction hg with
  | refl => exact h
  | openSession _ _ ih => exact ih
  | enroll _ _ _ _ ih => exact ih.enroll _ _
  | spawn _ _ _ ih => exact Below.enroll (j := Journal.openSession _ _) ih _ _
  | log hg hm _ ih => exact ih.log (hj.grows hg) hm _ _
  | settle _ _ ih => exact ih

/-- Events that growth cannot append are the same as before. -/
theorem Grows.filter_events (hg : Grows q j k) {p : StoredEvent → Bool}
    (hp : ∀ e, q e → p e = false) : k.events.filter p = j.events.filter p := by
  induction hg with
  | refl => rfl
  | openSession _ _ ih => exact ih
  | enroll _ _ _ _ ih => exact ih
  | spawn _ _ _ ih => exact ih
  | log _ _ hq ih =>
    rw [Journal.log, List.filter_append, ih]
    simp [hp _ hq]
  | settle _ _ ih => exact ih

end Journal

namespace RunStore

variable {s s' : RunStore} {id : RunId} {e : StoredEvent}

theorem appendEvent_journal {event : String} {data : Json} {n : Nat}
    (h : s.appendEvent id event data = .ok (n, s')) :
    ∃ m, n = m + 1 ∧ (id, m) ∈ s.journal.runs ∧
      s'.journal.runs = (s.journal.log id m event data).runs ∧
      s'.journal.events = s.journal.events ++ [⟨id, n, event, data⟩] := by
  obtain ⟨s₁, hev, hcases⟩ := appendEvent_cases h
  obtain ⟨m, rfl, hm, e⟩ := insertEvent_journal hev
  have hdone : s₁.journal.runs = (s.journal.log id m event data).runs ∧
      s₁.journal.events = s.journal.events ++ [⟨id, m + 1, event, data⟩] := by
    rw [e]
    exact ⟨rfl, rfl⟩
  rcases hcases with ⟨-, rfl⟩ | ⟨i, prompt, payload, interactions, -, -, -, rfl⟩
  · exact ⟨m, rfl, hm, hdone⟩
  · refine ⟨m, rfl, hm, ?_⟩
    rw [journal_setRun]
    exact hdone

/-! ## Pages -/

variable {after limit : Nat}

/-- The events above a cursor, in order. -/
def eventsAbove (s : RunStore) (id : RunId) (after : Nat) : List StoredEvent :=
  (s.events.rows.filter fun e => e.runId = id && e.seq > after).mergeSort fun a b => a.seq ≤ b.seq

theorem mem_eventsAbove :
    e ∈ s.eventsAbove id after ↔ e ∈ s.events.rows ∧ e.runId = id ∧ after < e.seq := by
  rw [eventsAbove, List.mem_mergeSort, List.mem_filter]
  simp

theorem eventsAbove_sorted (s : RunStore) (id : RunId) (after : Nat) :
    (s.eventsAbove id after).Pairwise (·.seq < ·.seq) := by
  have hle : (s.eventsAbove id after).Pairwise (fun a b => decide (a.seq ≤ b.seq) = true) := by
    refine List.pairwise_mergeSort ?_ ?_ _
    · intro a b c hab hbc
      simp only [decide_eq_true_eq] at hab hbc ⊢
      omega
    · intro a b
      simp only [Bool.or_eq_true, decide_eq_true_eq]
      omega
  have hnd : (s.eventsAbove id after).Pairwise (fun a b => a.key ≠ b.key) := by
    rw [← List.pairwise_map (f := StoredEvent.key) (R := (· ≠ ·))]
    refine (List.Perm.nodup_iff ((List.mergeSort_perm _ _).map _)).mpr ?_
    exact s.events.nodup.sublist (List.Sublist.map _ List.filter_sublist)
  refine (hle.and hnd).imp_of_mem ?_
  rintro a b ha hb ⟨hle, hne⟩
  have hid : a.runId = b.runId :=
    (mem_eventsAbove.mp ha).2.1.trans (mem_eventsAbove.mp hb).2.1.symm
  have hseq : a.seq ≠ b.seq := fun h => hne (Prod.ext hid h)
  simp only [decide_eq_true_eq] at hle
  omega

theorem eventsAfter_eq (s : RunStore) (id : RunId) (after limit : Nat) :
    s.eventsAfter id after limit = (s.eventsAbove id after).take (min limit 1000) := rfl

theorem mem_of_mem_eventsAfter (h : e ∈ s.eventsAfter id after limit) :
    e ∈ s.events.rows ∧ e.runId = id ∧ after < e.seq :=
  mem_eventsAbove.mp (List.mem_of_mem_take (eventsAfter_eq s id after limit ▸ h))

theorem eventsAfter_sorted (s : RunStore) (id : RunId) (after limit : Nat) :
    (s.eventsAfter id after limit).Pairwise (·.seq < ·.seq) :=
  (eventsAbove_sorted s id after).sublist (List.take_sublist _ _)

/-- An event is missing only from a full page, and then comes after all of it. -/
theorem eventsAfter_complete (limit : Nat) (he : e ∈ s.events.rows) (hid : e.runId = id)
    (ha : after < e.seq) :
    e ∈ s.eventsAfter id after limit ∨
      (s.eventsAfter id after limit).length = min limit 1000 ∧
      ∀ x ∈ s.eventsAfter id after limit, x.seq < e.seq := by
  have hmem := mem_eventsAbove.mpr ⟨he, hid, ha⟩
  have hsorted := eventsAbove_sorted s id after
  rw [← List.take_append_drop (min limit 1000) (s.eventsAbove id after)] at hmem hsorted
  rcases List.mem_append.mp hmem with h | h
  · exact .inl h
  · refine .inr ⟨?_, fun x hx => (List.pairwise_append.mp hsorted).2.2 x hx e h⟩
    have hlen : min limit 1000 < (s.eventsAbove id after).length := by
      by_contra hle
      rw [List.drop_eq_nil_of_le (by omega)] at h
      exact List.not_mem_nil h
    rw [eventsAfter_eq, List.length_take]
    omega

/-! ## Reading to the end -/

/-- Two lists in strict order of their numbers are equal if they hold the same events. -/
private theorem eq_of_sorted {l m : List StoredEvent} (hl : l.Pairwise (·.seq < ·.seq))
    (hm : m.Pairwise (·.seq < ·.seq)) (h : ∀ e, e ∈ l ↔ e ∈ m) : l = m := by
  have hne : ∀ {a b : StoredEvent}, a.seq < b.seq → a ≠ b := by
    rintro a b hlt rfl
    omega
  have hperm : l.Perm m := (List.perm_ext_iff_of_nodup (hl.imp hne) (hm.imp hne)).mpr h
  refine hperm.eq_of_pairwise (fun a b _ _ hab hba => ?_) hl hm
  omega

/-- The events behind a page are the ones above its last number. -/
theorem eventsAbove_last {last : StoredEvent}
    (h : (s.eventsAfter id after limit).getLast? = some last) :
    s.eventsAbove id last.seq = (s.eventsAbove id after).drop (min limit 1000) := by
  have hsorted := eventsAbove_sorted s id after
  rw [eventsAfter_eq] at h
  have hmem := List.mem_of_getLast? h
  have hlast := mem_eventsAbove.mp (List.mem_of_mem_take hmem)
  have hsplit := hsorted
  rw [← List.take_append_drop (min limit 1000) (s.eventsAbove id after)] at hsplit
  obtain ⟨htake, hdrop, hcross⟩ := List.pairwise_append.mp hsplit
  -- Within the page no number exceeds the last one.
  have htop : ∀ e ∈ (s.eventsAbove id after).take (min limit 1000), e.seq ≤ last.seq := by
    obtain ⟨front, hfront⟩ := List.getLast?_eq_some_iff.mp h
    rw [hfront] at htake ⊢
    intro e he
    rcases List.mem_append.mp he with he | he
    · exact Nat.le_of_lt ((List.pairwise_append.mp htake).2.2 e he last List.mem_cons_self)
    · exact Nat.le_of_eq (congrArg StoredEvent.seq (List.mem_singleton.mp he))
  refine eq_of_sorted (eventsAbove_sorted s id last.seq) hdrop fun e => ?_
  constructor
  · intro he
    obtain ⟨hrow, hid, hlt⟩ := mem_eventsAbove.mp he
    have hall : e ∈ s.eventsAbove id after := mem_eventsAbove.mpr ⟨hrow, hid, by omega⟩
    rw [← List.take_append_drop (min limit 1000) (s.eventsAbove id after)] at hall
    rcases List.mem_append.mp hall with hin | hin
    · have := htop e hin
      omega
    · exact hin
  · intro he
    obtain ⟨hrow, hid, -⟩ := mem_eventsAbove.mp (List.mem_of_mem_drop he)
    exact mem_eventsAbove.mpr ⟨hrow, hid, hcross last hmem e he⟩

/-- Page through the log of a run until a page is empty, each page from the last number of the
one before. `fuel` bounds the number of pages. -/
def readToEnd (s : RunStore) (id : RunId) (limit : Nat) : Nat → Nat → Option (List StoredEvent)
  | 0, _ => none
  | fuel + 1, after =>
    match (s.eventsAfter id after limit).getLast? with
    | none => some []
    | some last =>
      (s.readToEnd id limit fuel last.seq).map (s.eventsAfter id after limit ++ ·)

/-- Pages of at least one event, one behind the other, are the whole log above the cursor. -/
theorem readToEnd_eq (hlimit : 1 ≤ limit) {fuel : Nat}
    (hfuel : (s.eventsAbove id after).length < fuel) :
    s.readToEnd id limit fuel after = some (s.eventsAbove id after) := by
  induction fuel generalizing after with
  | zero => omega
  | succ fuel ih =>
    rw [readToEnd]
    cases hlast : (s.eventsAfter id after limit).getLast? with
    | none =>
      have hnil : (s.eventsAbove id after).take (min limit 1000) = [] :=
        List.getLast?_eq_none_iff.mp hlast
      rcases List.take_eq_nil_iff.mp hnil with h | h
      · omega
      · rw [h]
    | some last =>
      have hrest := eventsAbove_last hlast
      have hlen : (s.eventsAbove id last.seq).length < fuel := by
        have hpos : 0 < (s.eventsAbove id after).length := by
          have hm := List.mem_of_mem_take (eventsAfter_eq s id after limit ▸ List.mem_of_getLast? hlast)
          exact List.length_pos_of_mem hm
        rw [hrest, List.length_drop]
        omega
      simp only [ih hlen, Option.map_some, Option.some.injEq]
      rw [hrest, eventsAfter_eq, List.take_append_drop]

end RunStore

/-- The events of a run are numbered `1, …, last_seq`, each number once. -/
theorem Journal.Sound.numbers {s : RunStore} (hs : s.journal.Sound) {id : RunId} {r : Run}
    (hr : s.runs.find? id = some r) :
    ((s.events.rows.filter fun e => e.runId = id).map StoredEvent.seq).Perm
      (List.range' 1 r.lastSeq) := by
  have hnd : ((s.events.rows.filter fun e => e.runId = id).map StoredEvent.seq).Nodup := by
    refine (List.nodup_map_iff_inj_on ((List.Nodup.of_map _ s.events.nodup).filter _)).mpr ?_
    intro a ha b hb hseq
    have hid : a.runId = b.runId := by
      rw [List.mem_filter] at ha hb
      simp only [decide_eq_true_eq] at ha hb
      exact ha.2.trans hb.2.symm
    exact s.events.eq_of_key_eq (List.mem_of_mem_filter ha) (List.mem_of_mem_filter hb)
      (Prod.ext hid hseq)
  refine (List.perm_ext_iff_of_nodup hnd List.nodup_range').mpr fun n => ?_
  have hgap := hs.gapless id n
  have hrun := RunStore.mem_journal hr
  constructor
  · intro hn
    obtain ⟨e, he, rfl⟩ := List.mem_map.mp hn
    rw [List.mem_filter] at he
    simp only [decide_eq_true_eq] at he
    obtain ⟨h1, m, hm, hle⟩ := hgap.mp (List.mem_map.mpr ⟨e, he.1, Prod.ext he.2 rfl⟩)
    have := hs.last_unique hm hrun
    rw [List.mem_range'_1]
    omega
  · intro hn
    rw [List.mem_range'_1] at hn
    obtain ⟨e, he, hkey⟩ := List.mem_map.mp (hgap.mpr ⟨by omega, r.lastSeq, hrun, by omega⟩)
    obtain ⟨hid, hseq⟩ := Prod.mk.inj hkey
    exact List.mem_map.mpr ⟨e, List.mem_filter.mpr ⟨he, by simpa using hid⟩, hseq⟩

/-- Admit a run and start it. -/
def startedRun : List Op :=
  [.admitWithRoute ⟨"s"⟩ (.number 1) "hi" .queue none 0, .tryStartQueued (runIdOf 1) fun _ => 0]

end AgentDaemon.Storage
