import AgentDaemon.Storage.Archive

/-!
Where the children of a store come from. The child, the parent and the spawn key of a delegation
row never change and no row goes away, so that a spawn key belongs to one child for good.
-/

namespace AgentDaemon.Storage

open Provider Transition Fallible

/-- The columns of a delegation that are set once. -/
structure Origin where
  child : RunId
  parent : RunId
  spawnKey : String
  deriving DecidableEq, Repr

def Delegation.origin (d : Delegation) : Origin := ⟨d.childRunId, d.parentRunId, d.spawnKey⟩

def Terms.origin (t : Terms) : Origin := ⟨t.childRunId, t.parentRunId, t.spawnKey⟩

def DelegationRequest.origin (request : DelegationRequest) (child : RunId) : Origin :=
  ⟨child, request.parentRunId, request.spawnKey⟩

namespace RunStore

def origins (s : RunStore) : List Origin := s.delegations.rows.map Delegation.origin

/-- The child that a parent has under a spawn key. -/
def childOf (s : RunStore) (parent : RunId) (spawnKey : String) : Option RunId :=
  (s.origins.find? fun o => o.parent = parent ∧ o.spawnKey = spawnKey).map Origin.child

section Frame

variable {s s' : RunStore}

theorem origins_eq (s : RunStore) : s.origins = s.archive.terms.map Terms.origin := by
  rw [origins, archive, List.map_map]
  rfl

theorem childOf_eq (s : RunStore) (parent : RunId) (spawnKey : String) :
    s.childOf parent spawnKey = (s.delegations.rows.find? fun d =>
      d.parentRunId = parent ∧ d.spawnKey = spawnKey).map Delegation.childRunId := by
  rw [childOf, origins, List.find?_map, Option.map_map]
  rfl

/-- An admission finds the child of its spawn key, or makes one. -/
theorem admitDelegation_child {request : DelegationRequest} {clock : Clock}
    {rec : DelegationRecord} (h : s.admitDelegation request clock = .ok (rec, s')) :
    (s' = s ∧ s.childOf request.parentRunId request.spawnKey = some rec.childRunId) ∨
      (s.childOf request.parentRunId request.spawnKey = none ∧
        s'.origins = s.origins ++ [request.origin rec.childRunId]) := by
  rw [childOf_eq]
  rcases admitDelegation_cases h with ⟨rfl, d, hd, hid⟩ | ⟨parent, hspawns, h⟩
  · exact .inl ⟨rfl, by rw [hd, Option.map_some, hid]⟩
  · refine .inr ⟨by rw [hspawns.fresh]; rfl, ?_⟩
    rw [origins_eq, origins_eq, (enqueueChild_archive h).2, Archive.file, List.map_append]
    rfl

/-- What an operation does to the origins, with the reply it gives. -/
theorem exec_origins {op : Op} {reply : Reply} (h : s.exec op = .ok (reply, s')) :
    s'.origins = s.origins ∨ ∃ request clock rec, op = .admitDelegation request clock ∧
      reply = .delegation rec ∧ s.childOf request.parentRunId request.spawnKey = none ∧
      s'.origins = s.origins ++ [request.origin rec.childRunId] := by
  obtain ⟨e, hf, he⟩ := exec_archive h
  rcases terms_file s.archive e with hsame | ⟨head, terms, rfl⟩
  · left
    rw [origins_eq, origins_eq, he, hsame]
  · obtain ⟨request, clock, -, -, rfl, -⟩ := files_child hf
    obtain ⟨rec, rfl, hx⟩ := of_exec h
    rcases admitDelegation_child hx with ⟨rfl, -⟩ | ⟨hnone, ho⟩
    · exact .inl rfl
    · exact .inr ⟨request, clock, rec, rfl, rfl, hnone, ho⟩

theorem next_origins (s : RunStore) (op : Op) : s.origins <+: (s.next op).origins := by
  unfold next
  split
  · rename_i h
    rcases exec_origins h with e | ⟨request, clock, rec, -, -, -, e⟩
    · exact e ▸ List.prefix_refl _
    · exact e ▸ List.prefix_append _ _
  · exact List.prefix_refl _

/-- The rows of a store stay, and new ones come behind them. -/
theorem after_origins (s : RunStore) (ops : List Op) :
    s.origins <+: (after next s ops).origins :=
  after_induct (G := fun _ _ => True) (I := fun s' : RunStore => s.origins <+: s'.origins)
    (fun s' op hs' _ => hs'.trans (next_origins s' op)) (List.prefix_refl _) (along_true _ _)

theorem childOf_of_prefix (h : s.origins <+: s'.origins) {parent child : RunId}
    {spawnKey : String} (hc : s.childOf parent spawnKey = some child) :
    s'.childOf parent spawnKey = some child := by
  obtain ⟨rest, e⟩ := h
  obtain ⟨o, ho, rfl⟩ := Option.map_eq_some_iff.mp hc
  rw [childOf, ← e, List.find?_append, ho]
  rfl

/-- An admission that is answered leaves its child under its spawn key. -/
theorem childOf_of_admission {request : DelegationRequest} {clock : Clock} {reply : Reply}
    (h : s.exec (.admitDelegation request clock) = .ok (reply, s')) :
    ∃ rec, reply = .delegation rec ∧
      s'.childOf request.parentRunId request.spawnKey = some rec.childRunId := by
  obtain ⟨rec, rfl, hx⟩ := of_exec h
  refine ⟨rec, rfl, ?_⟩
  rcases admitDelegation_child hx with ⟨rfl, hsome⟩ | ⟨hnone, ho⟩
  · exact hsome
  · have hn : s.origins.find? (fun o => o.parent = request.parentRunId ∧
        o.spawnKey = request.spawnKey) = none := Option.map_eq_none_iff.mp hnone
    rw [childOf, ho, List.find?_append, hn]
    simp [DelegationRequest.origin]

/-- A child belongs to one spawn key. -/
theorem key_of_childOf {parent child : RunId} {a b : String}
    (ha : s.childOf parent a = some child) (hb : s.childOf parent b = some child) : a = b := by
  rw [childOf_eq] at ha hb
  obtain ⟨d, hd, rfl⟩ := Option.map_eq_some_iff.mp ha
  obtain ⟨d', hd', hid⟩ := Option.map_eq_some_iff.mp hb
  have e : d' = d := s.delegations.eq_of_key_eq (List.mem_of_find?_eq_some hd')
    (List.mem_of_find?_eq_some hd) hid
  have hka := List.find?_some hd
  have hkb := List.find?_some hd'
  simp only [decide_eq_true_eq] at hka hkb
  rw [← hka.2, ← hkb.2, e]

/-- **A spawn key is a child.** Whatever else is asked of the store in between, a later spawn of
the same parent finds the child of an earlier one exactly if it comes with the same spawn key. -/
theorem childOf_after_iff {request : DelegationRequest} {clock : Clock} {rec : DelegationRecord}
    (h : s.exec (.admitDelegation request clock) = .ok (.delegation rec, s')) (ops : List Op)
    (spawnKey : String) :
    (after next s' ops).childOf request.parentRunId spawnKey = some rec.childRunId ↔
      spawnKey = request.spawnKey := by
  obtain ⟨rec', hrec, hc⟩ := childOf_of_admission h
  cases hrec
  have hlater := childOf_of_prefix (after_origins s' ops) hc
  constructor
  · exact fun h => key_of_childOf h hlater
  · rintro rfl
    exact hlater

end Frame

end RunStore

end AgentDaemon.Storage
