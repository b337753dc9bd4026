import AgentDaemon.Storage.Archive
import AgentDaemon.Storage.Simulation

/-!
The trees of delegations. Depth, root and parent of a child are set when it is admitted and no row
goes away, so the bounds on a tree are kept by the checks of `admit_delegation` alone; that no
child becomes busy again needs the queue, because only a queued run is started
(`treeBounds_after`).
-/

namespace AgentDaemon.Storage

open Provider Transition Fallible

namespace RunStore

/-- The depth of a run in its tree, 0 for a root. -/
def depthOf (s : RunStore) (id : RunId) : Int :=
  ((s.delegations.find? id).map Delegation.depth).getD 0

/-- The root of the tree of a run. -/
def rootOf (s : RunStore) (id : RunId) : RunId :=
  ((s.delegations.find? id).map Delegation.rootRunId).getD id

/-- `child` was delegated by `parent`. -/
def Delegates (s : RunStore) (parent child : RunId) : Prop :=
  ∃ d ∈ s.delegations.rows, d.parentRunId = parent ∧ d.childRunId = child

end RunStore

/-- The bounds on the trees of delegations. -/
structure TreeBounds (s : RunStore) : Prop where
  total : ∀ root, s.delegations.count (fun d => d.rootRunId = root) ≤ maxRootSpawns
  active : ∀ root,
    s.delegations.count (fun d => d.rootRunId = root && d.status.busy) ≤ maxRootActive
  depth : ∀ d ∈ s.delegations.rows, d.depth = s.depthOf d.parentRunId + 1 ∧ d.depth ≤ maxDepth
  root : ∀ d ∈ s.delegations.rows, d.rootRunId = s.rootOf d.parentRunId
  acyclic : ∀ id, ¬ Relation.TransGen s.Delegates id id
  budget : ∀ d ∈ s.delegations.rows,
    (s.toolExecutions.count (fun t => t.runId = d.childRunId) : Int) ≤ d.maxToolCalls

/-! ## The columns that are set once -/

def depthIn (terms : List Terms) (id : RunId) : Int :=
  ((terms.find? fun t => t.childRunId = id).map Terms.depth).getD 0

def rootIn (terms : List Terms) (id : RunId) : RunId :=
  ((terms.find? fun t => t.childRunId = id).map Terms.rootRunId).getD id

/-- The bounds on the trees, as far as they can be read off the archive. -/
structure Archive.Bounded (a : Archive) : Prop where
  total : ∀ root, a.terms.countP (fun t => t.rootRunId = root) ≤ maxRootSpawns
  depth : ∀ t ∈ a.terms, t.depth = depthIn a.terms t.parentRunId + 1 ∧ t.depth ≤ maxDepth
  root : ∀ t ∈ a.terms, t.rootRunId = rootIn a.terms t.parentRunId
  budget : ∀ t ∈ a.terms, (a.calls.countP (fun k => k.1 = t.childRunId) : Int) ≤ t.maxToolCalls
  parent : ∀ t ∈ a.terms, t.parentRunId ∈ a.heads.map Head.id
  child : ∀ t ∈ a.terms, t.childRunId ∈ a.heads.map Head.id
  calls : ∀ k ∈ a.calls, k.1 ∈ a.heads.map Head.id

theorem find?_terms (s : RunStore) (id : RunId) :
    s.archive.terms.find? (fun t => t.childRunId = id) =
      (s.delegations.find? id).map Delegation.terms := by
  rw [RunStore.archive, List.find?_map]
  rfl

theorem depthIn_eq (s : RunStore) (id : RunId) : depthIn s.archive.terms id = s.depthOf id := by
  rw [depthIn, find?_terms, Option.map_map]
  rfl

theorem rootIn_eq (s : RunStore) (id : RunId) : rootIn s.archive.terms id = s.rootOf id := by
  rw [rootIn, find?_terms, Option.map_map]
  rfl

theorem childPosition_eq (s : RunStore) (parent : RunRecord) :
    (s.childPosition parent).rootRunId = rootIn s.archive.terms parent.runId ∧
      (s.childPosition parent).depth = depthIn s.archive.terms parent.runId + 1 := by
  rw [rootIn_eq, depthIn_eq, RunStore.rootOf, RunStore.depthOf, RunStore.childPosition]
  cases s.delegations.find? parent.runId <;> exact ⟨rfl, rfl⟩

/-- A new child is nobody's parent, so what is found in the old rows is found in the new ones. -/
theorem find?_concat_terms {terms : List Terms} {t : Terms} {id : RunId}
    (h : t.childRunId ≠ id) :
    (terms ++ [t]).find? (fun t => t.childRunId = id) =
      terms.find? fun t => t.childRunId = id := by
  rw [List.find?_append, List.find?_singleton, if_neg (by simpa using h), Option.or_none]

/-- A child of a stored run, at its place in the tree of its parent. -/
theorem Archive.Bounded.graft {a : Archive} (h : a.Bounded) {head : Head} {t : Terms}
    (htotal : a.terms.countP (fun x => x.rootRunId = t.rootRunId) < maxRootSpawns)
    (hdepth : t.depth = depthIn a.terms t.parentRunId + 1 ∧ t.depth ≤ maxDepth)
    (hroot : t.rootRunId = rootIn a.terms t.parentRunId) (hbudget : 0 < t.maxToolCalls)
    (hparent : t.parentRunId ∈ a.heads.map Head.id)
    (hfresh : t.childRunId ∉ a.heads.map Head.id) (hhead : head.id = t.childRunId) :
    (a.file (.child head t)).Bounded := by
  have hne : ∀ id ∈ a.heads.map Head.id, t.childRunId ≠ id := by
    rintro id hm rfl
    exact hfresh hm
  -- in the new rows every stored run is found where it was
  have hdepthIn : ∀ id ∈ a.heads.map Head.id, depthIn (a.terms ++ [t]) id = depthIn a.terms id := by
    intro id hm
    rw [depthIn, find?_concat_terms (hne id hm), depthIn]
  have hrootIn : ∀ id ∈ a.heads.map Head.id, rootIn (a.terms ++ [t]) id = rootIn a.terms id := by
    intro id hm
    rw [rootIn, find?_concat_terms (hne id hm), rootIn]
  have hgrow : ∀ id ∈ a.heads.map Head.id, id ∈ (a.heads ++ [head]).map Head.id := by
    intro id hm
    rw [List.map_append]
    exact List.mem_append_left _ hm
  constructor
  · intro root
    rw [Archive.file, List.countP_append, List.countP_singleton]
    have hold := h.total root
    split
    · rename_i e
      rw [of_decide_eq_true e] at htotal
      omega
    · omega
  · intro x hx
    rcases List.mem_append.mp hx with hx | hx
    · rw [Archive.file, hdepthIn _ (h.parent x hx)]
      exact h.depth x hx
    · rw [List.mem_singleton.mp hx, Archive.file, hdepthIn _ hparent]
      exact hdepth
  · intro x hx
    rcases List.mem_append.mp hx with hx | hx
    · rw [Archive.file, hrootIn _ (h.parent x hx)]
      exact h.root x hx
    · rw [List.mem_singleton.mp hx, Archive.file, hrootIn _ hparent]
      exact hroot
  · intro x hx
    rcases List.mem_append.mp hx with hx | hx
    · exact h.budget x hx
    · have hz : a.calls.countP (fun k => k.1 = t.childRunId) = 0 := by
        rw [List.countP_eq_zero]
        intro k hk e
        exact hne k.1 (h.calls k hk) (of_decide_eq_true e).symm
      rw [List.mem_singleton.mp hx, Archive.file, hz]
      exact Int.le_of_lt hbudget
  · intro x hx
    rcases List.mem_append.mp hx with hx | hx
    · exact hgrow _ (h.parent x hx)
    · rw [List.mem_singleton.mp hx]
      exact hgrow _ hparent
  · intro x hx
    rcases List.mem_append.mp hx with hx | hx
    · exact hgrow _ (h.child x hx)
    · rw [Archive.file, List.map_append, List.mem_singleton.mp hx]
      exact List.mem_append_right _ (List.mem_singleton.mpr hhead.symm)
  · exact fun k hk => hgrow _ (h.calls k hk)

theorem countP_terms (s : RunStore) (root : RunId) :
    s.archive.terms.countP (fun t => t.rootRunId = root) =
      s.delegations.count fun d => d.rootRunId = root := by
  rw [RunStore.archive, List.countP_map]
  rfl

theorem Archive.Bounded.spawn {s : RunStore} (h : s.archive.Bounded) {request : DelegationRequest}
    {clock : Clock} {parent : RunRecord} {child : RunId} (hspawns : s.Spawns request clock parent)
    (hfresh : s.runs.find? child = none) (head : Head) (hhead : head.id = child) :
    (s.archive.file (.child head (request.terms (s.childPosition parent) child))).Bounded := by
  obtain ⟨hroot, hdepth⟩ := childPosition_eq s parent
  obtain ⟨hid, -⟩ := RunStore.readRun_view hspawns.found
  rw [hid] at hroot hdepth
  refine h.graft ?_ ⟨hdepth, hspawns.depth⟩ hroot hspawns.toolCalls ?_ ?_ hhead
  · rw [countP_terms]
    exact hspawns.total
  · obtain ⟨r, hr, -⟩ := RunStore.readRun_eq_some hspawns.found
    exact mem_heads.mpr ⟨r, hr⟩
  · intro hm
    obtain ⟨r, hr⟩ := mem_heads.mp hm
    cases hfresh.symm.trans hr

/-- The calls of a batch fit into the budget of a child. -/
theorem Archive.Bounded.prepare {s : RunStore} (h : s.archive.Bounded) {id : RunId} {round : Nat}
    {calls : List PreparedCall} (hrun : ∃ run, s.runs.find? id = some run)
    (hbudget : ∀ d, s.delegations.find? id = some d →
      (s.toolExecutions.count (fun t => t.runId = id) : Int) + (calls.length : Int) ≤
        d.maxToolCalls) :
    (s.archive.file (.calls (calls.map fun c => (id, round, c.call.id)))).Bounded where
  total := h.total
  depth := h.depth
  root := h.root
  parent := h.parent
  child := h.child
  budget := by
    intro t ht
    rw [Archive.file, List.countP_append]
    by_cases e : t.childRunId = id
    · obtain ⟨d, hd, rfl⟩ := List.mem_map.mp ht
      have hfind : s.delegations.find? id = some d := Table.find?_eq_some_iff.mpr ⟨hd, e⟩
      have hall := hbudget d hfind
      have hold : s.archive.calls.countP (fun k => k.1 = d.childRunId) =
          s.toolExecutions.count fun t => t.runId = id := by
        rw [RunStore.archive, List.countP_map, ← e]
        rfl
      have hnew : (calls.map fun c => (id, round, c.call.id)).countP
          (fun k => k.1 = d.childRunId) ≤ calls.length := by
        simpa using List.countP_le_length (l := calls.map fun c => (id, round, c.call.id))
          (p := fun k => decide (k.1 = d.childRunId))
      show ((s.archive.calls.countP (fun k => k.1 = d.childRunId) + _ : Nat) : Int) ≤ d.maxToolCalls
      rw [hold]
      have hkey : (fun k : RunId × Nat × String => decide (k.1 = d.terms.childRunId)) =
          fun k => decide (k.1 = d.childRunId) := rfl
      rw [hkey]
      omega
    · have hz : (calls.map fun c => (id, round, c.call.id)).countP
          (fun k => k.1 = t.childRunId) = 0 := by
        rw [List.countP_eq_zero]
        intro k hk hkey
        obtain ⟨c, -, rfl⟩ := List.mem_map.mp hk
        exact e (of_decide_eq_true hkey).symm
      rw [hz]
      exact h.budget t ht
  calls := by
    intro k hk
    rcases List.mem_append.mp hk with hk | hk
    · exact h.calls k hk
    · obtain ⟨c, -, rfl⟩ := List.mem_map.mp hk
      exact mem_heads.mpr hrun

theorem Archive.Bounded.next {s : RunStore} (h : s.archive.Bounded) (op : Op) :
    (s.next op).archive.Bounded := by
  cases hx : s.exec op with
  | error e =>
    rw [RunStore.next_of_error hx]
    exact h
  | ok p =>
    obtain ⟨reply, s'⟩ := p
    obtain ⟨e, hf, he⟩ := exec_archive hx
    rw [RunStore.next_of_ok hx, he]
    cases e with
    | child head terms =>
      obtain ⟨request, clock, parent, rec, -, -, hspawns, hfresh, rfl, rfl⟩ := files_child hf
      exact h.spawn hspawns hfresh _ rfl
    | calls keys =>
      obtain ⟨id, round, calls, -, hrun, hbudget, rfl⟩ := files_calls hf
      exact h.prepare hrun hbudget
    | run head =>
      have hgrow : ∀ id ∈ s.archive.heads.map Head.id,
          id ∈ (s.archive.heads ++ [head]).map Head.id := by
        intro id hm
        rw [List.map_append]
        exact List.mem_append_left _ hm
      exact ⟨h.total, h.depth, h.root, h.budget, fun t ht => hgrow _ (h.parent t ht),
        fun t ht => hgrow _ (h.child t ht), fun k hk => hgrow _ (h.calls k hk)⟩
    | nothing => exact h
    | asked i => exact ⟨h.total, h.depth, h.root, h.budget, h.parent, h.child, h.calls⟩
    | answered i approved => exact ⟨h.total, h.depth, h.root, h.budget, h.parent, h.child, h.calls⟩
    | ended run => exact ⟨h.total, h.depth, h.root, h.budget, h.parent, h.child, h.calls⟩
    | closed run => exact ⟨h.total, h.depth, h.root, h.budget, h.parent, h.child, h.calls⟩
    | recovered runs lost =>
      exact ⟨h.total, h.depth, h.root, h.budget, h.parent, h.child, h.calls⟩

theorem bounded_after (ops : List Op) : (storeAfter ops).archive.Bounded := by
  refine after_induct (G := fun _ _ => True) (I := fun s : RunStore => s.archive.Bounded)
    (fun s op h _ => h.next op) ?_ (along_true _ _)
  exact ⟨fun _ => Nat.zero_le _, nofun, nofun, nofun, nofun, nofun, nofun⟩

/-! ## The busy children -/

/-- Each child has a run, and the child of a queued run is queued. -/
def ChildrenQueued (c : Control) : Prop :=
  ∀ d ∈ c.children, ∃ v, c.run? d.runId = some v ∧
    (v.verdict.status = .queued → d.status = .queued)

/-- The children are as before but for their statuses and leases, and none is busy again. -/
def Wanes (children children' : List ChildView) : Prop :=
  ∃ f : ChildView → ChildView, children' = children.map f ∧
    ∀ d ∈ children, (f d).status.busy = true → d.status.busy = true

theorem Wanes.refl (children : List ChildView) : Wanes children children :=
  ⟨id, (List.map_id _).symm, fun _ _ => id⟩

theorem Wanes.trans {a b c : List ChildView} (hab : Wanes a b) (hbc : Wanes b c) : Wanes a c := by
  obtain ⟨f, rfl, hf⟩ := hab
  obtain ⟨g, rfl, hg⟩ := hbc
  refine ⟨g ∘ f, List.map_map, fun d hd hbusy => hf d hd (hg _ (List.mem_map_of_mem hd) hbusy)⟩

/-- The verdict of `run` is rewritten, and its child follows where the run is still queued. -/
theorem ChildrenQueued.updateRun {c : Control} (h : ChildrenQueued c) (run : RunId)
    {f : Verdict → Verdict} (hf : ∀ v, (f v).status ≠ .queued) {g : ChildView → ChildView}
    (hid : ∀ d, (g d).runId = d.runId) (hother : ∀ d, d.runId ≠ run → (g d).status = d.status) :
    ChildrenQueued { c.updateRun run f with children := c.children.map g } := by
  intro d hd
  obtain ⟨x, hx, rfl⟩ := List.mem_map.mp hd
  obtain ⟨v, hv, hst⟩ := h x hx
  rw [hid]
  have hfind := Control.run?_updateRun c run x.runId f
  rw [hv] at hfind
  refine ⟨_, hfind, ?_⟩
  have hvid : v.id = x.runId := Control.id_of_run? hv
  dsimp only
  by_cases e : x.runId = run
  · rw [if_pos (hvid.trans e)]
    exact fun hq => absurd hq (hf _)
  · rw [if_neg fun e' => e (hvid.symm.trans e'), hother x e]
    exact hst

theorem ChildrenQueued.apply {c : Control} {ch : Change} (h : ChildrenQueued c)
    (hen : ch.Enabled c) : ChildrenQueued (ch.apply c) := by
  have hkeep : ∀ run (f : Verdict → Verdict), (∀ v, (f v).status ≠ .queued) →
      ChildrenQueued (c.updateRun run f) := by
    intro run f hf
    have := h.updateRun run hf (g := id) (fun _ => rfl) fun _ _ => rfl
    rwa [List.map_id] at this
  have hset : ∀ run (f : Verdict → Verdict) (status : RunStatus),
      (∀ v, (f v).status ≠ .queued) → ChildrenQueued ((c.updateRun run f).mirror run status) := by
    intro run f status hf
    refine h.updateRun run hf
      (g := fun d => if d.runId = run then { d with status := status } else d) ?_ ?_
    · intro d
      split <;> rfl
    · intro d hd
      rw [if_neg hd]
  cases ch with
  | admitted run session child =>
    have hold : ∀ d ∈ c.children, ∃ v, (Change.apply c (.admitted run session child)).run? d.runId =
        some v ∧ (v.verdict.status = .queued → d.status = .queued) := by
      intro d hd
      obtain ⟨v, hv, hst⟩ := h d hd
      refine ⟨v, ?_, hst⟩
      rw [Control.run?] at hv ⊢
      rw [Change.apply, List.find?_append, hv]
      rfl
    intro d hd
    rcases List.mem_append.mp hd with hd | hd
    · exact hold d hd
    · cases child with
      | false => cases hd
      | true =>
        rw [List.mem_singleton.mp hd]
        refine ⟨⟨run, session, ⟨.queued, none, none, none⟩⟩, ?_, fun _ => rfl⟩
        have hnew := hen.1
        rw [Control.run?] at hnew ⊢
        rw [Change.apply, List.find?_append, hnew, List.find?_singleton, decide_eq_true rfl]
        rfl
  | started run => exact hset run ({ · with status := .running }) .running (by simp)
  | removed run => exact hset run ({ · with status := .cancelled }) .cancelled (by simp)
  | awaiting run => exact hkeep run ({ · with status := .waitingInteraction }) (by simp)
  | resumed run => exact hkeep run ({ · with status := .running }) (by simp)
  | finished run u =>
    refine hset run (fun _ => u) u.status fun _ hq => ?_
    have ht := hen.1
    rw [hq] at ht
    cases ht
  | reconciled run u =>
    refine hset run (fun _ => u) u.status fun _ hq => ?_
    rcases hen.1 with e | e | e <;> cases hq.symm.trans e
  | lost run =>
    exact hset run ({ · with status := .unknownAfterRestart }) .unknownAfterRestart (by simp)
  | prepared run tools => exact h
  | toolMoved key source target => exact h
  | leased child lease =>
    intro d hd
    obtain ⟨x, hx, rfl⟩ := List.mem_map.mp hd
    obtain ⟨v, hv, hst⟩ := h x hx
    refine ⟨v, ?_, ?_⟩
    · split <;> exact hv
    · split <;> exact hst

/-- Without an admission no child becomes busy. -/
theorem wanes_apply {c : Control} {ch : Change} (h : ChildrenQueued c) (hen : ch.Enabled c)
    (hno : ∀ run session, ch ≠ .admitted run session true) :
    Wanes c.children (ch.apply c).children := by
  have hset : ∀ run (status : RunStatus), (∀ d ∈ c.children, d.runId = run →
      status.busy = true → d.status.busy = true) →
      Wanes c.children (c.children.map fun d =>
        if d.runId = run then { d with status := status } else d) := by
    intro run status hbusy
    refine ⟨_, rfl, fun d hd => ?_⟩
    split
    · rename_i e
      exact hbusy d hd e
    · exact id
  cases ch with
  | admitted run session child =>
    cases child with
    | false =>
      simp only [Change.apply, Bool.false_eq_true, if_false, List.append_nil]
      exact .refl _
    | true => exact absurd rfl (hno run session)
  | started run =>
    refine hset run .running fun d hd hid _ => ?_
    obtain ⟨v, hv, hst, -⟩ := hen
    obtain ⟨w, hw, hq⟩ := h d hd
    rw [hid] at hw
    cases hv.symm.trans hw
    rw [hq hst]
    rfl
  | removed run => exact hset run .cancelled fun _ _ _ hb => by cases hb
  | awaiting run => exact .refl _
  | resumed run => exact .refl _
  | finished run u =>
    refine hset run u.status fun _ _ _ hb => ?_
    rw [RunStatus.busy_eq_not_terminal, hen.1] at hb
    cases hb
  | reconciled run u =>
    refine hset run u.status fun _ _ _ hb => ?_
    rcases hen.1 with e | e | e <;> rw [e] at hb <;> cases hb
  | lost run => exact hset run .unknownAfterRestart fun _ _ _ hb => by cases hb
  | prepared run tools => exact .refl _
  | toolMoved key source target => exact .refl _
  | leased child lease =>
    refine ⟨_, rfl, fun d _ => ?_⟩
    split <;> exact id

theorem childrenQueued_after (ops : List Op) : ChildrenQueued (storeAfter ops).control := by
  refine control_induct (P := fun _ => true) (fun c ch h hen => h.apply hen.1) ?_
    (along_mono (along_true _ _) fun s op _ _ => approvalsOn_any s op)
  exact fun d hd => by cases hd

theorem wanes_after {c : Control} {chs : List Change} (h : ChildrenQueued c)
    (ha : Along Change.apply Change.Enabled c chs)
    (hno : ∀ ch ∈ chs, ∀ run session, ch ≠ .admitted run session true) :
    Wanes c.children (after Change.apply c chs).children := by
  induction chs generalizing c with
  | nil => exact .refl _
  | cons ch chs ih =>
    exact (wanes_apply h ha.1 (hno ch List.mem_cons_self)).trans
      (ih (h.apply ha.1) ha.2 fun x hx => hno x (List.mem_cons_of_mem _ hx))

theorem performs_admitted {s s' : RunStore} {op : Op} {reply : Reply} {chs : List Change}
    {run : RunId} {session : SessionId} (h : op.Performs s s' reply chs)
    (hm : .admitted run session true ∈ chs) :
    ∃ request clock, op = .admitDelegation request clock := by
  cases op <;> simp only [Op.Performs] at h <;> grind

/-! ## The bound on the busy children -/

/-- At most four children of a root are busy. -/
def ActiveBounded (s : RunStore) : Prop := ∀ root,
  s.delegations.count (fun d => d.rootRunId = root && d.status.busy) ≤ maxRootActive

/-- Rows with the same terms of which none became busy have no more busy children. -/
theorem ActiveBounded.wane {s s' : RunStore} (h : ActiveBounded s)
    (hterms : s'.archive.terms = s.archive.terms)
    (hwanes : Wanes s.control.children s'.control.children) : ActiveBounded s' := by
  obtain ⟨f, hf, hbusy⟩ := hwanes
  have hsame : List.Forall₂ (fun d d' : Delegation => d.terms = d'.terms)
      s.delegations.rows s'.delegations.rows := by
    have e : List.Forall₂ Eq (s.delegations.rows.map Delegation.terms)
        (s'.delegations.rows.map Delegation.terms) := by
      rw [List.forall₂_eq_eq_eq]
      exact hterms.symm
    rwa [List.forall₂_map_left_iff, List.forall₂_map_right_iff] at e
  have hview : List.Forall₂ (fun d d' : Delegation => f d.view = d'.view)
      s.delegations.rows s'.delegations.rows := by
    have e : List.Forall₂ Eq ((s.delegations.rows.map Delegation.view).map f)
        (s'.delegations.rows.map Delegation.view) := by
      rw [List.forall₂_eq_eq_eq]
      exact hf.symm
    rwa [List.forall₂_map_left_iff, List.forall₂_map_left_iff, List.forall₂_map_right_iff] at e
  have hmem : List.Forall₂ (fun d d' : Delegation => d ∈ s.delegations.rows ∧ f d.view = d'.view)
      s.delegations.rows s'.delegations.rows :=
    (List.forall₂_and_left _ _).mpr ⟨fun _ hd => hd, hview⟩
  intro root
  refine Nat.le_trans (countP_le_of_forall₂ (hsame.mp ?_ hmem)) (h root)
  rintro d d' hd ⟨hm, hv⟩ hq
  have hroot : d'.rootRunId = d.rootRunId := (congrArg Terms.rootRunId hd).symm
  have hstatus : d'.status = (f d.view).status := (congrArg ChildView.status hv).symm
  rw [Bool.and_eq_true, hroot, hstatus] at hq
  rw [Bool.and_eq_true]
  exact ⟨hq.1, hbusy d.view (List.mem_map_of_mem hm) hq.2⟩

theorem ActiveBounded.spawn {s s' : RunStore} (h : ActiveBounded s) {request : DelegationRequest}
    {clock : Clock} {parent : RunRecord} {rec : DelegationRecord}
    (hspawns : s.Spawns request clock parent)
    (hx : s.enqueueChild request (s.childPosition parent) (clock 1) = .ok (rec, s')) :
    ActiveBounded s' := by
  obtain ⟨id, route, -, hrows, -⟩ := RunStore.enqueueChild_spec hx
  intro root
  rw [Table.count, hrows, List.countP_append, List.countP_singleton]
  have hold := h root
  rw [Table.count] at hold
  split
  · rename_i e
    rw [Bool.and_eq_true, decide_eq_true_eq] at e
    have hroot : (s.childPosition parent).rootRunId = root := e.1
    have hlt := hspawns.running
    rw [hroot, Table.count] at hlt
    omega
  · omega

theorem activeBounded_after (ops : List Op) : ActiveBounded (storeAfter ops) := by
  have hstep : ∀ s op, ChildrenQueued s.control ∧ ActiveBounded s →
      ChildrenQueued (s.next op).control ∧ ActiveBounded (s.next op) := by
    rintro s op ⟨hq, hb⟩
    refine ⟨control_next (P := fun _ => true) (fun c ch h hen => h.apply hen.1) hq
      (approvalsOn_any s op), ?_⟩
    cases hx : s.exec op with
    | error e =>
      rw [RunStore.next_of_error hx]
      exact hb
    | ok p =>
      obtain ⟨reply, s'⟩ := p
      rw [RunStore.next_of_ok hx]
      by_cases hop : ∃ request clock, op = .admitDelegation request clock
      · obtain ⟨request, clock, rfl⟩ := hop
        obtain ⟨rec, -, hx⟩ := RunStore.of_exec hx
        rcases RunStore.admitDelegation_cases hx with ⟨rfl, -⟩ | ⟨parent, hspawns, hx⟩
        · exact hb
        · exact hb.spawn hspawns hx
      · obtain ⟨e, hf, he⟩ := exec_archive hx
        obtain ⟨chs, hp, ha, hc⟩ := simulation hx
        refine hb.wane ?_ (hc ▸ wanes_after hq ha fun ch hm run session hadm => ?_)
        · rcases terms_file s.archive e with hsame | ⟨head, terms, rfl⟩
          · rw [he, hsame]
          · obtain ⟨request, clock, -, -, rfl, -⟩ := files_child hf
            exact absurd ⟨request, clock, rfl⟩ hop
        · subst hadm
          exact hop (performs_admitted hp hm)
  refine (after_induct (G := fun _ _ => True)
    (I := fun s : RunStore => ChildrenQueued s.control ∧ ActiveBounded s)
    (fun s op h _ => hstep s op h) ⟨(fun d hd => by cases hd), fun _ => Nat.zero_le _⟩
    (along_true _ ops)).2

/-! ## The trees -/

theorem depthOf_of_mem {s : RunStore} {d : Delegation} (hd : d ∈ s.delegations.rows) :
    s.depthOf d.childRunId = d.depth := by
  rw [RunStore.depthOf, Table.find?_of_mem hd]
  rfl

/-- **Bounds on the trees.** Whatever is asked of a store, its roots have at most eight children and
four busy ones, a child is one level below its parent, at most two below the root, and in the
tree of its parent, and it has no more tool executions than its budget allows. -/
theorem treeBounds_after (ops : List Op) : TreeBounds (storeAfter ops) := by
  have hb := bounded_after ops
  have hmem : ∀ d ∈ (storeAfter ops).delegations.rows, d.terms ∈ (storeAfter ops).archive.terms :=
    fun d hd => List.mem_map_of_mem hd
  have hdepth : ∀ d ∈ (storeAfter ops).delegations.rows,
      d.depth = (storeAfter ops).depthOf d.parentRunId + 1 ∧ d.depth ≤ maxDepth := by
    intro d hd
    rw [← depthIn_eq]
    exact hb.depth d.terms (hmem d hd)
  constructor
  · intro root
    rw [← countP_terms]
    exact hb.total root
  · exact activeBounded_after ops
  · exact hdepth
  · intro d hd
    rw [← rootIn_eq]
    exact hb.root d.terms (hmem d hd)
  · refine acyclic_of_rank (storeAfter ops).depthOf ?_
    rintro parent child ⟨d, hd, rfl, rfl⟩
    rw [depthOf_of_mem hd, (hdepth d hd).1]
    omega
  · intro d hd
    have hbudget := hb.budget d.terms (hmem d hd)
    rw [RunStore.archive, List.countP_map] at hbudget
    exact hbudget

/-! ## Authority -/

/-- The authority of `c` is within that of `p`. -/
structure Terms.Within (c p : Terms) : Prop where
  tools : c.tools ⊆ p.tools
  rounds : c.maxRounds ≤ p.maxRounds
  tokens : c.maxTokens ≤ p.maxTokens
  toolCalls : c.maxToolCalls ≤ p.maxToolCalls
  deadline : c.deadlineMs ≤ p.deadlineMs

theorem Terms.Within.refl (t : Terms) : t.Within t :=
  ⟨List.Subset.refl _, Int.le_refl _, Int.le_refl _, Int.le_refl _, Int.le_refl _⟩

theorem Terms.Within.trans {a b c : Terms} (hab : a.Within b) (hbc : b.Within c) : a.Within c where
  tools := List.Subset.trans hab.tools hbc.tools
  rounds := Int.le_trans hab.rounds hbc.rounds
  tokens := Int.le_trans hab.tokens hbc.tokens
  toolCalls := Int.le_trans hab.toolCalls hbc.toolCalls
  deadline := Int.le_trans hab.deadline hbc.deadline

/-- The parent of `t` is a root. -/
def UnderRoot (terms : List Terms) (t : Terms) : Prop := ∀ p ∈ terms, p.childRunId ≠ t.parentRunId

/-- A child has no more authority than its parent, and than the child of the root above it. -/
structure Narrowing (terms : List Terms) : Prop where
  parent : ∀ c ∈ terms, ∀ p ∈ terms, p.childRunId = c.parentRunId → c.Within p
  top : ∀ c ∈ terms, ∃ t ∈ terms, UnderRoot terms t ∧ t.parentRunId = c.rootRunId ∧ c.Within t

/-- A child that enters with no more authority than its parent. -/
theorem Narrowing.graft {a : Archive} (h : Narrowing a.terms) (hb : a.Bounded) {t : Terms}
    (hfresh : t.childRunId ∉ a.heads.map Head.id)
    (hparent : t.parentRunId ∈ a.heads.map Head.id)
    (hroot : t.rootRunId = rootIn a.terms t.parentRunId)
    (hwithin : ∀ p ∈ a.terms, p.childRunId = t.parentRunId → t.Within p) :
    Narrowing (a.terms ++ [t]) := by
  have hnew : ∀ id ∈ a.heads.map Head.id, t.childRunId ≠ id := by
    rintro id hm rfl
    exact hfresh hm
  have hunder : ∀ c ∈ a.terms ++ [t], UnderRoot a.terms c → UnderRoot (a.terms ++ [t]) c := by
    intro c hc hu p hp
    rcases List.mem_append.mp hp with hp | hp
    · exact hu p hp
    · rw [List.mem_singleton.mp hp]
      rcases List.mem_append.mp hc with hc | hc
      · exact hnew _ (hb.parent c hc)
      · rw [List.mem_singleton.mp hc]
        exact hnew _ hparent
  constructor
  · intro c hc p hp hid
    rcases List.mem_append.mp hp with hp | hp
    · rcases List.mem_append.mp hc with hc | hc
      · exact h.parent c hc p hp hid
      · rw [List.mem_singleton.mp hc] at hid ⊢
        exact hwithin p hp hid
    · -- nobody has the new child for a parent
      rw [List.mem_singleton.mp hp] at hid
      rcases List.mem_append.mp hc with hc | hc
      · exact absurd hid (hnew _ (hb.parent c hc))
      · rw [List.mem_singleton.mp hc] at hid
        exact absurd hid (hnew _ hparent)
  · intro c hc
    rcases List.mem_append.mp hc with hc' | hc'
    · obtain ⟨x, hx, hu, hid, hw⟩ := h.top c hc'
      exact ⟨x, List.mem_append_left _ hx, hunder x (List.mem_append_left _ hx) hu, hid, hw⟩
    · rw [List.mem_singleton.mp hc'] at hc ⊢
      cases hfind : a.terms.find? fun x => x.childRunId = t.parentRunId with
      | none =>
        have hu : UnderRoot a.terms t := by
          intro p hp e
          exact List.find?_eq_none.mp hfind p hp (decide_eq_true e)
        refine ⟨t, hc, hunder t hc hu, ?_, .refl t⟩
        rw [hroot, rootIn, hfind]
        rfl
      | some p =>
        have hp := List.mem_of_find?_eq_some hfind
        have hpid : p.childRunId = t.parentRunId := by simpa using List.find?_some hfind
        obtain ⟨x, hx, hu, hid, hw⟩ := h.top p hp
        refine ⟨x, List.mem_append_left _ hx, hunder x (List.mem_append_left _ hx) hu, ?_,
          (hwithin p hp hpid).trans hw⟩
        rw [hid, hroot, rootIn, hfind]
        rfl

/-- A successful admission adds one child, and no other operation adds any. -/
theorem terms_next (s : RunStore) (op : Op) :
    (s.next op).archive.terms = s.archive.terms ∨
    ∃ request clock parent child, op = .admitDelegation request clock ∧
      s.Spawns request clock parent ∧ s.runs.find? child = none ∧
      (s.next op).archive.terms =
        s.archive.terms ++ [request.terms (s.childPosition parent) child] := by
  cases hx : s.exec op with
  | error e =>
    rw [RunStore.next_of_error hx]
    exact .inl rfl
  | ok p =>
    obtain ⟨reply, s'⟩ := p
    obtain ⟨e, hf, he⟩ := exec_archive hx
    rw [RunStore.next_of_ok hx, he]
    rcases terms_file s.archive e with hsame | ⟨head, terms, rfl⟩
    · exact .inl hsame
    · obtain ⟨request, clock, parent, rec, rfl, -, hspawns, hfresh, -, rfl⟩ := files_child hf
      exact .inr ⟨request, clock, parent, rec.childRunId, rfl, hspawns, hfresh, rfl⟩

/-- A child of a later operation is no run that is stored already. -/
theorem mem_terms_of_next {s : RunStore} {op : Op} {id : RunId}
    (hid : id ∈ s.archive.heads.map Head.id) {p : Terms} (hp : p ∈ (s.next op).archive.terms)
    (e : p.childRunId = id) : p ∈ s.archive.terms := by
  rcases terms_next s op with hsame | ⟨request, clock, parent, child, -, -, hfresh, hnew⟩
  · rwa [hsame] at hp
  · rw [hnew] at hp
    rcases List.mem_append.mp hp with hp | hp
    · exact hp
    · rw [List.mem_singleton.mp hp] at e
      obtain ⟨r, hr⟩ := mem_heads.mp hid
      rw [← e] at hr
      cases hfresh.symm.trans hr

end AgentDaemon.Storage
