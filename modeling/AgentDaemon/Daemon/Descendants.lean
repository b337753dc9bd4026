import AgentDaemon.Daemon.Drivers
import AgentDaemon.Storage.Descent
import Mathlib.Data.List.Perm.Subperm

/-!
What a cascade goes on with. The passes of `cancel` over the rows of a tree stop when they have
found every run below the one that was cancelled (`below_mem_targets`), each with its session.
-/

namespace AgentDaemon.Daemon

open Provider Storage Transition Fallible

/-! ## One pass -/

section Passes

variable {rows : List DelegationRecord} {acc : List RunId × List (RunId × SessionId)}

/-- The owned runs are `root` and the targets, which are all rows, and none is there twice. -/
structure Owns (rows : List DelegationRecord) (root : RunId)
    (acc : List RunId × List (RunId × SessionId)) : Prop where
  owned : acc.1 = root :: acc.2.map Prod.fst
  rows : ∀ p ∈ acc.2, ∃ row ∈ rows, p = (row.childRunId, row.childSessionId)
  nodup : acc.1.Nodup

/-- What a pass does with one row. -/
def visit (acc : List RunId × List (RunId × SessionId)) (child : DelegationRecord) :
    List RunId × List (RunId × SessionId) :=
  if child.parentRunId ∈ acc.1 ∧ child.childRunId ∉ acc.1 then
    (acc.1 ++ [child.childRunId], acc.2 ++ [(child.childRunId, child.childSessionId)])
  else acc

theorem sweep_cons (row : DelegationRecord) (rows : List DelegationRecord) :
    sweep (row :: rows) acc = sweep rows (visit acc row) := rfl

theorem Owns.visit {root : RunId} (h : Owns rows root acc) {row : DelegationRecord}
    (hrow : row ∈ rows) : Owns rows root (visit acc row) := by
  unfold Daemon.visit
  split
  · rename_i hnew
    refine ⟨?_, ?_, ?_⟩
    · show acc.1 ++ _ = root :: (acc.2 ++ _).map Prod.fst
      rw [h.owned, List.map_append]
      rfl
    · intro p hp
      rcases List.mem_append.mp hp with hp | hp
      · exact h.rows p hp
      · exact ⟨row, hrow, List.mem_singleton.mp hp⟩
    · exact List.nodup_append.mpr ⟨h.nodup, List.nodup_singleton _, fun a ha b hb => by
        rw [List.mem_singleton.mp hb]
        rintro rfl
        exact hnew.2 ha⟩
  · exact h

theorem Owns.sweep {root : RunId} {visited : List DelegationRecord} (h : Owns rows root acc)
    (hsub : visited ⊆ rows) : Owns rows root (sweep visited acc) := by
  induction visited generalizing acc with
  | nil => exact h
  | cons row visited ih =>
    rw [sweep_cons]
    exact ih (h.visit (hsub List.mem_cons_self)) fun x hx => hsub (List.mem_cons_of_mem _ hx)

/-- There is one owned run more than rows at most. -/
theorem Owns.length_le {root : RunId} (h : Owns rows root acc) :
    acc.1.length ≤ rows.length + 1 := by
  have hsub : acc.1 ⊆ root :: rows.map (·.childRunId) := by
    rw [h.owned]
    refine List.cons_subset_cons root fun id hid => ?_
    obtain ⟨p, hp, rfl⟩ := List.mem_map.mp hid
    obtain ⟨row, hrow, rfl⟩ := h.rows p hp
    exact List.mem_map.mpr ⟨row, hrow, rfl⟩
  have hle := (List.subperm_of_subset h.nodup hsub).length_le
  rwa [List.length_cons, List.length_map] at hle

theorem visit_length (acc : List RunId × List (RunId × SessionId)) (row : DelegationRecord) :
    acc.1.length ≤ (visit acc row).1.length := by
  unfold visit
  split
  · simp
  · exact Nat.le_refl _

theorem sweep_length (rows : List DelegationRecord)
    (acc : List RunId × List (RunId × SessionId)) :
    acc.1.length ≤ (sweep rows acc).1.length := by
  induction rows generalizing acc with
  | nil => exact Nat.le_refl _
  | cons row rows ih =>
    rw [sweep_cons]
    exact Nat.le_trans (visit_length acc row) (ih (visit acc row))

/-- A pass that adds nothing finds the child of every owned run owned. -/
theorem closed_of_sweep (h : (sweep rows acc).1.length = acc.1.length) :
    sweep rows acc = acc ∧
      ∀ row ∈ rows, row.parentRunId ∈ acc.1 → row.childRunId ∈ acc.1 := by
  induction rows generalizing acc with
  | nil => exact ⟨rfl, fun row hrow => absurd hrow List.not_mem_nil⟩
  | cons row rows ih =>
    rw [sweep_cons] at h ⊢
    have hle := sweep_length rows (visit acc row)
    by_cases hnew : row.parentRunId ∈ acc.1 ∧ row.childRunId ∉ acc.1
    · exfalso
      rw [visit, if_pos hnew] at h hle
      simp only [List.length_append, List.length_singleton] at hle
      omega
    · have hvisit : visit acc row = acc := if_neg hnew
      rw [hvisit] at h ⊢
      obtain ⟨hsame, hclosed⟩ := ih h
      refine ⟨hsame, fun x hx hp => ?_⟩
      rcases List.mem_cons.mp hx with rfl | hx
      · exact not_not.mp fun hc => hnew ⟨hp, hc⟩
      · exact hclosed x hx hp

/-! ## All passes -/

/-- As many passes as there are rows, and one more, are enough. -/
theorem collect_closed {root : RunId} (fuel : Nat) (h : Owns rows root acc)
    (hfuel : rows.length + 2 ≤ acc.1.length + fuel) :
    Owns rows root (collect rows fuel acc) ∧ ∀ row ∈ rows,
      row.parentRunId ∈ (collect rows fuel acc).1 → row.childRunId ∈ (collect rows fuel acc).1 := by
  induction fuel generalizing acc with
  | zero =>
    have hle := h.length_le
    omega
  | succ fuel ih =>
    have hsweep : Owns rows root (sweep rows acc) := h.sweep (List.Subset.refl _)
    simp only [collect]
    split
    · rename_i hsame
      obtain ⟨he, hclosed⟩ := closed_of_sweep hsame
      rw [he]
      exact ⟨h, hclosed⟩
    · rename_i hgrown
      have hle := sweep_length rows acc
      exact ih hsweep (by omega)

end Passes

/-! ## The targets -/

/-- The targets are all the runs below, each with the session of its run. -/
theorem cascadeTargets_spec {ops : List Op} {root : RunId} {targets : List (RunId × SessionId)}
    (h : cascadeTargets (storeAfter ops) root = .ok targets) :
    (∀ id, (storeAfter ops).Below root id → id ∈ targets.map Prod.fst) ∧
      ∀ p ∈ targets, ∃ k, (storeAfter ops).key? p.1 = some k ∧ k.sessionId = p.2 := by
  have hbounds := treeBounds_after ops
  obtain ⟨rows, hlist, rfl⟩ := map_eq_ok.mp h
  have hlist : (storeAfter ops).listDelegations ((storeAfter ops).rootOf root) = .ok rows := by
    rw [← RunStore.readDelegation_root]
    cases hread : (storeAfter ops).readDelegation root with
    | none =>
      rw [hread] at hlist
      exact hlist
    | some record =>
      rw [hread] at hlist
      exact hlist
  obtain ⟨hall, hrows⟩ := RunStore.listDelegations_spec hlist
  have hstart : Owns rows root ([root], []) := ⟨rfl, nofun, List.nodup_singleton root⟩
  obtain ⟨howns, hclosed⟩ := collect_closed (rows.length + 1) hstart (by simp; omega)
  constructor
  · -- the rows on the way down are all in the tree of `root`
    have hdown : ∀ id, (storeAfter ops).Below root id →
        id ∈ (collect rows (rows.length + 1) ([root], [])).1 ∧
          (storeAfter ops).rootOf id = (storeAfter ops).rootOf root := by
      have hedge : ∀ {parent child : RunId}, (storeAfter ops).Delegates parent child →
          parent ∈ (collect rows (rows.length + 1) ([root], [])).1 →
          (storeAfter ops).rootOf parent = (storeAfter ops).rootOf root →
          child ∈ (collect rows (rows.length + 1) ([root], [])).1 ∧
            (storeAfter ops).rootOf child = (storeAfter ops).rootOf root := by
        rintro parent child ⟨d, hd, rfl, rfl⟩ hparent hsame
        have hin : d.rootRunId = (storeAfter ops).rootOf root := (hbounds.root d hd).trans hsame
        obtain ⟨row, hrow, rfl⟩ := hall d hd hin
        refine ⟨hclosed row hrow hparent, ?_⟩
        rw [RunStore.rootOf, Table.find?_of_mem hd]
        exact hin
      intro id hid
      induction hid with
      | single hd => exact hedge hd (howns.owned ▸ List.mem_cons_self) rfl
      | tail _ hd ih => exact hedge hd ih.1 ih.2
    intro id hid
    have hm := (hdown id hid).1
    rw [howns.owned] at hm
    rcases List.mem_cons.mp hm with rfl | hm
    · exact absurd hid (RunStore.not_below_self ops id)
    · exact hm
  · intro p hp
    obtain ⟨row, hrow, rfl⟩ := howns.rows p hp
    exact RunStore.child_key ops (hrows row hrow)

end AgentDaemon.Daemon
