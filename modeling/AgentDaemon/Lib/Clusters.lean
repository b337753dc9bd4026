import Mathlib.Algebra.Ring.Nat
import Mathlib.Data.List.Basic

/-!
A list cut into clusters, where a rule says of a cluster and the element behind it whether they go
together. A place in the list is a boundary exactly if the rule parts the lists before and behind it
(`cut_iff_parted`), and so the clusters on either side of a boundary are those of the whole list. Places
are measured by a size of the elements (`mem_boundaries_iff`).
-/

namespace AgentDaemon.Clusters

variable {α : Type} (joins : List α → α → Bool)

/-- The clusters from the one at hand on. -/
def clustersFrom : List α → List α → List (List α)
  | cluster, [] => [cluster]
  | cluster, a :: l =>
    if joins cluster a then clustersFrom (cluster ++ [a]) l else cluster :: clustersFrom [a] l

def clusters : List α → List (List α)
  | [] => []
  | a :: l => clustersFrom joins [a] l

/-- The last cluster of one list and the first element of the other do not go together. -/
def Parted (l m : List α) : Prop :=
  ∀ cluster ∈ (clusters joins l).getLast?, ∀ a ∈ m.head?, joins cluster a = false

/-- A boundary: some of the clusters make up the list before it. -/
def Cut (l m : List α) : Prop :=
  ∃ before behind, clusters joins (l ++ m) = before ++ behind ∧ before.flatten = l

variable {joins} {l m cluster : List α}

@[simp] theorem clusters_nil : clusters joins [] = [] := rfl

theorem clusters_cons (a : α) (l : List α) : clusters joins (a :: l) = clustersFrom joins [a] l := rfl

theorem parted_nil_left (m : List α) : Parted joins [] m := by
  intro cluster h
  cases h

theorem parted_nil_right (l : List α) : Parted joins l [] := by
  intro cluster _ a h
  cases h

/-! ## The clusters make up the list -/

theorem clustersFrom_ne_nil (cluster l : List α) : clustersFrom joins cluster l ≠ [] := by
  induction l generalizing cluster with
  | nil => exact List.cons_ne_nil _ _
  | cons a l ih =>
    rw [clustersFrom]
    split
    · exact ih (cluster ++ [a])
    · exact List.cons_ne_nil _ _

theorem flatten_clustersFrom (cluster l : List α) :
    (clustersFrom joins cluster l).flatten = cluster ++ l := by
  induction l generalizing cluster with
  | nil => simp [clustersFrom]
  | cons a l ih =>
    rw [clustersFrom]
    split
    · rw [ih, List.append_assoc, List.singleton_append]
    · rw [List.flatten_cons, ih, List.singleton_append]

@[simp] theorem flatten_clusters (joins : List α → α → Bool) (l : List α) : (clusters joins l).flatten = l := by
  cases l with
  | nil => rfl
  | cons a l => rw [clusters_cons, flatten_clustersFrom, List.singleton_append]

theorem nil_notMem_clustersFrom (h : cluster ≠ []) (l : List α) :
    [] ∉ clustersFrom joins cluster l := by
  induction l generalizing cluster with
  | nil => simpa [clustersFrom] using h.symm
  | cons a l ih =>
    rw [clustersFrom]
    split
    · exact ih (List.append_ne_nil_of_left_ne_nil h [a])
    · rw [List.mem_cons, not_or]
      exact ⟨h.symm, ih (List.cons_ne_nil a [])⟩

theorem nil_notMem_clusters (l : List α) : [] ∉ clusters joins l := by
  cases l with
  | nil => exact List.not_mem_nil
  | cons a l => exact nil_notMem_clustersFrom (List.cons_ne_nil a []) l

theorem clusters_eq_nil : clusters joins l = [] ↔ l = [] := by
  constructor
  · intro h
    rw [← flatten_clusters joins l, h]
    rfl
  · rintro rfl
    rfl

/-! ## Boundaries -/

theorem clustersFrom_append {l : List α} (m : List α)
    (h : ∀ c ∈ (clustersFrom joins cluster l).getLast?, ∀ a ∈ m.head?, joins c a = false) :
    clustersFrom joins cluster (l ++ m) = clustersFrom joins cluster l ++ clusters joins m := by
  induction l generalizing cluster with
  | nil =>
    cases m with
    | nil => simp [clustersFrom]
    | cons a m =>
      have hparted := h cluster rfl a rfl
      simp [clustersFrom, clusters_cons, hparted]
  | cons b l ih =>
    rw [List.cons_append, clustersFrom]
    rw [clustersFrom] at h ⊢
    split
    · rename_i hjoins
      rw [if_pos hjoins] at h
      exact ih h
    · rename_i hjoins
      rw [if_neg hjoins, List.getLast?_cons_of_ne_nil (clustersFrom_ne_nil [b] l)] at h
      rw [ih h, List.cons_append]

theorem clusters_append (h : Parted joins l m) :
    clusters joins (l ++ m) = clusters joins l ++ clusters joins m := by
  cases l with
  | nil => rfl
  | cons a l => exact clustersFrom_append m h

/-- Where the clusters are divided, the list is. -/
theorem clustersFrom_divided {before behind : List (List α)} (hne : before ≠ [])
    (h : clustersFrom joins cluster l = before ++ behind) :
    ∃ l₁ l₂, l = l₁ ++ l₂ ∧ clustersFrom joins cluster l₁ = before ∧ clusters joins l₂ = behind ∧
      ∀ c ∈ before.getLast?, ∀ a ∈ l₂.head?, joins c a = false := by
  induction l generalizing cluster before with
  | nil =>
    obtain ⟨rfl, rfl⟩ : before = [cluster] ∧ behind = [] := by
      obtain ⟨first, rest, rfl⟩ := List.exists_cons_of_ne_nil hne
      rw [clustersFrom, List.cons_append, List.cons.injEq] at h
      obtain ⟨rfl, rfl⟩ := List.append_eq_nil_iff.mp h.2.symm
      exact ⟨congrArg (· :: []) h.1.symm, rfl⟩
    exact ⟨[], [], rfl, rfl, rfl, fun c _ a ha => by cases ha⟩
  | cons a l ih =>
    rw [clustersFrom] at h
    split at h
    · rename_i hjoins
      obtain ⟨l₁, l₂, rfl, hbefore, hbehind, hparted⟩ := ih hne h
      refine ⟨a :: l₁, l₂, rfl, ?_, hbehind, hparted⟩
      rw [clustersFrom, if_pos hjoins, hbefore]
    · rename_i hjoins
      obtain ⟨first, rest, rfl⟩ := List.exists_cons_of_ne_nil hne
      obtain ⟨rfl, htail⟩ := List.cons.inj h
      by_cases hrest : rest = []
      · subst hrest
        refine ⟨[], a :: l, rfl, rfl, htail, ?_⟩
        rintro c ⟨⟩ b ⟨⟩
        exact Bool.eq_false_iff.mpr hjoins
      · obtain ⟨l₁, l₂, rfl, hbefore, hbehind, hparted⟩ := ih hrest htail
        refine ⟨a :: l₁, l₂, rfl, ?_, hbehind, ?_⟩
        · rw [clustersFrom, if_neg hjoins, hbefore]
        · rwa [List.getLast?_cons_of_ne_nil hrest]

theorem clusters_divided {before behind : List (List α)} (h : clusters joins l = before ++ behind) :
    clusters joins before.flatten = before ∧ clusters joins behind.flatten = behind ∧
      Parted joins before.flatten behind.flatten := by
  by_cases hne : before = []
  · subst hne
    rw [List.nil_append] at h
    rw [← h, flatten_clusters]
    exact ⟨rfl, rfl, parted_nil_left l⟩
  · cases l with
    | nil => exact absurd (List.append_eq_nil_iff.mp h.symm).1 hne
    | cons a l =>
      rw [clusters_cons] at h
      obtain ⟨l₁, l₂, rfl, hbefore, hbehind, hparted⟩ := clustersFrom_divided hne h
      have hl₁ : before.flatten = a :: l₁ := by
        rw [← hbefore, flatten_clustersFrom, List.singleton_append]
      have hl₂ : behind.flatten = l₂ := by rw [← hbehind, flatten_clusters]
      rw [hl₁, hl₂, Parted, clusters_cons, hbefore]
      exact ⟨rfl, hbehind, hparted⟩

theorem parted_of_clusters {before behind : List (List α)} (h : clusters joins l = before ++ behind) :
    Parted joins before.flatten behind.flatten := (clusters_divided h).2.2

/-- **Boundaries.** A place is a boundary exactly if the lists before and behind it are parted. -/
theorem cut_iff_parted : Cut joins l m ↔ Parted joins l m := by
  constructor
  · rintro ⟨before, behind, h, rfl⟩
    have hparted := parted_of_clusters h
    have hflatten := flatten_clusters joins (before.flatten ++ m)
    rw [h, List.flatten_append] at hflatten
    rwa [List.append_cancel_left hflatten] at hparted
  · intro h
    exact ⟨clusters joins l, clusters joins m, clusters_append h, flatten_clusters joins l⟩

/-! ## Ends of clusters -/

theorem getLast?_lastCluster (h : cluster ∈ (clusters joins l).getLast?) :
    cluster.getLast? = l.getLast? := by
  obtain ⟨cs, hcs⟩ := List.getLast?_eq_some_iff.mp h
  have hne : cluster ≠ [] := by
    rintro rfl
    exact nil_notMem_clusters l (hcs ▸ List.mem_append_right cs (List.mem_singleton_self []))
  rw [← flatten_clusters joins l, hcs, List.flatten_append, List.flatten_singleton,
    List.getLast?_append_of_ne_nil _ hne]

/-- The last element of a cluster is alone in it, or goes together with what is before it. -/
def Grown (joins : List α → α → Bool) (cluster : List α) : Prop :=
  ∀ l a, cluster = l ++ [a] → l ≠ [] → joins l a = true

theorem grown_singleton (a : α) : Grown joins [a] := by
  intro l b h hne
  have h' : [] ++ [a] = l ++ [b] := h
  obtain ⟨rfl, -⟩ := List.append_inj' h' rfl
  exact absurd rfl hne

theorem grown_of_mem_clustersFrom {c : List α} (h : Grown joins cluster)
    (hc : c ∈ clustersFrom joins cluster l) : Grown joins c := by
  induction l generalizing cluster with
  | nil =>
    obtain rfl := List.mem_singleton.mp hc
    exact h
  | cons a l ih =>
    rw [clustersFrom] at hc
    split at hc
    · rename_i hjoins
      refine ih ?_ hc
      intro k b he _
      obtain ⟨rfl, hb⟩ := List.append_inj' he rfl
      cases hb
      exact hjoins
    · rcases List.mem_cons.mp hc with rfl | hc
      · exact h
      · exact ih (grown_singleton a) hc

theorem grown_of_mem {c : List α} (h : c ∈ clusters joins l) : Grown joins c := by
  cases l with
  | nil => cases h
  | cons a l => exact grown_of_mem_clustersFrom (grown_singleton a) h

/-! ## The clusters next to a place -/

section Next

variable (joins)

def lastCluster (l : List α) : List α := (clusters joins l).getLast?.getD []

def withoutLast (l : List α) : List α := (clusters joins l).dropLast.flatten

def firstCluster (l : List α) : List α := (clusters joins l).head?.getD []

def withoutFirst (l : List α) : List α := (clusters joins l).tail.flatten

variable {joins}

theorem withoutLast_append_lastCluster (joins : List α → α → Bool) (l : List α) :
    withoutLast joins l ++ lastCluster joins l = l := by
  refine Eq.trans ?_ (flatten_clusters joins l)
  rw [withoutLast, lastCluster]
  rcases List.eq_nil_or_concat' (clusters joins l) with h | ⟨cs, cluster, h⟩
  · rw [h]
    rfl
  · rw [h]
    simp

theorem firstCluster_append_withoutFirst (l : List α) :
    firstCluster joins l ++ withoutFirst joins l = l := by
  refine Eq.trans ?_ (flatten_clusters joins l)
  rw [firstCluster, withoutFirst]
  cases clusters joins l <;> simp

theorem lastCluster_ne_nil (joins : List α → α → Bool) (h : l ≠ []) : lastCluster joins l ≠ [] := by
  rcases List.eq_nil_or_concat' (clusters joins l) with hnil | ⟨cs, cluster, hcs⟩
  · exact absurd (clusters_eq_nil.mp hnil) h
  · have hmem : lastCluster joins l ∈ clusters joins l := by simp [lastCluster, hcs]
    exact fun hempty => nil_notMem_clusters l (hempty ▸ hmem)

theorem firstCluster_ne_nil (joins : List α → α → Bool) (h : l ≠ []) : firstCluster joins l ≠ [] := by
  cases hcs : clusters joins l with
  | nil => exact absurd (clusters_eq_nil.mp hcs) h
  | cons cluster cs =>
    have hmem : firstCluster joins l ∈ clusters joins l := by simp [firstCluster, hcs]
    exact fun hempty => nil_notMem_clusters l (hempty ▸ hmem)

/-- The boundary before a boundary. -/
theorem Parted.left (h : Parted joins l m) :
    Parted joins (withoutLast joins l) (lastCluster joins l ++ m) := by
  have hcs := clusters_append h
  rcases List.eq_nil_or_concat' (clusters joins l) with hl | ⟨cs, cluster, hl⟩
  · rw [withoutLast, hl]
    exact parted_nil_left _
  · rw [hl, List.append_assoc] at hcs
    have hparted := parted_of_clusters hcs
    rw [List.flatten_append, flatten_clusters] at hparted
    simpa [withoutLast, lastCluster, hl] using hparted

/-- The boundary behind a boundary. -/
theorem Parted.right (h : Parted joins l m) :
    Parted joins (l ++ firstCluster joins m) (withoutFirst joins m) := by
  have hcs := clusters_append h
  cases hm : clusters joins m with
  | nil =>
    rw [withoutFirst, hm]
    exact parted_nil_right _
  | cons cluster cs =>
    rw [hm, ← List.singleton_append, ← List.append_assoc] at hcs
    have hparted := parted_of_clusters hcs
    rw [List.flatten_append, flatten_clusters] at hparted
    simpa [withoutFirst, firstCluster, hm] using hparted

end Next

/-! ## Measured places -/

variable (size : α → Nat)

def measure (l : List α) : Nat := (l.map size).sum

/-- Where the clusters start. -/
def starts : Nat → List (List α) → List Nat
  | _, [] => []
  | n, cluster :: rest => n :: starts (n + measure size cluster) rest

/-- The places between the clusters, with the two ends. -/
def boundaries (joins : List α → α → Bool) (l : List α) : List Nat :=
  starts size 0 (clusters joins l) ++ [measure size l]

/-- What is before a place that is given by its measure. -/
def sliceTo : Nat → List α → List α
  | _, [] => []
  | n, a :: l => if size a ≤ n then a :: sliceTo (n - size a) l else []

def sliceFrom : Nat → List α → List α
  | _, [] => []
  | n, a :: l => if size a ≤ n then sliceFrom (n - size a) l else a :: l

variable {size}

@[simp] theorem measure_nil : measure size [] = 0 := rfl

@[simp] theorem measure_append (l m : List α) :
    measure size (l ++ m) = measure size l + measure size m := by
  simp [measure]

theorem measure_cons (a : α) (l : List α) : measure size (a :: l) = size a + measure size l := rfl

theorem measure_pos (hsize : ∀ a, 0 < size a) (h : l ≠ []) : 0 < measure size l := by
  obtain ⟨a, l, rfl⟩ := List.exists_cons_of_ne_nil h
  rw [measure_cons]
  have := hsize a
  omega

theorem sliceTo_append (hsize : ∀ a, 0 < size a) (l m : List α) :
    sliceTo size (measure size l) (l ++ m) = l := by
  induction l with
  | nil =>
    cases m with
    | nil => rfl
    | cons a m =>
      have := hsize a
      rw [List.nil_append, measure_nil, sliceTo, if_neg (by omega)]
  | cons a l ih =>
    rw [List.cons_append, measure_cons, sliceTo, if_pos (by omega), Nat.add_sub_cancel_left, ih]

theorem sliceFrom_append (hsize : ∀ a, 0 < size a) (l m : List α) :
    sliceFrom size (measure size l) (l ++ m) = m := by
  induction l with
  | nil =>
    cases m with
    | nil => rfl
    | cons a m =>
      have := hsize a
      rw [List.nil_append, measure_nil, sliceFrom, if_neg (by omega)]
  | cons a l ih =>
    rw [List.cons_append, measure_cons, sliceFrom, if_pos (by omega), Nat.add_sub_cancel_left, ih]

theorem mem_starts {n place : Nat} {cs : List (List α)} (h : place ∈ starts size n cs) :
    ∃ before behind, cs = before ++ behind ∧ place = n + measure size before.flatten := by
  induction cs generalizing n with
  | nil => cases h
  | cons cluster cs ih =>
    rcases List.mem_cons.mp h with rfl | h
    · exact ⟨[], cluster :: cs, rfl, rfl⟩
    · obtain ⟨before, behind, rfl, rfl⟩ := ih h
      refine ⟨cluster :: before, behind, rfl, ?_⟩
      rw [List.flatten_cons, measure_append]
      omega

theorem starts_append (n : Nat) (before behind : List (List α)) :
    starts size n (before ++ behind) =
      starts size n before ++ starts size (n + measure size before.flatten) behind := by
  induction before generalizing n with
  | nil => rfl
  | cons cluster before ih =>
    rw [List.cons_append, starts, ih, starts, List.flatten_cons, measure_append, Nat.add_assoc,
      List.cons_append]

/-- A measured place is a boundary exactly if the list is parted there. -/
theorem mem_boundaries_iff {place : Nat} :
    place ∈ boundaries size joins l ↔
      ∃ before behind, l = before ++ behind ∧ place = measure size before ∧
        Parted joins before behind := by
  rw [boundaries, List.mem_append, List.mem_singleton]
  constructor
  · rintro (h | rfl)
    · obtain ⟨before, behind, hcs, rfl⟩ := mem_starts h
      refine ⟨before.flatten, behind.flatten, ?_, Nat.zero_add _, parted_of_clusters hcs⟩
      rw [← List.flatten_append, ← hcs, flatten_clusters]
    · exact ⟨l, [], (List.append_nil l).symm, rfl, parted_nil_right l⟩
  · rintro ⟨before, behind, rfl, rfl, h⟩
    cases behind with
    | nil =>
      right
      rw [List.append_nil]
    | cons a behind =>
      left
      rw [clusters_append h, starts_append, flatten_clusters, Nat.zero_add, List.mem_append]
      right
      obtain ⟨cluster, rest, hcs⟩ := List.exists_cons_of_ne_nil
        (clusters_eq_nil.not.mpr (List.cons_ne_nil a behind))
      rw [hcs, starts]
      exact List.mem_cons_self

/-- What is at a place is known by its measure. -/
theorem mem_boundaries_append (hsize : ∀ a, 0 < size a) :
    measure size l ∈ boundaries size joins (l ++ m) ↔ Parted joins l m := by
  rw [mem_boundaries_iff]
  constructor
  · rintro ⟨before, behind, hsplit, hmeasure, h⟩
    have hbefore : l = before := by
      rw [← sliceTo_append hsize l m, hmeasure, hsplit, sliceTo_append hsize]
    subst hbefore
    rwa [List.append_cancel_left hsplit]
  · intro h
    exact ⟨l, m, rfl, rfl, h⟩

end AgentDaemon.Clusters
