import Mathlib.Data.List.GetD
import Mathlib.Logic.Function.Basic

/-!
One directory on a disk that is written behind a cache. What a name may be found to be after a power
loss is one of its `ages`: what it was when the directory was last synced, or anything it has been
since. A file that was not synced may be found with any bytes.
-/

namespace AgentDaemon

/-- `files` are the bytes of the file nodes; nodes below `fresh` have been used. -/
structure Disk (ν : Type) where
  live : ν → Option Nat := fun _ => none
  ages : ν → List (Option Nat) := fun _ => [none]
  files : Nat → List UInt8 := fun _ => []
  synced : Nat → Bool := fun _ => true
  fresh : Nat := 0

namespace Disk

variable {ν : Type} (d : Disk ν)

def write (node : Nat) (bytes : List UInt8) : Disk ν :=
  { d with
    files := Function.update d.files node bytes
    synced := Function.update d.synced node false }

/-- `sync_all` of a file. -/
def syncFile (node : Nat) : Disk ν := { d with synced := Function.update d.synced node true }

/-- `sync_all` of the directory. -/
def syncDir : Disk ν := { d with ages := fun name => [d.live name] }

/-- The power is lost: every name is one of its ages, and a file that was not synced holds `garble`.
-/
def lose (pick : ν → Nat) (garble : Nat → List UInt8) : Disk ν :=
  let live := fun name => (d.ages name).getD (pick name) (d.live name)
  { d with
    live
    ages := fun name => [live name]
    files := fun node => if d.synced node then d.files node else garble node
    synced := fun _ => true }

/-- What is there is among the ages, and no entry is a node that has not been used. -/
structure Sound : Prop where
  current : ∀ name, d.live name ∈ d.ages name
  used : ∀ name node, some node ∈ d.ages name → node < d.fresh

variable {d}

theorem sound_empty : ({} : Disk ν).Sound := ⟨by simp, by simp⟩

theorem Sound.live_lt (h : d.Sound) {name : ν} {node : Nat} (hlive : d.live name = some node) :
    node < d.fresh := h.used name node (hlive ▸ h.current name)

theorem Sound.syncDir (h : d.Sound) : d.syncDir.Sound where
  current _ := List.mem_singleton_self _
  used _ _ hn := h.live_lt (List.mem_singleton.mp hn).symm

/-- After a power loss a name is what it was at some age. -/
theorem lose_live (h : d.Sound) (pick : ν → Nat) (garble : Nat → List UInt8) (name : ν) :
    (d.lose pick garble).live name ∈ d.ages name := by
  show (d.ages name).getD (pick name) (d.live name) ∈ d.ages name
  by_cases hpick : pick name < (d.ages name).length
  · rw [List.getD_eq_getElem _ _ hpick]
    exact List.getElem_mem hpick
  · rw [List.getD_eq_default _ _ (Nat.le_of_not_lt hpick)]
    exact h.current name

theorem mem_ages_lose (h : d.Sound) {pick : ν → Nat} {garble : Nat → List UInt8} {name : ν}
    {entry : Option Nat} (hentry : entry ∈ (d.lose pick garble).ages name) :
    entry ∈ d.ages name := by
  rw [List.mem_singleton.mp hentry]
  exact lose_live h pick garble name

theorem Sound.lose (h : d.Sound) (pick : ν → Nat) (garble : Nat → List UInt8) :
    (d.lose pick garble).Sound where
  current _ := List.mem_singleton_self _
  used name node hn := h.used name node (mem_ages_lose h hn)

section Entries

variable [DecidableEq ν] (d)

/-- The entry of a name is changed. -/
def link (name : ν) (node : Option Nat) : Disk ν :=
  { d with
    live := Function.update d.live name node
    ages := Function.update d.ages name (node :: d.ages name) }

/-- `create_new`, for a name that is free. -/
def create (name : ν) : Disk ν :=
  { d.link name (some d.fresh) with
    files := Function.update d.files d.fresh []
    synced := Function.update d.synced d.fresh false
    fresh := d.fresh + 1 }

def rename (source target : ν) (node : Nat) : Disk ν :=
  (d.link target (some node)).link source none

variable {d}

theorem mem_ages_link {name other : ν} {node entry : Option Nat} :
    entry ∈ (d.link name node).ages other ↔
      (other = name ∧ entry = node) ∨ entry ∈ d.ages other := by
  unfold link
  by_cases h : other = name
  · subst h
    simp
  · simp [h]

theorem mem_ages_create {name other : ν} {entry : Option Nat} :
    entry ∈ (d.create name).ages other ↔
      (other = name ∧ entry = some d.fresh) ∨ entry ∈ d.ages other := mem_ages_link

theorem mem_ages_rename {source target other : ν} {node : Nat} {entry : Option Nat} :
    entry ∈ (d.rename source target node).ages other ↔
      (other = source ∧ entry = none) ∨ (other = target ∧ entry = some node) ∨
        entry ∈ d.ages other := by
  rw [rename, mem_ages_link, mem_ages_link]

theorem live_link_ne {name other : ν} {node : Option Nat} (h : other ≠ name) :
    (d.link name node).live other = d.live other := Function.update_of_ne h _ _

theorem live_create_ne {name other : ν} (h : other ≠ name) :
    (d.create name).live other = d.live other := live_link_ne h

theorem live_rename {source target : ν} {node : Nat} (h : target ≠ source) :
    (d.rename source target node).live target = some node := by
  rw [rename, live_link_ne h]
  exact Function.update_self ..

theorem live_rename_ne {source target other : ν} {node : Nat} (hs : other ≠ source)
    (ht : other ≠ target) : (d.rename source target node).live other = d.live other := by
  rw [rename, live_link_ne hs, live_link_ne ht]

theorem Sound.link (h : d.Sound) {name : ν} {node : Option Nat}
    (hnode : ∀ n, node = some n → n < d.fresh) : (d.link name node).Sound where
  current other := by
    unfold Disk.link
    by_cases hother : other = name
    · subst hother
      simp
    · simp [hother, h.current other]
  used other n hn := by
    rcases mem_ages_link.mp hn with ⟨-, he⟩ | hn
    · exact hnode n he.symm
    · exact h.used other n hn

theorem Sound.create (h : d.Sound) (name : ν) : (d.create name).Sound := by
  have hup : ({ d with fresh := d.fresh + 1 } : Disk ν).Sound :=
    ⟨h.current, fun other n hn => Nat.lt_succ_of_lt (h.used other n hn)⟩
  have hlink : (({ d with fresh := d.fresh + 1 } : Disk ν).link name (some d.fresh)).Sound :=
    hup.link (by simp)
  exact ⟨hlink.current, hlink.used⟩

theorem Sound.rename (h : d.Sound) {source target : ν} {node : Nat} (hnode : node < d.fresh) :
    (d.rename source target node).Sound :=
  (h.link (by simpa using hnode)).link (by simp)

end Entries

end Disk

end AgentDaemon
