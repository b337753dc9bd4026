import Mathlib.Data.List.Nodup

/-!
Processes in groups, as POSIX has them. A group is known by the pid of the process that founded it,
and a pid is handed out again only when neither a process nor a group has it. A process bears the
tag that it would give to a group, and the tag of the group it is in: while the founder of a group
is there, all members of the group bear its tag (`home_of_founder`), and they still do when it is
gone, as long as its pid is not handed out again (`Settled.step`).
-/

namespace AgentDaemon.Processes

variable {ι : Type}

/-- A `child` stays as a zombie until its parent waits for it, any other process vanishes. -/
structure Process (ι : Type) where
  pid : Nat
  group : Nat
  tag : Option ι
  home : Option ι
  child : Bool
  zombie : Bool := false
  deriving DecidableEq, Repr

inductive Event (ι : Type) where
  /-- A new process that founds a group. -/
  | start (q : Nat) (tag : Option ι) (child : Bool)
  | fork (p q : Nat)
  /-- `setpgid`, into a group that is there or into one's own. -/
  | regroup (p g : Nat)
  | exit (p : Nat)
  /-- The parent waits for a child that has ended. -/
  | reap (p : Nat)
  /-- `kill(-g, SIGKILL)`. -/
  | signal (g : Nat)

/-- Neither a process nor a group has the pid. -/
def Free (ps : List (Process ι)) (q : Nat) : Prop := ∀ p ∈ ps, p.pid ≠ q ∧ p.group ≠ q

instance (ps : List (Process ι)) (q : Nat) : Decidable (Free ps q) :=
  inferInstanceAs (Decidable (∀ p ∈ ps, p.pid ≠ q ∧ p.group ≠ q))

def alive? (ps : List (Process ι)) (pid : Nat) : Option (Process ι) :=
  ps.find? fun p => p.pid = pid ∧ p.zombie = false

/-- What is left of a process that ends. -/
def ended (p : Process ι) : Option (Process ι) :=
  if p.child then some { p with zombie := true } else none

/-- The tag of the group `g`, if a process of tag `tag` would found it. -/
def homeOf (ps : List (Process ι)) (g : Nat) (tag : Option ι) : Option ι :=
  match ps.find? (·.group = g) with
  | some member => member.home
  | none => tag

def step (ps : List (Process ι)) : Event ι → List (Process ι)
  | .start q tag child => if Free ps q then ps ++ [⟨q, q, tag, tag, child, false⟩] else ps
  | .fork p q =>
    match alive? ps p with
    | some parent =>
      if Free ps q then ps ++ [⟨q, parent.group, none, parent.home, false, false⟩] else ps
    | none => ps
  | .regroup p g =>
    if p = g ∨ (ps.find? (·.group = g)).isSome then
      ps.map fun x =>
        if x.pid = p ∧ x.zombie = false then { x with group := g, home := homeOf ps g x.tag } else x
    else ps
  | .exit p => ps.filterMap fun x => if x.pid = p then ended x else some x
  | .reap p => ps.filter fun x => ¬ (x.pid = p ∧ x.child = true ∧ x.zombie = true)
  | .signal g => ps.filterMap fun x => if x.group = g then ended x else some x

/-- The processes that a signal to the group ends. -/
def hit (ps : List (Process ι)) (g : Nat) : List (Process ι) :=
  ps.filter fun p => p.group = g ∧ p.zombie = false

/-- The event gives the pid to a new process. -/
def Event.HandsOut (q : Nat) : Event ι → Prop
  | .start q' _ _ => q' = q
  | .fork _ q' => q' = q
  | _ => False

/-! ## Well-formed systems -/

structure WellFormed (ps : List (Process ι)) : Prop where
  nodup : (ps.map Process.pid).Nodup
  same : ∀ p ∈ ps, ∀ p' ∈ ps, p.group = p'.group → p.home = p'.home
  founder : ∀ p ∈ ps, ∀ f ∈ ps, p.group = f.pid → p.home = f.tag

variable {ps : List (Process ι)}

theorem wellFormed_nil : WellFormed ([] : List (Process ι)) :=
  ⟨List.nodup_nil, fun _ h => (nomatch h), fun _ h => (nomatch h)⟩

theorem mem_of_alive? {pid : Nat} {p : Process ι} (h : alive? ps pid = some p) :
    p ∈ ps ∧ p.pid = pid ∧ p.zombie = false := by
  have hp := List.find?_some h
  simp only [decide_eq_true_eq] at hp
  exact ⟨List.mem_of_find?_eq_some h, hp⟩

theorem WellFormed.eq_of_pid (h : WellFormed ps) {p p' : Process ι} (hp : p ∈ ps) (hp' : p' ∈ ps)
    (e : p.pid = p'.pid) : p = p' :=
  List.inj_on_of_nodup_map h.nodup hp hp' e

/-- Who is in the group of a process that is there bears its tag. -/
theorem home_of_founder (h : WellFormed ps) {f p : Process ι} (hf : f ∈ ps) (hp : p ∈ ps)
    (hg : p.group = f.pid) : p.home = f.tag :=
  h.founder p hp f hf hg

/-- A process that is left after a step was there before, up to its state of life. -/
theorem WellFormed.sublist {ps' : List (Process ι)} (h : WellFormed ps)
    (hpids : (ps'.map Process.pid).Sublist (ps.map Process.pid))
    (hold : ∀ x' ∈ ps', ∃ x ∈ ps, x'.pid = x.pid ∧ x'.group = x.group ∧ x'.tag = x.tag ∧
      x'.home = x.home) : WellFormed ps' where
  nodup := h.nodup.sublist hpids
  same := by
    intro p hp p' hp' hg
    obtain ⟨x, hx, -, hxg, -, hxh⟩ := hold p hp
    obtain ⟨y, hy, -, hyg, -, hyh⟩ := hold p' hp'
    rw [hxh, hyh]
    exact h.same x hx y hy (by rw [← hxg, ← hyg, hg])
  founder := by
    intro p hp f hf hg
    obtain ⟨x, hx, -, hxg, -, hxh⟩ := hold p hp
    obtain ⟨y, hy, hyp, -, hyt, -⟩ := hold f hf
    rw [hxh, hyt]
    exact h.founder x hx y hy (by rw [← hxg, ← hyp, hg])

theorem ended_eq_some {p p' : Process ι} (h : ended p = some p') :
    p' = { p with zombie := true } := by
  unfold ended at h
  split at h
  · exact (Option.some.inj h).symm
  · cases h

/-- What an ending leaves, whoever ends. -/
theorem of_endings {c : Process ι → Prop} [DecidablePred c] {x' : Process ι}
    (h : x' ∈ ps.filterMap fun x => if c x then ended x else some x) :
    ∃ x ∈ ps, (c x ∧ x.child = true ∧ x' = { x with zombie := true }) ∨ (¬ c x ∧ x' = x) := by
  obtain ⟨x, hx, he⟩ := List.mem_filterMap.mp h
  refine ⟨x, hx, ?_⟩
  split at he
  · unfold ended at he
    split at he
    · exact .inl ⟨‹_›, ‹_›, (Option.some.inj he).symm⟩
    · cases he
  · exact .inr ⟨‹_›, (Option.some.inj he).symm⟩

theorem pids_endings (c : Process ι → Prop) [DecidablePred c] (ps : List (Process ι)) :
    ((ps.filterMap fun x => if c x then ended x else some x).map Process.pid).Sublist
      (ps.map Process.pid) := by
  induction ps with
  | nil => exact .slnil
  | cons x ps ih =>
    rw [List.filterMap_cons]
    split
    · exact ih.cons _
    · rename_i x' hx'
      have hpid : x'.pid = x.pid := by
        split at hx'
        · rw [ended_eq_some hx']
        · rw [Option.some.inj hx']
      rw [List.map_cons, List.map_cons, hpid]
      exact ih.cons_cons _

theorem wellFormed_endings (h : WellFormed ps) (c : Process ι → Prop) [DecidablePred c] :
    WellFormed (ps.filterMap fun x => if c x then ended x else some x) := by
  refine h.sublist (pids_endings c ps) fun x' hx' => ?_
  obtain ⟨x, hx, ⟨-, -, rfl⟩ | ⟨-, rfl⟩⟩ := of_endings hx'
  · exact ⟨x, hx, rfl, rfl, rfl, rfl⟩
  · exact ⟨x', hx, rfl, rfl, rfl, rfl⟩

/-- A new process with a free pid, in a group of its own or in the group of another one. -/
theorem WellFormed.concat (h : WellFormed ps) {x : Process ι} (hfree : Free ps x.pid)
    (hgroup : (x.group = x.pid ∧ x.home = x.tag) ∨
      ∃ p ∈ ps, x.group = p.group ∧ x.home = p.home) : WellFormed (ps ++ [x]) where
  nodup := by
    rw [List.map_append, List.nodup_append]
    refine ⟨h.nodup, List.nodup_singleton _, ?_⟩
    intro a ha b hb e
    obtain ⟨p, hp, rfl⟩ := List.mem_map.mp ha
    rw [List.map_singleton, List.mem_singleton] at hb
    exact (hfree p hp).1 (e.trans hb)
  same := by
    have hnew : ∀ p ∈ ps, p.group = x.group → p.home = x.home := by
      intro p hp hg
      rcases hgroup with ⟨hown, -⟩ | ⟨m, hm, hmg, hmh⟩
      · exact absurd (hg.trans hown) (hfree p hp).2
      · rw [hmh]
        exact h.same p hp m hm (hg.trans hmg)
    intro p hp p' hp' hg
    rcases List.mem_append.mp hp with hp | hp <;> rcases List.mem_append.mp hp' with hp' | hp'
    · exact h.same p hp p' hp' hg
    · rw [List.mem_singleton.mp hp'] at hg ⊢
      exact hnew p hp hg
    · rw [List.mem_singleton.mp hp] at hg ⊢
      exact (hnew p' hp' hg.symm).symm
    · rw [List.mem_singleton.mp hp, List.mem_singleton.mp hp']
  founder := by
    intro p hp f hf hg
    rcases List.mem_append.mp hp with hp | hp <;> rcases List.mem_append.mp hf with hf | hf
    · exact h.founder p hp f hf hg
    · rw [List.mem_singleton.mp hf] at hg
      exact absurd hg (hfree p hp).2
    · rw [List.mem_singleton.mp hp] at hg ⊢
      rcases hgroup with ⟨hown, -⟩ | ⟨m, hm, hmg, hmh⟩
      · exact absurd (hg.symm.trans hown) (hfree f hf).1
      · rw [hmh]
        exact h.founder m hm f hf (hmg.symm.trans hg)
    · rw [List.mem_singleton.mp hp, List.mem_singleton.mp hf] at hg ⊢
      rcases hgroup with ⟨-, hhome⟩ | ⟨m, hm, hmg, -⟩
      · exact hhome
      · exact absurd (hmg.symm.trans hg) (hfree m hm).2

theorem homeOf_of_mem (h : WellFormed ps) {g : Nat} {tag : Option ι} {p : Process ι} (hp : p ∈ ps)
    (hg : p.group = g) : homeOf ps g tag = p.home := by
  unfold homeOf
  cases hfind : ps.find? (·.group = g) with
  | none =>
    rw [List.find?_eq_none] at hfind
    exact absurd (decide_eq_true hg) (hfind p hp)
  | some member =>
    have hm := List.find?_some hfind
    simp only [decide_eq_true_eq] at hm
    exact h.same member (List.mem_of_find?_eq_some hfind) p hp (hm.trans hg.symm)

theorem homeOf_of_none {g : Nat} {tag : Option ι} (h : ∀ p ∈ ps, p.group ≠ g) :
    homeOf ps g tag = tag := by
  unfold homeOf
  rw [List.find?_eq_none.mpr fun p hp => by simpa using h p hp]

/-- The tag of a group that a process may enter: that of its founder, where the founder is there. -/
theorem homeOf_founder (h : WellFormed ps) {g : Nat} {x f : Process ι} (hx : x ∈ ps)
    (hen : x.pid = g ∨ (ps.find? (·.group = g)).isSome = true) (hf : f ∈ ps) (hg : g = f.pid) :
    homeOf ps g x.tag = f.tag := by
  by_cases hmember : ∃ p ∈ ps, p.group = g
  · obtain ⟨p, hp, hpg⟩ := hmember
    rw [homeOf_of_mem h hp hpg]
    exact h.founder p hp f hf (hpg.trans hg)
  · have hnone : ∀ p ∈ ps, p.group ≠ g := fun p hp e => hmember ⟨p, hp, e⟩
    rw [homeOf_of_none hnone]
    rcases hen with hpid | hsome
    · rw [h.eq_of_pid hx hf (hpid.trans hg)]
    · rw [List.find?_isSome] at hsome
      obtain ⟨p, hp, hpg⟩ := hsome
      exact absurd (of_decide_eq_true hpg) (hnone p hp)

theorem WellFormed.step (h : WellFormed ps) (e : Event ι) : WellFormed (step ps e) := by
  cases e with
  | start q tag child =>
    simp only [Processes.step]
    split
    · exact h.concat ‹_› (.inl ⟨rfl, rfl⟩)
    · exact h
  | fork p q =>
    simp only [Processes.step]
    split
    · rename_i parent hparent
      split
      · exact h.concat ‹_› (.inr ⟨parent, (mem_of_alive? hparent).1, rfl, rfl⟩)
      · exact h
    · exact h
  | regroup p g =>
    simp only [Processes.step]
    split
    · rename_i hen
      -- Who has moved is in a group whose members, if any, bear the tag that it is given.
      have hmoved : ∀ x ∈ ps, x.pid = p → ∀ y ∈ ps, y.group = g → homeOf ps g x.tag = y.home :=
        fun x hx _ y hy hy' => homeOf_of_mem h hy hy'
      have hpids : (ps.map fun x => if x.pid = p ∧ x.zombie = false then
          { x with group := g, home := homeOf ps g x.tag } else x).map Process.pid =
            ps.map Process.pid := by
        rw [List.map_map]
        refine List.map_congr_left fun x _ => ?_
        simp only [Function.comp]
        split <;> rfl
      refine ⟨by rw [hpids]; exact h.nodup, ?_, ?_⟩
      · intro a ha b hb hg
        obtain ⟨x, hx, rfl⟩ := List.mem_map.mp ha
        obtain ⟨y, hy, rfl⟩ := List.mem_map.mp hb
        by_cases hxm : x.pid = p ∧ x.zombie = false <;> by_cases hym : y.pid = p ∧ y.zombie = false
        · rw [h.eq_of_pid hx hy (hxm.1.trans hym.1.symm)]
        · rw [if_pos hxm, if_neg hym] at hg ⊢
          exact hmoved x hx hxm.1 y hy hg.symm
        · rw [if_neg hxm, if_pos hym] at hg ⊢
          exact (hmoved y hy hym.1 x hx hg).symm
        · rw [if_neg hxm, if_neg hym] at hg ⊢
          exact h.same x hx y hy hg
      · intro a ha b hb hg
        obtain ⟨x, hx, rfl⟩ := List.mem_map.mp ha
        obtain ⟨y, hy, rfl⟩ := List.mem_map.mp hb
        have hpid : ∀ z : Process ι, (if z.pid = p ∧ z.zombie = false then
            { z with group := g, home := homeOf ps g z.tag } else z).pid = z.pid := by
          intro z
          split <;> rfl
        have htag : ∀ z : Process ι, (if z.pid = p ∧ z.zombie = false then
            { z with group := g, home := homeOf ps g z.tag } else z).tag = z.tag := by
          intro z
          split <;> rfl
        rw [hpid] at hg
        rw [htag]
        by_cases hxm : x.pid = p ∧ x.zombie = false
        · rw [if_pos hxm] at hg ⊢
          exact homeOf_founder h hx (hen.imp (fun e => hxm.1.trans e) id) hy hg
        · rw [if_neg hxm] at hg ⊢
          exact h.founder x hx y hy hg
    · exact h
  | exit p => exact wellFormed_endings h fun x => x.pid = p
  | reap p =>
    exact h.sublist (List.filter_sublist.map _)
      fun x' hx' => ⟨x', List.mem_of_mem_filter hx', rfl, rfl, rfl, rfl⟩
  | signal g => exact wellFormed_endings h fun x => x.group = g

/-! ## Founders that stay, and groups that outlive them -/

/-- A child stays until its parent waits for it. -/
theorem child_stays {f : Process ι} (hf : f ∈ ps) (hchild : f.child = true) {e : Event ι}
    (he : e ≠ .reap f.pid) :
    ∃ f' ∈ step ps e, f'.pid = f.pid ∧ f'.tag = f.tag ∧ f'.child = true := by
  have hended : ∀ c : Process ι → Prop, ∀ [DecidablePred c],
      ∃ f' ∈ ps.filterMap fun x => if c x then ended x else some x,
        f'.pid = f.pid ∧ f'.tag = f.tag ∧ f'.child = true := by
    intro c _
    by_cases hc : c f
    · refine ⟨{ f with zombie := true }, List.mem_filterMap.mpr ⟨f, hf, ?_⟩, rfl, rfl, hchild⟩
      rw [if_pos hc, ended, if_pos hchild]
    · exact ⟨f, List.mem_filterMap.mpr ⟨f, hf, if_neg hc⟩, rfl, rfl, hchild⟩
  cases e with
  | start q tag child =>
    simp only [step]
    split
    · exact ⟨f, List.mem_append_left _ hf, rfl, rfl, hchild⟩
    · exact ⟨f, hf, rfl, rfl, hchild⟩
  | fork p q =>
    simp only [step]
    split
    · split
      · exact ⟨f, List.mem_append_left _ hf, rfl, rfl, hchild⟩
      · exact ⟨f, hf, rfl, rfl, hchild⟩
    · exact ⟨f, hf, rfl, rfl, hchild⟩
  | regroup p g =>
    simp only [step]
    split
    · refine ⟨_, List.mem_map_of_mem hf, ?_⟩
      split <;> exact ⟨rfl, rfl, hchild⟩
    · exact ⟨f, hf, rfl, rfl, hchild⟩
  | exit p => exact hended fun x => x.pid = p
  | reap p =>
    refine ⟨f, List.mem_filter.mpr ⟨hf, decide_eq_true ?_⟩, rfl, rfl, hchild⟩
    rintro ⟨hp, -⟩
    exact he (by rw [hp])
  | signal g => exact hended fun x => x.group = g

/-- The founder of the group is gone, and all who are left in the group bear its tag. -/
structure Settled (ps : List (Process ι)) (q : Nat) (tag : Option ι) : Prop where
  gone : ∀ p ∈ ps, p.pid ≠ q
  homes : ∀ p ∈ ps, p.group = q → p.home = tag

theorem settled_reap (h : WellFormed ps) {f : Process ι} (hf : f ∈ ps) (hchild : f.child = true)
    (hz : f.zombie = true) : Settled (step ps (.reap f.pid)) f.pid f.tag where
  gone := by
    intro p hp e
    obtain ⟨hp, hno⟩ := List.mem_filter.mp hp
    rw [h.eq_of_pid hp hf e] at hno
    exact of_decide_eq_true hno ⟨rfl, hchild, hz⟩
  homes := fun p hp hg => h.founder p (List.mem_of_mem_filter hp) f hf hg

theorem Settled.of_endings {q : Nat} {tag : Option ι} (h : Settled ps q tag) (c : Process ι → Prop)
    [DecidablePred c] : Settled (ps.filterMap fun x => if c x then ended x else some x) q tag where
  gone := by
    intro p hp
    obtain ⟨x, hx, ⟨-, -, rfl⟩ | ⟨-, rfl⟩⟩ := Processes.of_endings hp
    · exact h.gone x hx
    · exact h.gone p hx
  homes := by
    intro p hp
    obtain ⟨x, hx, ⟨-, -, rfl⟩ | ⟨-, rfl⟩⟩ := Processes.of_endings hp
    · exact h.homes x hx
    · exact h.homes p hx

/-- The group stays settled until its pid is handed out again. -/
theorem Settled.step {q : Nat} {tag : Option ι} (h : Settled ps q tag) {e : Event ι}
    (he : ¬ e.HandsOut q) : Settled (step ps e) q tag := by
  have hadd : ∀ x : Process ι, x.pid ≠ q → (x.group = q → x.home = tag) →
      Settled (ps ++ [x]) q tag := by
    intro x hpid hhome
    constructor
    · intro p hp
      rcases List.mem_append.mp hp with hp | hp
      · exact h.gone p hp
      · rw [List.mem_singleton.mp hp]
        exact hpid
    · intro p hp hg
      rcases List.mem_append.mp hp with hp | hp
      · exact h.homes p hp hg
      · rw [List.mem_singleton.mp hp] at hg ⊢
        exact hhome hg
  cases e with
  | start q' tag' child =>
    simp only [Processes.step]
    split
    · exact hadd _ he fun hg => absurd hg he
    · exact h
  | fork p q' =>
    simp only [Processes.step]
    split
    · rename_i parent hparent
      split
      · exact hadd _ he fun hg => h.homes parent (mem_of_alive? hparent).1 hg
      · exact h
    · exact h
  | regroup p g =>
    simp only [Processes.step]
    split
    · rename_i hen
      constructor
      · intro x hx
        obtain ⟨y, hy, rfl⟩ := List.mem_map.mp hx
        split <;> exact h.gone y hy
      · intro x hx hg
        obtain ⟨y, hy, rfl⟩ := List.mem_map.mp hx
        by_cases hym : y.pid = p ∧ y.zombie = false
        · rw [if_pos hym] at hg ⊢
          -- Nobody can found the group, so somebody was in it.
          have hg' : g = q := hg
          rcases hen with hown | hsome
          · exact absurd ((hym.1.trans hown).trans hg') (h.gone y hy)
          · rw [List.find?_isSome] at hsome
            obtain ⟨m, hm, hmg⟩ := hsome
            show homeOf ps g y.tag = tag
            unfold homeOf
            cases hfind : ps.find? (·.group = g) with
            | none =>
              rw [List.find?_eq_none] at hfind
              exact absurd hmg (hfind m hm)
            | some member =>
              have hin := List.find?_some hfind
              simp only [decide_eq_true_eq] at hin
              exact h.homes member (List.mem_of_find?_eq_some hfind) (hin.trans hg')
        · rw [if_neg hym] at hg ⊢
          exact h.homes y hy hg
    · exact h
  | exit p => exact h.of_endings fun x => x.pid = p
  | reap p =>
    exact ⟨fun x hx => h.gone x (List.mem_of_mem_filter hx),
      fun x hx => h.homes x (List.mem_of_mem_filter hx)⟩
  | signal g => exact h.of_endings fun x => x.group = g

/-- A signal leaves nobody of the group alive. -/
theorem zombie_of_signal {g : Nat} {p : Process ι} (hp : p ∈ step ps (.signal g))
    (hg : p.group = g) : p.zombie = true := by
  obtain ⟨x, -, ⟨-, -, rfl⟩ | ⟨hne, rfl⟩⟩ := of_endings hp
  · rfl
  · exact absurd hg hne

end AgentDaemon.Processes
