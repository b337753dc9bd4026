import AgentDaemon.Ids
import AgentDaemon.Lib.Disk
import AgentDaemon.Lib.Slots
import AgentDaemon.Lib.Transition

/-!
The outputs of tools that are too long for the log. `store_tool_output` keeps each in a file named
by its digest: written to a temporary file, synced, renamed, and the directory synced. Processes,
their calls and power losses interleave in any way; a process that is killed is one whose calls take
no more steps. A file under a digest is complete at every moment (`artifacts_safe`).
-/

namespace AgentDaemon.Storage.Artifacts

open Transition Slots

abbrev Digest := List UInt8

/-- The names of the directory. -/
inductive ArtifactName where
  | target (digest : Digest)
  | temporary (digest : Digest) (pid counter : Nat)
  deriving DecidableEq

/-- `format!("{:x}")` of a digest. -/
def hexDigits (digest : Digest) : List Char :=
  digest.flatMap fun b => [Nat.digitChar (b.toNat / 16), Nat.digitChar (b.toNat % 16)]

def ArtifactName.fileName : ArtifactName → List Char
  | target digest => "sha256-".toList ++ hexDigits digest ++ ".txt".toList
  | temporary digest pid counter =>
    '.' :: hexDigits digest ++ '-' :: (toString pid).toList ++ '-' :: (toString counter).toList ++
      ".tmp".toList

theorem digitChar_inj : ∀ m < 16, ∀ n < 16, Nat.digitChar m = Nat.digitChar n → m = n := by decide

theorem hexDigits_injective : Function.Injective hexDigits := by
  intro d
  induction d with
  | nil =>
    intro d' h
    cases d' with
    | nil => rfl
    | cons b' d' => cases h
  | cons b d ih =>
    intro d' h
    cases d' with
    | nil => cases h
    | cons b' d' =>
      simp only [hexDigits, List.flatMap_cons, List.cons_append, List.nil_append,
        List.cons.injEq] at h
      obtain ⟨hhigh, hlow, hrest⟩ := h
      have hb := b.toNat_lt
      have hb' := b'.toNat_lt
      have h1 := digitChar_inj _ (by omega) _ (by omega) hhigh
      have h2 := digitChar_inj _ (by omega) _ (by omega) hlow
      rw [UInt8.toNat_inj.mp (show b.toNat = b'.toNat by omega), ih hrest]

/-- Different names are different files. -/
theorem ArtifactName.fileName_injective : Function.Injective fileName := by
  intro a a' h
  cases a with
  | target d =>
    cases a' with
    | target d' =>
      have hd := List.append_cancel_right (List.append_cancel_left
        ((List.append_assoc ..).symm.trans (h.trans (List.append_assoc ..))))
      rw [hexDigits_injective hd]
    | temporary d' pid' k' => exact absurd (List.cons.inj h).1 (by decide)
  | temporary d pid k =>
    cases a' with
    | target d' => exact absurd (List.cons.inj h).1 (by decide)
    | temporary d' pid' k' =>
      have hk := append_number_inj (by decide) (List.append_cancel_right h)
      have hpid := append_number_inj (by decide) hk.1
      rw [hexDigits_injective (List.cons.inj hpid.1).2, hpid.2, hk.2]

/-- Where a call is. `counter` is its number in `NEXT_ARTIFACT`, and `node` its temporary file. -/
inductive Phase where
  | checking
  | creating (counter : Nat)
  | writing (counter node : Nat)
  | syncing (counter node : Nat)
  | replacing (counter node : Nat)
  | syncingDir (counter : Nat)
  | removing (counter : Nat)
  /-- Returned the path, of a file that the call has put there, or that was there. -/
  | stored
  | found
  | failed
  | lost
  deriving DecidableEq

structure StoreCall where
  pid : Nat
  content : List UInt8
  phase : Phase

structure ArtifactDir where
  disk : Disk ArtifactName := {}
  /-- `NEXT_ARTIFACT` of the process that has the id. -/
  nextArtifact : Nat → Nat := fun _ => 0
  calls : List StoreCall := []

inductive Event where
  /-- A process starts. The former one with its id is gone, and its calls with it. -/
  | exec (pid : Nat)
  | call (pid : Nat) (content : List UInt8)
  /-- Call `i` takes its next step. A fault makes it fail, a write after as many bytes. -/
  | step (i : Nat) (fault : Option Nat)
  | powerLoss (pick : ArtifactName → Nat) (garble : Nat → List UInt8)

section Model

variable (sha256 : List UInt8 → Digest)

def StoreCall.target (c : StoreCall) : ArtifactName := .target (sha256 c.content)

def StoreCall.temporary (c : StoreCall) (counter : Nat) : ArtifactName :=
  .temporary (sha256 c.content) c.pid counter

namespace ArtifactDir

variable (s : ArtifactDir)

def setPhase (i : Nat) (phase : Phase) : ArtifactDir :=
  { s with calls := s.calls.modify i fun c => { c with phase } }

/-- The next step of `store_tool_output` in call `i`. -/
def stepCall (i : Nat) (c : StoreCall) (fault : Option Nat) : ArtifactDir :=
  match c.phase with
  | .checking =>
    if fault.isSome then s.setPhase i .failed
    else if (s.disk.live (c.target sha256)).isSome then s.setPhase i .found
    else
      { s.setPhase i (.creating (s.nextArtifact c.pid)) with
        nextArtifact := Function.update s.nextArtifact c.pid (s.nextArtifact c.pid + 1) }
  | .creating counter =>
    if fault.isSome ∨ (s.disk.live (c.temporary sha256 counter)).isSome then
      s.setPhase i (.removing counter)
    else
      { s.setPhase i (.writing counter s.disk.fresh) with
        disk := s.disk.create (c.temporary sha256 counter) }
  | .writing counter node =>
    match fault with
    | some short =>
      { s.setPhase i (.removing counter) with disk := s.disk.write node (c.content.take short) }
    | none => { s.setPhase i (.syncing counter node) with disk := s.disk.write node c.content }
  | .syncing counter node =>
    if fault.isSome then s.setPhase i (.removing counter)
    else { s.setPhase i (.replacing counter node) with disk := s.disk.syncFile node }
  | .replacing counter node =>
    if fault.isSome then s.setPhase i (.removing counter)
    else
      { s.setPhase i (.syncingDir counter) with
        disk := s.disk.rename (c.temporary sha256 counter) (c.target sha256) node }
  | .syncingDir counter =>
    if fault.isSome then s.setPhase i (.removing counter)
    else { s.setPhase i .stored with disk := s.disk.syncDir }
  | .removing counter =>
    if fault.isSome then s.setPhase i .failed
    else { s.setPhase i .failed with disk := s.disk.link (c.temporary sha256 counter) none }
  | .stored | .found | .failed | .lost => s

def next (s : ArtifactDir) : Event → ArtifactDir
  | .exec pid =>
    { s with
      nextArtifact := Function.update s.nextArtifact pid 0
      calls := s.calls.map fun c => if c.pid = pid then { c with phase := .lost } else c }
  | .call pid content => { s with calls := s.calls ++ [⟨pid, content, .checking⟩] }
  | .step i fault =>
    match s.calls[i]? with
    | none => s
    | some c => s.stepCall sha256 i c fault
  | .powerLoss pick garble =>
    { s with
      disk := s.disk.lose pick garble
      calls := s.calls.map fun c => { c with phase := .lost } }

end ArtifactDir

end Model

/-! ## What a call has -/

/-- The number of the temporary file of a call that has one or is about to. -/
def Phase.counter : Phase → Option Nat
  | .creating k | .writing k _ | .syncing k _ | .replacing k _ | .syncingDir k | .removing k =>
    some k
  | _ => none

/-- The temporary file that a call is still writing. -/
def Phase.node : Phase → Option Nat
  | .writing _ n | .syncing _ n | .replacing _ n => some n
  | _ => none

/-- The call has seen or put its file under the digest. -/
def Phase.placed : Phase → Bool
  | .syncingDir _ | .stored | .found => true
  | _ => false

section Invariant

variable (sha256 : List UInt8 → Digest)

/-- What holds of each call. A node that is still written belongs to no digest. -/
structure CallInv (s : ArtifactDir) (c : StoreCall) : Prop where
  counted : ∀ k, c.phase.counter = some k → k < s.nextArtifact c.pid
  used : ∀ n, c.phase.node = some n → n < s.disk.fresh
  temporary : ∀ n, c.phase.node = some n → ∀ digest, some n ∉ s.disk.ages (.target digest)
  written : ∀ k n, c.phase = .syncing k n ∨ c.phase = .replacing k n → s.disk.files n = c.content
  synced : ∀ k n, c.phase = .replacing k n → s.disk.synced n = true
  placed : c.phase.placed = true → (s.disk.live (c.target sha256)).isSome

/-- Two calls that are not over have temporary files of their own. -/
structure Apart (c c' : StoreCall) : Prop where
  counter : ∀ k, c.phase.counter = some k → c'.phase.counter = some k → c.pid ≠ c'.pid
  node : ∀ n, c.phase.node = some n → c'.phase.node ≠ some n

structure Inv (s : ArtifactDir) : Prop where
  sound : s.disk.Sound
  /-- Whatever a digest may be found to be is complete and safe. -/
  complete : ∀ digest n, some n ∈ s.disk.ages (.target digest) →
    s.disk.synced n = true ∧ sha256 (s.disk.files n) = digest
  calls : ∀ (i : Nat) c, s.calls[i]? = some c → CallInv sha256 s c
  apart : ∀ (i j : Nat) c c', i ≠ j → s.calls[i]? = some c → s.calls[j]? = some c' → Apart c c'

end Invariant

section Steps

variable {sha256 : List UInt8 → Digest} {s s' : ArtifactDir} {c c' : StoreCall} {i : Nat}

theorem Apart.symm (h : Apart c c') : Apart c' c :=
  ⟨fun k hk hk' => (h.counter k hk' hk).symm, fun n hn hn' => h.node n hn' hn⟩

/-- A step that leaves the temporary file of a call alone, and every digest that is there. -/
theorem CallInv.mono (h : CallInv sha256 s c)
    (hnext : ∀ pid, s.nextArtifact pid ≤ s'.nextArtifact pid)
    (hfresh : s.disk.fresh ≤ s'.disk.fresh)
    (hnode : ∀ n, c.phase.node = some n → s'.disk.files n = s.disk.files n ∧
      s'.disk.synced n = s.disk.synced n ∧
      ∀ digest, some n ∈ s'.disk.ages (.target digest) → some n ∈ s.disk.ages (.target digest))
    (hlive : ∀ digest, (s.disk.live (.target digest)).isSome →
      (s'.disk.live (.target digest)).isSome) : CallInv sha256 s' c where
  counted k hk := Nat.lt_of_lt_of_le (h.counted k hk) (hnext _)
  used n hn := Nat.lt_of_lt_of_le (h.used n hn) hfresh
  temporary n hn digest hmem := h.temporary n hn digest ((hnode n hn).2.2 digest hmem)
  written k n hk := by
    have hn : c.phase.node = some n := by rcases hk with hk | hk <;> rw [hk] <;> rfl
    rw [(hnode n hn).1, h.written k n hk]
  synced k n hk := by
    have hn : c.phase.node = some n := by rw [hk]; rfl
    rw [(hnode n hn).2.1, h.synced k n hk]
  placed hp := hlive _ (h.placed hp)

/-- Call `i` goes to a phase. -/
theorem Inv.update (h : Inv sha256 s) (hi : s.calls[i]? = some c) {phase : Phase}
    (hcalls : s'.calls = s.calls.modify i fun c => { c with phase }) (hsound : s'.disk.Sound)
    (hcomplete : ∀ digest n, some n ∈ s'.disk.ages (.target digest) →
      s'.disk.synced n = true ∧ sha256 (s'.disk.files n) = digest)
    (hself : CallInv sha256 s' { c with phase })
    (hother : ∀ c', CallInv sha256 s c' → Apart c c' → CallInv sha256 s' c')
    (hapart : ∀ c', CallInv sha256 s c' → Apart c c' → Apart { c with phase } c') :
    Inv sha256 s' where
  sound := hsound
  complete := hcomplete
  calls j d hd := by
    rw [hcalls] at hd
    obtain ⟨x, hx, rfl⟩ := of_modify hd
    split
    · rename_i hji
      subst hji
      cases hi.symm.trans hx
      exact hself
    · rename_i hji
      exact hother x (h.calls j x hx) (h.apart i j c x (Ne.symm hji) hi hx)
  apart j k d d' hjk hd hd' := by
    rw [hcalls] at hd hd'
    obtain ⟨x, hx, rfl⟩ := of_modify hd
    obtain ⟨y, hy, rfl⟩ := of_modify hd'
    by_cases hj : j = i
    · subst hj
      cases hi.symm.trans hx
      rw [if_pos rfl, if_neg (Ne.symm hjk)]
      exact hapart y (h.calls k y hy) (h.apart j k c y hjk hi hy)
    · by_cases hk : k = i
      · subst hk
        cases hi.symm.trans hy
        rw [if_neg hj, if_pos rfl]
        exact (hapart x (h.calls j x hx) (h.apart k j c x (Ne.symm hjk) hi hx)).symm
      · rw [if_neg hj, if_neg hk]
        exact h.apart j k x y hjk hx hy

/-- A phase that has no more than the one before. -/
theorem Apart.weaken (h : Apart c c') {phase : Phase}
    (hcounter : ∀ k, phase.counter = some k → c.phase.counter = some k)
    (hnode : ∀ n, phase.node = some n → c.phase.node = some n) : Apart { c with phase } c' :=
  ⟨fun k hk => h.counter k (hcounter k hk), fun n hn => h.node n (hnode n hn)⟩

/-- Only the phase of a call changes. -/
theorem Inv.setPhase (h : Inv sha256 s) (hi : s.calls[i]? = some c) {phase : Phase}
    (hcounter : ∀ k, phase.counter = some k → c.phase.counter = some k)
    (hnode : phase.node = none)
    (hplaced : phase.placed = true → (s.disk.live (c.target sha256)).isSome) :
    Inv sha256 (s.setPhase i phase) := by
  refine h.update hi rfl h.sound h.complete ?_ ?_ ?_
  · refine ⟨fun k hk => (h.calls i c hi).counted k (hcounter k hk), ?_, ?_, ?_, ?_, hplaced⟩
    · intro n hn
      rw [hnode] at hn
      cases hn
    · intro n hn
      rw [hnode] at hn
      cases hn
    · rintro k n (hk | hk) <;> dsimp only at hk <;> rw [hk] at hnode <;> cases hnode
    · intro k n hk
      dsimp only at hk
      rw [hk] at hnode
      cases hnode
  · exact fun c' hc' _ => hc'.mono (fun _ => Nat.le_refl _) (Nat.le_refl _)
      (fun n _ => ⟨rfl, rfl, fun _ => id⟩) fun _ => id
  · refine fun c' _ ha => ha.weaken hcounter fun n hn => ?_
    rw [hnode] at hn
    cases hn

theorem target_ne_temporary (digest : Digest) (counter : Nat) :
    ArtifactName.target digest ≠ c.temporary sha256 counter := by
  rintro ⟨⟩

/-- A call takes a number that no call of its process has had. -/
theorem Inv.number (h : Inv sha256 s) (hi : s.calls[i]? = some c) :
    Inv sha256 { s.setPhase i (.creating (s.nextArtifact c.pid)) with
      nextArtifact := Function.update s.nextArtifact c.pid (s.nextArtifact c.pid + 1) } := by
  have hnext : ∀ pid, s.nextArtifact pid ≤
      Function.update s.nextArtifact c.pid (s.nextArtifact c.pid + 1) pid := by
    intro pid
    by_cases hpid : pid = c.pid
    · subst hpid
      rw [Function.update_self]
      exact Nat.le_succ _
    · exact Nat.le_of_eq (Function.update_of_ne hpid _ _).symm
  refine h.update hi rfl h.sound h.complete ?_ ?_ ?_
  · refine ⟨fun k hk => ?_, by simp [Phase.node], by simp [Phase.node], by simp, by simp,
      by simp [Phase.placed]⟩
    cases hk
    dsimp only
    rw [Function.update_self]
    exact Nat.lt_succ_self _
  · exact fun c' hc' _ => hc'.mono hnext (Nat.le_refl _) (fun n _ => ⟨rfl, rfl, fun _ => id⟩)
      fun _ => id
  · refine fun c' hc' _ => ⟨fun k hk hk' hpid => ?_, by simp [Phase.node]⟩
    cases hk
    have hlt := hc'.counted _ hk'
    have hpid' : c.pid = c'.pid := hpid
    rw [hpid'] at hlt
    exact Nat.lt_irrefl _ hlt

/-- A call creates its temporary file. -/
theorem Inv.create (h : Inv sha256 s) (hi : s.calls[i]? = some c) {counter : Nat}
    (hphase : c.phase = .creating counter) :
    Inv sha256 { s.setPhase i (.writing counter s.disk.fresh) with
      disk := s.disk.create (c.temporary sha256 counter) } := by
  have hages : ∀ digest n, some n ∈ (s.disk.create (c.temporary sha256 counter)).ages
      (.target digest) → some n ∈ s.disk.ages (.target digest) := by
    intro digest n hn
    rcases Disk.mem_ages_create.mp hn with ⟨hname, -⟩ | hn
    · cases hname
    · exact hn
  have hfiles : ∀ n, n < s.disk.fresh → (s.disk.create (c.temporary sha256 counter)).files n =
      s.disk.files n ∧ (s.disk.create (c.temporary sha256 counter)).synced n = s.disk.synced n := by
    intro n hn
    exact ⟨Function.update_of_ne (Nat.ne_of_lt hn) _ _, Function.update_of_ne (Nat.ne_of_lt hn) _ _⟩
  refine h.update hi rfl (h.sound.create _) ?_ ?_ ?_ ?_
  · intro digest n hn
    obtain ⟨hf, hs⟩ := hfiles n (h.sound.used _ n (hages digest n hn))
    dsimp only
    rw [hf, hs]
    exact h.complete digest n (hages digest n hn)
  · refine ⟨fun k hk => (h.calls i c hi).counted k (by rw [hphase]; exact hk), fun n hn => ?_,
      fun n hn digest hmem => ?_, by simp, by simp, by simp [Phase.placed]⟩
    · cases hn
      exact Nat.lt_succ_self _
    · cases hn
      exact Nat.lt_irrefl _ (h.sound.used _ _ (hages digest _ hmem))
  · refine fun c' hc' _ => hc'.mono (fun _ => Nat.le_refl _) (Nat.le_succ _) (fun n hn => ?_) ?_
    · obtain ⟨hf, hs⟩ := hfiles n (hc'.used n hn)
      exact ⟨hf, hs, fun digest => hages digest n⟩
    · intro digest hlive
      dsimp only
      rwa [Disk.live_create_ne (target_ne_temporary _ _)]
  · refine fun c' hc' ha =>
      ⟨fun k hk => ha.counter k (by rw [hphase]; exact hk), fun n hn hn' => ?_⟩
    cases hn
    exact Nat.lt_irrefl _ (hc'.used _ hn')

/-- What a call does to the bytes of its own temporary file. -/
theorem Inv.file (h : Inv sha256 s) (hi : s.calls[i]? = some c) {node : Nat}
    {disk : Disk ArtifactName} {phase : Phase} (hnode : c.phase.node = some node)
    (hlive : disk.live = s.disk.live)
    (hages : disk.ages = s.disk.ages) (hfresh : disk.fresh = s.disk.fresh)
    (hfiles : ∀ n ≠ node, disk.files n = s.disk.files n ∧ disk.synced n = s.disk.synced n)
    (hcounter : ∀ k, phase.counter = some k → c.phase.counter = some k)
    (hkeep : ∀ n, phase.node = some n → n = node)
    (hwritten : ∀ k n, phase = .syncing k n ∨ phase = .replacing k n → disk.files node = c.content)
    (hsynced : ∀ k n, phase = .replacing k n → disk.synced node = true)
    (hplaced : phase.placed = false) :
    Inv sha256 { s.setPhase i phase with disk } := by
  have hc := h.calls i c hi
  have hsound : disk.Sound :=
    ⟨by rw [hlive, hages]; exact h.sound.current, by rw [hages, hfresh]; exact h.sound.used⟩
  refine h.update hi rfl hsound ?_ ?_ ?_ ?_
  · intro digest n hn
    dsimp only at hn ⊢
    rw [hages] at hn
    have hne : n ≠ node := by
      rintro rfl
      exact hc.temporary n hnode digest hn
    rw [(hfiles n hne).1, (hfiles n hne).2]
    exact h.complete digest n hn
  · refine ⟨fun k hk => hc.counted k (hcounter k hk), fun n hn => ?_, fun n hn => ?_,
      fun k n hk => ?_, fun k n hk => ?_, fun hp => ?_⟩
    · dsimp only
      rw [hkeep n hn, hfresh]
      exact hc.used node hnode
    · dsimp only
      rw [hkeep n hn, hages]
      exact hc.temporary node hnode
    · have hn : phase.node = some n := by
        rcases hk with hk | hk <;> dsimp only at hk <;> rw [hk] <;> rfl
      rw [hkeep n hn]
      exact hwritten k n hk
    · have hn : phase.node = some n := by dsimp only at hk; rw [hk]; rfl
      rw [hkeep n hn]
      exact hsynced k n hk
    · dsimp only at hp
      rw [hplaced] at hp
      cases hp
  · refine fun c' hc' ha => hc'.mono (fun _ => Nat.le_refl _) (Nat.le_of_eq hfresh.symm)
      (fun n hn => ?_) fun digest hd => ?_
    · have hne : n ≠ node := by
        rintro rfl
        exact ha.node n hnode hn
      refine ⟨(hfiles n hne).1, (hfiles n hne).2, fun digest hmem => ?_⟩
      dsimp only at hmem
      rwa [hages] at hmem
    · dsimp only
      rwa [hlive]
  · exact fun c' _ ha => ha.weaken hcounter fun n hn => by rw [hkeep n hn, hnode]

theorem live_target (d : Disk ArtifactName) (counter node : Nat) :
    (d.rename (c.temporary sha256 counter) (c.target sha256) node).live (c.target sha256) =
      some node := Disk.live_rename (target_ne_temporary _ _)

/-- The file of a call gets the name of its digest. -/
theorem Inv.rename (h : Inv sha256 s) (hi : s.calls[i]? = some c) {counter node : Nat}
    (hphase : c.phase = .replacing counter node) :
    Inv sha256 { s.setPhase i (.syncingDir counter) with
      disk := s.disk.rename (c.temporary sha256 counter) (c.target sha256) node } := by
  have hc := h.calls i c hi
  have hnode : c.phase.node = some node := by rw [hphase]; rfl
  have hages : ∀ digest n, some n ∈ (s.disk.rename (c.temporary sha256 counter) (c.target sha256)
      node).ages (.target digest) →
      (n = node ∧ sha256 c.content = digest) ∨ some n ∈ s.disk.ages (.target digest) := by
    intro digest n hn
    rcases Disk.mem_ages_rename.mp hn with ⟨-, he⟩ | ⟨hname, he⟩ | hn
    · cases he
    · cases he
      exact .inl ⟨rfl, (ArtifactName.target.inj hname).symm⟩
    · exact .inr hn
  have hlive : ∀ digest, (s.disk.live (.target digest)).isSome →
      ((s.disk.rename (c.temporary sha256 counter) (c.target sha256) node).live
        (.target digest)).isSome := by
    intro digest hd
    by_cases hdigest : ArtifactName.target digest = c.target sha256
    · rw [hdigest, live_target]
      rfl
    · rwa [Disk.live_rename_ne (target_ne_temporary _ _) hdigest]
  refine h.update hi rfl (h.sound.rename (hc.used node hnode)) ?_ ?_ ?_ ?_
  · intro digest n hn
    rcases hages digest n hn with ⟨rfl, rfl⟩ | hn
    · exact ⟨hc.synced counter n hphase, congrArg sha256 (hc.written counter n (.inr hphase))⟩
    · exact h.complete digest n hn
  · refine ⟨fun k hk => hc.counted k (by rw [hphase]; exact hk), by simp [Phase.node],
      by simp [Phase.node], by simp, by simp, fun _ => ?_⟩
    show (Disk.live _ (c.target sha256)).isSome = true
    rw [live_target]
    rfl
  · refine fun c' hc' ha => hc'.mono (fun _ => Nat.le_refl _) (Nat.le_refl _)
      (fun n hn => ⟨rfl, rfl, fun digest hmem => ?_⟩) hlive
    rcases hages digest n hmem with ⟨rfl, -⟩ | hmem
    · exact absurd hn (ha.node n hnode)
    · exact hmem
  · exact fun c' _ ha => ha.weaken (fun k hk => by rw [hphase]; exact hk) (by simp [Phase.node])

theorem Inv.syncDir (h : Inv sha256 s) (hi : s.calls[i]? = some c) {counter : Nat}
    (hphase : c.phase = .syncingDir counter) :
    Inv sha256 { s.setPhase i .stored with disk := s.disk.syncDir } := by
  have hages : ∀ name n, some n ∈ s.disk.syncDir.ages name → some n ∈ s.disk.ages name := by
    intro name n hn
    rw [List.mem_singleton.mp hn]
    exact h.sound.current name
  refine h.update hi rfl h.sound.syncDir ?_ ?_ ?_ ?_
  · exact fun digest n hn => h.complete digest n (hages _ n hn)
  · refine ⟨by simp [Phase.counter], by simp [Phase.node], by simp [Phase.node], by simp, by simp,
      fun _ => (h.calls i c hi).placed (by rw [hphase]; rfl)⟩
  · exact fun c' hc' _ => hc'.mono (fun _ => Nat.le_refl _) (Nat.le_refl _)
      (fun n _ => ⟨rfl, rfl, fun digest => hages _ n⟩) fun _ => id
  · exact fun c' _ ha => ha.weaken (by simp [Phase.counter]) (by simp [Phase.node])

/-- A call that has failed removes its temporary file. -/
theorem Inv.remove (h : Inv sha256 s) (hi : s.calls[i]? = some c) (counter : Nat) :
    Inv sha256 { s.setPhase i .failed with
      disk := s.disk.link (c.temporary sha256 counter) none } := by
  have hages : ∀ digest n, some n ∈ (s.disk.link (c.temporary sha256 counter) none).ages
      (.target digest) → some n ∈ s.disk.ages (.target digest) := by
    intro digest n hn
    rcases Disk.mem_ages_link.mp hn with ⟨-, he⟩ | hn
    · cases he
    · exact hn
  refine h.update hi rfl (h.sound.link (by simp)) ?_ ?_ ?_ ?_
  · exact fun digest n hn => h.complete digest n (hages digest n hn)
  · exact ⟨by simp [Phase.counter], by simp [Phase.node], by simp [Phase.node], by simp, by simp,
      by simp [Phase.placed]⟩
  · refine fun c' hc' _ => hc'.mono (fun _ => Nat.le_refl _) (Nat.le_refl _)
      (fun n _ => ⟨rfl, rfl, fun digest => hages digest n⟩) fun digest hd => ?_
    dsimp only
    rwa [Disk.live_link_ne (target_ne_temporary _ _)]
  · exact fun c' _ ha => ha.weaken (by simp [Phase.counter]) (by simp [Phase.node])

/-- A call that is over has no claims. -/
theorem CallInv.lost (c : StoreCall) : CallInv sha256 s { c with phase := .lost } :=
  ⟨by simp [Phase.counter], by simp [Phase.node], by simp [Phase.node], by simp, by simp,
    by simp [Phase.placed]⟩

theorem Apart.lost (c c' : StoreCall) : Apart { c with phase := .lost } c' :=
  ⟨by simp [Phase.counter], by simp [Phase.node]⟩

theorem Inv.stepCall (h : Inv sha256 s) (hi : s.calls[i]? = some c) (fault : Option Nat) :
    Inv sha256 (s.stepCall sha256 i c fault) := by
  have hc := h.calls i c hi
  unfold ArtifactDir.stepCall
  cases hphase : c.phase with
  | checking =>
    dsimp only
    split
    · exact h.setPhase hi (by simp [Phase.counter]) rfl (by simp [Phase.placed])
    · split
      · rename_i hlive
        exact h.setPhase hi (by simp [Phase.counter]) rfl fun _ => hlive
      · exact h.number hi
  | creating counter =>
    dsimp only
    split
    · exact h.setPhase hi (by simp [Phase.counter, hphase]) rfl (by simp [Phase.placed])
    · exact h.create hi hphase
  | writing counter node =>
    cases fault with
    | some short =>
      refine h.file hi (by rw [hphase]; rfl) rfl rfl rfl ?_ (by simp [Phase.counter, hphase])
        (by simp [Phase.node]) (by simp) (by simp) rfl
      exact fun n hn => ⟨Function.update_of_ne hn _ _, Function.update_of_ne hn _ _⟩
    | none =>
      refine h.file hi (by rw [hphase]; rfl) rfl rfl rfl ?_ (by simp [Phase.counter, hphase])
        (by simp [Phase.node]) ?_ (by simp) rfl
      · exact fun n hn => ⟨Function.update_of_ne hn _ _, Function.update_of_ne hn _ _⟩
      · exact fun k n _ => Function.update_self ..
  | syncing counter node =>
    dsimp only
    split
    · exact h.setPhase hi (by simp [Phase.counter, hphase]) rfl (by simp [Phase.placed])
    · refine h.file hi (by rw [hphase]; rfl) rfl rfl rfl ?_ (by simp [Phase.counter, hphase])
        (by simp [Phase.node]) ?_ ?_ rfl
      · exact fun n hn => ⟨rfl, Function.update_of_ne hn _ _⟩
      · exact fun k n _ => hc.written counter node (.inl hphase)
      · exact fun k n _ => Function.update_self ..
  | replacing counter node =>
    dsimp only
    split
    · exact h.setPhase hi (by simp [Phase.counter, hphase]) rfl (by simp [Phase.placed])
    · exact h.rename hi hphase
  | syncingDir counter =>
    dsimp only
    split
    · exact h.setPhase hi (by simp [Phase.counter, hphase]) rfl (by simp [Phase.placed])
    · exact h.syncDir hi hphase
  | removing counter =>
    dsimp only
    split
    · exact h.setPhase hi (by simp [Phase.counter]) rfl (by simp [Phase.placed])
    · exact h.remove hi counter
  | _ => exact h

/-- The calls in `p` are lost. -/
theorem Inv.lose (h : Inv sha256 s) {p : StoreCall → Bool}
    (hcalls : s'.calls = s.calls.map fun c => if p c then { c with phase := .lost } else c)
    (hsound : s'.disk.Sound)
    (hcomplete : ∀ digest n, some n ∈ s'.disk.ages (.target digest) →
      s'.disk.synced n = true ∧ sha256 (s'.disk.files n) = digest)
    (hother : ∀ c, p c = false → CallInv sha256 s c → CallInv sha256 s' c) : Inv sha256 s' where
  sound := hsound
  complete := hcomplete
  calls i c hi := by
    rw [hcalls, List.getElem?_map, Option.map_eq_some_iff] at hi
    obtain ⟨x, hx, rfl⟩ := hi
    split
    · exact .lost x
    · rename_i hp
      exact hother x (by simpa using hp) (h.calls i x hx)
  apart i j c c' hij hi hj := by
    rw [hcalls, List.getElem?_map, Option.map_eq_some_iff] at hi hj
    obtain ⟨x, hx, rfl⟩ := hi
    obtain ⟨y, hy, rfl⟩ := hj
    by_cases hpx : p x = true
    · rw [if_pos hpx]
      exact .lost x _
    · by_cases hpy : p y = true
      · rw [if_pos hpy]
        exact (Apart.lost y _).symm
      · rw [if_neg hpx, if_neg hpy]
        exact h.apart i j x y hij hx hy

theorem Inv.next (h : Inv sha256 s) (e : Event) : Inv sha256 (s.next sha256 e) := by
  cases e with
  | exec pid =>
    refine h.lose (p := fun c => c.pid = pid) (by simp [ArtifactDir.next]) h.sound h.complete ?_
    intro c hc hinv
    refine { hinv with counted := fun k hk => ?_ }
    have hne : c.pid ≠ pid := by simpa using hc
    show k < Function.update s.nextArtifact pid 0 c.pid
    rw [Function.update_of_ne hne]
    exact hinv.counted k hk
  | call pid content =>
    refine ⟨h.sound, h.complete, fun i c hi => ?_, fun i j c c' hij hi hj => ?_⟩
    · rcases of_concat hi with hi | ⟨-, rfl⟩
      · exact { h.calls i c hi with }
      · exact ⟨by simp [Phase.counter], by simp [Phase.node], by simp [Phase.node], by simp,
          by simp, by simp [Phase.placed]⟩
    · have hnew : ∀ d : StoreCall, Apart ⟨pid, content, .checking⟩ d := fun d =>
        ⟨by simp [Phase.counter], by simp [Phase.node]⟩
      rcases of_concat hi with hi | ⟨-, rfl⟩
      · rcases of_concat hj with hj | ⟨-, rfl⟩
        · exact h.apart i j c c' hij hi hj
        · exact (hnew c).symm
      · exact hnew c'
  | step i fault =>
    unfold ArtifactDir.next
    dsimp only
    split
    · exact h
    · rename_i c hi
      exact h.stepCall hi fault
  | powerLoss pick garble =>
    refine h.lose (p := fun _ => true) (by simp [ArtifactDir.next]) (h.sound.lose pick garble) ?_
      (by simp)
    intro digest n hn
    obtain ⟨hs, hd⟩ := h.complete digest n (Disk.mem_ages_lose h.sound hn)
    refine ⟨rfl, ?_⟩
    show sha256 (if s.disk.synced n then s.disk.files n else garble n) = digest
    rw [if_pos hs]
    exact hd

theorem inv_after (events : List Event) : Inv sha256 (after (ArtifactDir.next sha256) {} events) :=
  after_induct (G := fun _ _ => True) (I := Inv sha256) (fun _ e h _ => h.next e)
    ⟨Disk.sound_empty, by simp, by simp, by simp⟩ (along_true _ events)

/-! ## What stays -/

/-- What a step of a call does to the directory. -/
theorem stepCall_disk (sha256 : List UInt8 → Digest) (s : ArtifactDir) (i : Nat) (c : StoreCall)
    (fault : Option Nat) :
    let d := (s.stepCall sha256 i c fault).disk
    (d.live = s.disk.live ∧ d.ages = s.disk.ages) ∨
    (∃ k, d = s.disk.create (c.temporary sha256 k)) ∨
    (∃ k n, d = s.disk.rename (c.temporary sha256 k) (c.target sha256) n) ∨
    d = s.disk.syncDir ∨ ∃ k, d = s.disk.link (c.temporary sha256 k) none := by
  intro d
  simp only [d, ArtifactDir.stepCall]
  cases c.phase with
  | checking =>
    refine .inl ?_
    dsimp only
    split
    · exact ⟨rfl, rfl⟩
    · split <;> exact ⟨rfl, rfl⟩
  | creating k =>
    dsimp only
    split
    · exact .inl ⟨rfl, rfl⟩
    · exact .inr (.inl ⟨k, rfl⟩)
  | writing k n => cases fault <;> exact .inl ⟨rfl, rfl⟩
  | syncing k n =>
    dsimp only
    split <;> exact .inl ⟨rfl, rfl⟩
  | replacing k n =>
    dsimp only
    split
    · exact .inl ⟨rfl, rfl⟩
    · exact .inr (.inr (.inl ⟨k, n, rfl⟩))
  | syncingDir k =>
    dsimp only
    split
    · exact .inl ⟨rfl, rfl⟩
    · exact .inr (.inr (.inr (.inl rfl)))
  | removing k =>
    dsimp only
    split
    · exact .inl ⟨rfl, rfl⟩
    · exact .inr (.inr (.inr (.inr ⟨k, rfl⟩)))
  | _ => exact .inl ⟨rfl, rfl⟩

/-- No power loss takes the file of the digest away. -/
def Durable (s : ArtifactDir) (digest : Digest) : Prop := none ∉ s.disk.ages (.target digest)

theorem Durable.stepCall {digest : Digest} (h : Durable s digest) (hs : s.disk.Sound)
    (fault : Option Nat) : Durable (s.stepCall sha256 i c fault) digest := by
  unfold Durable at h ⊢
  rcases stepCall_disk sha256 s i c fault with ⟨-, he⟩ | ⟨k, he⟩ | ⟨k, n, he⟩ | he | ⟨k, he⟩
  · rwa [he]
  · rw [he, Disk.mem_ages_create]
    rintro (⟨hname, -⟩ | hold)
    · exact target_ne_temporary _ _ hname
    · exact h hold
  · rw [he, Disk.mem_ages_rename]
    rintro (⟨hname, -⟩ | ⟨-, hnone⟩ | hold)
    · exact target_ne_temporary _ _ hname
    · cases hnone
    · exact h hold
  · rw [he]
    intro hnone
    rw [List.mem_singleton.mp hnone] at h
    exact h (hs.current _)
  · rw [he, Disk.mem_ages_link]
    rintro (⟨hname, -⟩ | hold)
    · exact target_ne_temporary _ _ hname
    · exact h hold

theorem Durable.next {digest : Digest} (h : Durable s digest) (hs : s.disk.Sound) (e : Event) :
    Durable (s.next sha256 e) digest := by
  cases e with
  | exec pid => exact h
  | call pid content => exact h
  | step i fault =>
    unfold ArtifactDir.next
    dsimp only
    split
    · exact h
    · exact h.stepCall hs fault
  | powerLoss pick garble => exact fun hnone => h (Disk.mem_ages_lose hs hnone)

/-- What has been found under a digest stays there until a power loss. -/
theorem live_stepCall {digest : Digest} (h : (s.disk.live (.target digest)).isSome)
    (fault : Option Nat) :
    ((s.stepCall sha256 i c fault).disk.live (.target digest)).isSome := by
  rcases stepCall_disk sha256 s i c fault with ⟨he, -⟩ | ⟨k, he⟩ | ⟨k, n, he⟩ | he | ⟨k, he⟩
  · rwa [he]
  · rwa [he, Disk.live_create_ne (target_ne_temporary _ _)]
  · rw [he]
    by_cases hdigest : ArtifactName.target digest = c.target sha256
    · rw [hdigest, live_target]
      rfl
    · rwa [Disk.live_rename_ne (target_ne_temporary _ _) hdigest]
  · rwa [he]
  · rwa [he, Disk.live_link_ne (target_ne_temporary _ _)]

theorem live_after {digest : Digest} {events : List Event}
    (hpower : ∀ pick garble, Event.powerLoss pick garble ∉ events)
    (h : (s.disk.live (.target digest)).isSome) :
    ((after (ArtifactDir.next sha256) s events).disk.live (.target digest)).isSome := by
  induction events generalizing s with
  | nil => exact h
  | cons e events ih =>
    refine ih (fun pick garble hmem => hpower pick garble (List.mem_cons_of_mem _ hmem)) ?_
    cases e with
    | exec pid => exact h
    | call pid content => exact h
    | step i fault =>
      unfold ArtifactDir.next
      dsimp only
      split
      · exact h
      · exact live_stepCall h fault
    | powerLoss pick garble => exact absurd List.mem_cons_self (hpower pick garble)

theorem durable_after {digest : Digest} (hs : Inv sha256 s) (h : Durable s digest)
    (events : List Event) : Durable (after (ArtifactDir.next sha256) s events) digest :=
  (after_induct (G := fun _ _ => True) (I := fun t => Inv sha256 t ∧ Durable t digest)
    (fun _ e ht _ => ⟨ht.1.next e, ht.2.next ht.1.sound e⟩) ⟨hs, h⟩ (along_true _ events)).2

/-- A call that has stored its output has made it durable. -/
def Stored (sha256 : List UInt8 → Digest) (s : ArtifactDir) : Prop :=
  ∀ c ∈ s.calls, c.phase = .stored → Durable s (sha256 c.content)

theorem mem_setPhase {phase : Phase} {d : StoreCall} (hi : s.calls[i]? = some c)
    (hd : d ∈ (s.setPhase i phase).calls) : d ∈ s.calls ∨ d = { c with phase } := by
  obtain ⟨j, hj⟩ := List.mem_iff_getElem?.mp hd
  obtain ⟨x, hx, rfl⟩ := of_modify hj
  split
  · rename_i hji
    subst hji
    cases hi.symm.trans hx
    exact .inr rfl
  · exact .inl (List.mem_of_getElem? hx)

/-- A call has stored its output when the directory has been synced behind the rename. -/
theorem stepCall_stored {fault : Option Nat} {d : StoreCall} (hi : s.calls[i]? = some c)
    (hd : d ∈ (s.stepCall sha256 i c fault).calls) (hstored : d.phase = .stored) :
    d ∈ s.calls ∨ d.content = c.content ∧ c.phase.placed = true ∧
      (s.stepCall sha256 i c fault).disk = s.disk.syncDir := by
  have hmove : ∀ {phase : Phase}, phase ≠ .stored → d ∈ (s.setPhase i phase).calls →
      d ∈ s.calls := by
    intro phase hne hmem
    rcases mem_setPhase hi hmem with h | rfl
    · exact h
    · exact absurd hstored hne
  unfold ArtifactDir.stepCall at hd ⊢
  cases hphase : c.phase with
  | checking =>
    rw [hphase] at hd
    dsimp only at hd
    refine .inl ?_
    split at hd
    · exact hmove (by decide) hd
    · split at hd
      · exact hmove (by decide) hd
      · exact hmove (by simp) hd
  | creating k =>
    rw [hphase] at hd
    dsimp only at hd
    refine .inl ?_
    split at hd <;> exact hmove (by simp) hd
  | writing k n =>
    rw [hphase] at hd
    refine .inl ?_
    cases fault <;> exact hmove (by simp) hd
  | syncing k n =>
    rw [hphase] at hd
    dsimp only at hd
    refine .inl ?_
    split at hd <;> exact hmove (by simp) hd
  | replacing k n =>
    rw [hphase] at hd
    dsimp only at hd
    refine .inl ?_
    split at hd <;> exact hmove (by simp) hd
  | syncingDir k =>
    rw [hphase] at hd
    dsimp only at hd
    split at hd
    · exact .inl (hmove (by simp) hd)
    · rename_i hfault
      rcases mem_setPhase hi hd with h | rfl
      · exact .inl h
      · refine .inr ⟨rfl, rfl, ?_⟩
        dsimp only
        rw [if_neg hfault]
  | removing k =>
    rw [hphase] at hd
    dsimp only at hd
    refine .inl ?_
    split at hd <;> exact hmove (by simp) hd
  | _ =>
    rw [hphase] at hd
    exact .inl hd

theorem Stored.next (h : Stored sha256 s) (hs : Inv sha256 s) (e : Event) :
    Stored sha256 (s.next sha256 e) := by
  intro d hd hstored
  have hkept : d ∈ s.calls → Durable (s.next sha256 e) (sha256 d.content) := fun hmem =>
    (h d hmem hstored).next hs.sound e
  cases e with
  | exec pid =>
    obtain ⟨x, hx, rfl⟩ := List.mem_map.mp hd
    split at hstored
    · cases hstored
    · rename_i hne
      rw [if_neg hne] at hkept ⊢
      exact hkept hx
  | call pid content =>
    rcases List.mem_append.mp hd with hd | hd
    · exact hkept hd
    · rw [List.mem_singleton.mp hd] at hstored
      cases hstored
  | step i fault =>
    cases hi : s.calls[i]? with
    | none =>
      have hsame : s.next sha256 (.step i fault) = s := by
        simp only [ArtifactDir.next, hi]
      rw [hsame] at hd
      exact hkept hd
    | some c =>
      have hstep : s.next sha256 (.step i fault) = s.stepCall sha256 i c fault := by
        simp only [ArtifactDir.next, hi]
      rw [hstep] at hd
      rcases stepCall_stored hi hd hstored with hmem | ⟨hcontent, hplaced, hdisk⟩
      · exact hkept hmem
      · rw [hstep, Durable, hdisk, hcontent]
        intro hnone
        have hlive := (hs.calls i c hi).placed hplaced
        rw [StoreCall.target, ← List.mem_singleton.mp hnone] at hlive
        cases hlive
  | powerLoss pick garble =>
    obtain ⟨x, -, rfl⟩ := List.mem_map.mp hd
    cases hstored

theorem stored_after (events : List Event) :
    Stored sha256 (after (ArtifactDir.next sha256) {} events) :=
  (after_induct (G := fun _ _ => True) (I := fun t => Inv sha256 t ∧ Stored sha256 t)
    (fun _ e ht _ => ⟨ht.1.next e, ht.2.next ht.1 e⟩)
    ⟨inv_after [], fun _ hc => absurd hc List.not_mem_nil⟩ (along_true _ events)).2

end Steps

end AgentDaemon.Storage.Artifacts
