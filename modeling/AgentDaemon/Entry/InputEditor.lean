import AgentDaemon.Lib.Clusters
import AgentDaemon.Lib.Text
import AgentDaemon.Lib.Transition
import Mathlib.Data.List.DropRight

/-!
The editor of the input field of the terminal entry: a buffer, and a cursor that is to stand between two
graphemes. Which characters go together is decided by the rules of a segmentation, a parameter here.
`cursor_valid_iff` says in which runs the cursor stays at a boundary.
-/

namespace AgentDaemon.Entry

open Clusters Transition

/-- The rules of a segmentation into graphemes: whether one goes on with the next character. What is
said here are the rules about the ends of lines. -/
structure GraphemeRules where
  joins : List Char → Char → Bool
  /-- Nothing goes together with a carriage return behind it. -/
  beforeCr : ∀ grapheme, joins grapheme '\r' = false
  /-- Only a carriage return goes together with a line feed behind it. -/
  beforeLf : ∀ grapheme, joins grapheme '\n' = true ↔ grapheme = ['\r']
  /-- Nothing goes together with a line feed before it. -/
  afterLf : ∀ grapheme c, grapheme.getLast? = some '\n' → joins grapheme c = false

/-- `str::len`. -/
abbrev bytes : List Char → Nat := measure Char.utf8Size

theorem bytes_append (l m : List Char) : bytes (l ++ m) = bytes l + bytes m := measure_append l m

theorem bytes_pos {l : List Char} (h : l ≠ []) : 0 < bytes l := measure_pos Char.utf8Size_pos h

/-- `str::find`. -/
def findChar (c : Char) (text : List Char) : Option Nat :=
  if c ∈ text then some (bytes (text.takeWhile (· ≠ c))) else none

/-- `str::rfind`. -/
def rfindChar (c : Char) (text : List Char) : Option Nat :=
  if c ∈ text then some (bytes (text.rdropWhile (· ≠ c)).dropLast) else none

/-- The cursor is an offset in bytes. -/
structure InputEditor where
  buffer : List Char := []
  cursor : Nat := 0
  deriving DecidableEq, Repr

namespace InputEditor

variable (rules : GraphemeRules) (e : InputEditor)

/-- `buffer[..cursor]`. -/
def before : List Char := sliceTo Char.utf8Size e.cursor e.buffer

/-- `buffer[cursor..]`. -/
def behind : List Char := sliceFrom Char.utf8Size e.cursor e.buffer

/-- `String::drain`. -/
def drain (start stop : Nat) : List Char :=
  sliceTo Char.utf8Size start e.buffer ++ sliceFrom Char.utf8Size stop e.buffer

/-! ## Graphemes -/

def previousGraphemeStart : Option Nat :=
  (starts Char.utf8Size 0 (clusters rules.joins e.before)).getLast?

def nextGraphemeEnd : Option Nat :=
  (clusters rules.joins e.behind).head?.map fun grapheme => e.cursor + bytes grapheme

def previousGraphemeIsWhitespace : Bool :=
  (clusters rules.joins e.before).getLast?.any fun grapheme => grapheme.all isWhiteSpace

def nextGraphemeIsWhitespace : Bool :=
  (clusters rules.joins e.behind).head?.any fun grapheme => grapheme.all isWhiteSpace

def snapCursorForward : InputEditor :=
  if e.cursor = bytes e.buffer then e
  else
    let place := (boundaries Char.utf8Size rules.joins e.buffer).find? fun index => e.cursor ≤ index
    { e with cursor := place.getD (bytes e.buffer) }

/-! ## Operations -/

def clear : InputEditor := {}

def replace (text : List Char) : InputEditor := ⟨text, bytes text⟩

/-- The text, and what is left. -/
def take : List Char × InputEditor := (e.buffer, clear)

def insert (character : Char) : InputEditor :=
  snapCursorForward rules ⟨e.before ++ character :: e.behind, e.cursor + character.utf8Size⟩

def insertText (text : List Char) : InputEditor :=
  let text := text.filter (· ≠ '\r')
  snapCursorForward rules ⟨e.before ++ text ++ e.behind, e.cursor + bytes text⟩

def backspace : InputEditor :=
  match e.previousGraphemeStart rules with
  | some start => ⟨e.drain start e.cursor, start⟩
  | none => e

def delete : InputEditor :=
  match e.nextGraphemeEnd rules with
  | some stop => { e with buffer := e.drain e.cursor stop }
  | none => e

def moveLeft : InputEditor :=
  match e.previousGraphemeStart rules with
  | some start => { e with cursor := start }
  | none => e

def moveRight : InputEditor :=
  match e.nextGraphemeEnd rules with
  | some stop => { e with cursor := stop }
  | none => e

def moveLineStart : InputEditor :=
  { e with cursor := ((rfindChar '\n' e.before).map (· + 1)).getD 0 }

def moveLineEnd : InputEditor :=
  { e with cursor := ((findChar '\n' e.behind).map (e.cursor + ·)).getD (bytes e.buffer) }

/-- A loop of `move_word_left`: on over graphemes that are white space, or that are not. -/
def leftWhile (white : Bool) : Nat → InputEditor → InputEditor
  | 0, e => e
  | fuel + 1, e =>
    if 0 < e.cursor ∧ e.previousGraphemeIsWhitespace rules = white then
      leftWhile white fuel (e.moveLeft rules)
    else e

def moveWordLeft : InputEditor :=
  let e := leftWhile rules true e.cursor e
  leftWhile rules false e.cursor e

/-- A loop of `move_word_right`. -/
def rightWhile (white : Bool) : Nat → InputEditor → InputEditor
  | 0, e => e
  | fuel + 1, e =>
    if e.cursor < bytes e.buffer ∧ e.nextGraphemeIsWhitespace rules = white then
      rightWhile white fuel (e.moveRight rules)
    else e

def moveWordRight : InputEditor :=
  let e := rightWhile rules true (bytes e.buffer - e.cursor) e
  rightWhile rules false (bytes e.buffer - e.cursor) e

def deleteWordLeft : InputEditor :=
  let moved := e.moveWordLeft rules
  { moved with buffer := moved.drain moved.cursor e.cursor }

inductive Op where
  | clear | replace (text : List Char) | take
  | insert (character : Char) | insertText (text : List Char)
  | backspace | delete | deleteWordLeft
  | moveLeft | moveRight | moveLineStart | moveLineEnd | moveWordLeft | moveWordRight
  deriving DecidableEq, Repr

def next (e : InputEditor) : Op → InputEditor
  | .clear => clear
  | .replace text => replace text
  | .take => e.take.2
  | .insert character => e.insert rules character
  | .insertText text => e.insertText rules text
  | .backspace => e.backspace rules
  | .delete => e.delete rules
  | .deleteWordLeft => e.deleteWordLeft rules
  | .moveLeft => e.moveLeft rules
  | .moveRight => e.moveRight rules
  | .moveLineStart => e.moveLineStart
  | .moveLineEnd => e.moveLineEnd
  | .moveWordLeft => e.moveWordLeft rules
  | .moveWordRight => e.moveWordRight rules

/-- The cursor is at a boundary of graphemes. -/
def Valid : Prop := e.cursor ∈ boundaries Char.utf8Size rules.joins e.buffer

/-! ## A cursor between two texts -/

def between (l m : List Char) : InputEditor := ⟨l ++ m, bytes l⟩

variable {rules} {l m : List Char}

@[simp] theorem before_between (l m : List Char) : (between l m).before = l :=
  sliceTo_append Char.utf8Size_pos l m

@[simp] theorem behind_between (l m : List Char) : (between l m).behind = m :=
  sliceFrom_append Char.utf8Size_pos l m

theorem drain_eq {e : InputEditor} {removed : List Char} (h : e.buffer = l ++ (removed ++ m)) :
    e.drain (bytes l) (bytes (l ++ removed)) = l ++ m := by
  rw [drain, h, sliceTo_append Char.utf8Size_pos, ← List.append_assoc,
    sliceFrom_append Char.utf8Size_pos]

theorem valid_between : Valid rules (between l m) ↔ Parted rules.joins l m :=
  mem_boundaries_append Char.utf8Size_pos

theorem valid_iff {e : InputEditor} :
    Valid rules e ↔ ∃ l m, e = between l m ∧ Parted rules.joins l m := by
  rw [Valid, mem_boundaries_iff]
  obtain ⟨buffer, cursor⟩ := e
  constructor
  · rintro ⟨l, m, rfl, rfl, h⟩
    exact ⟨l, m, rfl, h⟩
  · rintro ⟨l, m, ⟨⟩, h⟩
    exact ⟨l, m, rfl, rfl, h⟩

theorem previousGraphemeStart_between (l m : List Char) :
    (between l m).previousGraphemeStart rules =
      if l = [] then none else some (bytes (withoutLast rules.joins l)) := by
  rw [previousGraphemeStart, before_between]
  rcases List.eq_nil_or_concat' (clusters rules.joins l) with h | ⟨cs, grapheme, h⟩
  · rw [if_pos (clusters_eq_nil.mp h), h]
    rfl
  · have hne : l ≠ [] := by
      rintro rfl
      simp at h
    rw [if_neg hne, withoutLast, h, starts_append, Nat.zero_add, List.dropLast_concat]
    simp [starts]

theorem nextGraphemeEnd_between (l m : List Char) :
    (between l m).nextGraphemeEnd rules =
      if m = [] then none else some (bytes (l ++ firstCluster rules.joins m)) := by
  rw [nextGraphemeEnd, behind_between, firstCluster]
  cases h : clusters rules.joins m with
  | nil => rw [if_pos (clusters_eq_nil.mp h), List.head?_nil, Option.map_none]
  | cons grapheme rest =>
    have hne : m ≠ [] := by
      rintro rfl
      simp at h
    rw [if_neg hne]
    simp [between]

/-! ## What the operations make of it -/

theorem replace_eq (text : List Char) : replace text = between text [] := by
  rw [between, List.append_nil]
  rfl

theorem moveLeft_between (l m : List Char) : (between l m).moveLeft rules =
    between (withoutLast rules.joins l) (lastCluster rules.joins l ++ m) := by
  rw [moveLeft, previousGraphemeStart_between]
  by_cases hl : l = []
  · subst hl
    rw [if_pos rfl]
    rfl
  · rw [if_neg hl]
    simp only [between, ← List.append_assoc, withoutLast_append_lastCluster]

theorem moveRight_between (l m : List Char) : (between l m).moveRight rules =
    between (l ++ firstCluster rules.joins m) (withoutFirst rules.joins m) := by
  rw [moveRight, nextGraphemeEnd_between]
  by_cases hm : m = []
  · subst hm
    rw [if_pos rfl]
    simp [between, firstCluster, withoutFirst]
  · rw [if_neg hm]
    simp only [between, List.append_assoc, firstCluster_append_withoutFirst]

theorem backspace_between (l m : List Char) :
    (between l m).backspace rules = between (withoutLast rules.joins l) m := by
  rw [backspace, previousGraphemeStart_between]
  by_cases hl : l = []
  · subst hl
    rw [if_pos rfl]
    rfl
  · rw [if_neg hl]
    have hsplit := withoutLast_append_lastCluster rules.joins l
    have hbuffer : (between l m).buffer =
        withoutLast rules.joins l ++ (lastCluster rules.joins l ++ m) := by
      rw [← List.append_assoc, hsplit]
      rfl
    have hdrain := drain_eq hbuffer
    rw [hsplit] at hdrain
    exact congrArg (InputEditor.mk · _) hdrain

theorem delete_between (l m : List Char) :
    (between l m).delete rules = between l (withoutFirst rules.joins m) := by
  rw [delete, nextGraphemeEnd_between]
  by_cases hm : m = []
  · subst hm
    rw [if_pos rfl]
    rfl
  · rw [if_neg hm]
    have hbuffer : (between l m).buffer =
        l ++ (firstCluster rules.joins m ++ withoutFirst rules.joins m) := by
      rw [firstCluster_append_withoutFirst]
      rfl
    have hdrain := drain_eq hbuffer
    exact congrArg (InputEditor.mk · _) hdrain

theorem moveLineStart_between (l m : List Char) : (between l m).moveLineStart =
    between (l.rdropWhile (· ≠ '\n')) (l.rtakeWhile (· ≠ '\n') ++ m) := by
  have hcursor : ((rfindChar '\n' l).map (· + 1)).getD 0 = bytes (l.rdropWhile (· ≠ '\n')) := by
    rw [rfindChar]
    by_cases hmem : '\n' ∈ l
    · have hne : l.rdropWhile (· ≠ '\n') ≠ [] := by
        intro hnil
        simpa using List.rdropWhile_eq_nil_iff.mp hnil '\n' hmem
      have hlast := List.rdropWhile_last_not (fun c : Char => decide (c ≠ '\n')) l hne
      simp only [ne_eq, decide_not, Bool.not_eq_eq_eq_not, Bool.not_true, decide_eq_false_iff_not,
        not_not] at hlast
      have hsize := bytes_append (l.rdropWhile (· ≠ '\n')).dropLast
        [(l.rdropWhile (· ≠ '\n')).getLast hne]
      rw [List.dropLast_append_getLast hne] at hsize
      rw [if_pos hmem, hsize]
      simp only [ne_eq, decide_not, hlast]
      rfl
    · have hnil : l.rdropWhile (· ≠ '\n') = [] := by
        refine List.rdropWhile_eq_nil_iff.mpr fun c hc => ?_
        simp only [ne_eq, decide_eq_true_eq]
        rintro rfl
        exact hmem hc
      rw [if_neg hmem, hnil]
      rfl
  rw [moveLineStart, before_between, hcursor]
  simp only [between, ← List.append_assoc, List.rdropWhile_append_rtakeWhile]

theorem moveLineEnd_between (l m : List Char) : (between l m).moveLineEnd =
    between (l ++ m.takeWhile (· ≠ '\n')) (m.dropWhile (· ≠ '\n')) := by
  rw [moveLineEnd, behind_between, findChar]
  by_cases hmem : '\n' ∈ m
  · rw [if_pos hmem]
    simp [between]
  · rw [if_neg hmem]
    have hall : ∀ c ∈ m, decide (c ≠ '\n') = true := by
      intro c hc
      rw [decide_eq_true_eq]
      rintro rfl
      exact hmem hc
    rw [List.takeWhile_eq_self_iff.mpr hall, List.dropWhile_eq_nil_iff.mpr hall]
    simp [between]

/-! ## Boundaries that are kept -/

theorem valid_snapCursorForward (rules : GraphemeRules) (e : InputEditor) :
    Valid rules (e.snapCursorForward rules) := by
  have hend : bytes e.buffer ∈ boundaries Char.utf8Size rules.joins e.buffer := by
    rw [boundaries, List.mem_append]
    exact .inr (List.mem_singleton_self _)
  rw [snapCursorForward]
  split
  · rename_i hcursor
    rw [Valid, hcursor]
    exact hend
  · rw [Valid]
    dsimp only
    cases hfind : (boundaries Char.utf8Size rules.joins e.buffer).find? (e.cursor ≤ ·) with
    | none => exact hend
    | some index => exact List.mem_of_find?_eq_some hfind

theorem leftWhile_between (rules : GraphemeRules) (white : Bool) (fuel : Nat) (l m : List Char) :
    ∃ l₁ l₂, l = l₁ ++ l₂ ∧ leftWhile rules white fuel (between l m) = between l₁ (l₂ ++ m) ∧
      (Parted rules.joins l m → Parted rules.joins l₁ (l₂ ++ m)) := by
  induction fuel generalizing l m with
  | zero => exact ⟨l, [], (List.append_nil l).symm, rfl, id⟩
  | succ fuel ih =>
    rw [leftWhile]
    split
    · rw [moveLeft_between]
      obtain ⟨l₁, l₂, hl, he, hparted⟩ :=
        ih (withoutLast rules.joins l) (lastCluster rules.joins l ++ m)
      rw [← List.append_assoc] at he hparted
      refine ⟨l₁, l₂ ++ lastCluster rules.joins l, ?_, he, fun h => hparted h.left⟩
      rw [← List.append_assoc, ← hl, withoutLast_append_lastCluster]
    · exact ⟨l, [], (List.append_nil l).symm, rfl, id⟩

theorem rightWhile_between (rules : GraphemeRules) (white : Bool) (fuel : Nat) (l m : List Char) :
    ∃ m₁ m₂, m = m₁ ++ m₂ ∧ rightWhile rules white fuel (between l m) = between (l ++ m₁) m₂ ∧
      (Parted rules.joins l m → Parted rules.joins (l ++ m₁) m₂) := by
  induction fuel generalizing l m with
  | zero =>
    refine ⟨[], m, rfl, ?_, ?_⟩
    · rw [List.append_nil]
      rfl
    · rw [List.append_nil]
      exact id
  | succ fuel ih =>
    rw [rightWhile]
    split
    · rw [moveRight_between]
      obtain ⟨m₁, m₂, hm, he, hparted⟩ :=
        ih (l ++ firstCluster rules.joins m) (withoutFirst rules.joins m)
      rw [List.append_assoc] at he hparted
      refine ⟨firstCluster rules.joins m ++ m₁, m₂, ?_, he, fun h => hparted h.right⟩
      rw [List.append_assoc, ← hm, firstCluster_append_withoutFirst]
    · refine ⟨[], m, rfl, ?_, ?_⟩
      · rw [List.append_nil]
      · rw [List.append_nil]
        exact id

theorem moveWordLeft_between (rules : GraphemeRules) (l m : List Char) :
    ∃ l₁ l₂, l = l₁ ++ l₂ ∧ (between l m).moveWordLeft rules = between l₁ (l₂ ++ m) ∧
      (Parted rules.joins l m → Parted rules.joins l₁ (l₂ ++ m)) := by
  obtain ⟨l₁, l₂, hl, he, hparted⟩ :=
    leftWhile_between rules true (between l m).cursor l m
  obtain ⟨l₃, l₄, hl', he', hparted'⟩ :=
    leftWhile_between rules false (between l₁ (l₂ ++ m)).cursor l₁ (l₂ ++ m)
  rw [← List.append_assoc] at he' hparted'
  refine ⟨l₃, l₄ ++ l₂, ?_, ?_, fun h => hparted' (hparted h)⟩
  · rw [hl, hl', List.append_assoc]
  · rw [moveWordLeft, he, he']

theorem moveWordRight_between (rules : GraphemeRules) (l m : List Char) :
    ∃ m₁ m₂, m = m₁ ++ m₂ ∧ (between l m).moveWordRight rules = between (l ++ m₁) m₂ ∧
      (Parted rules.joins l m → Parted rules.joins (l ++ m₁) m₂) := by
  obtain ⟨m₁, m₂, hm, he, hparted⟩ := rightWhile_between rules true
    (bytes (between l m).buffer - (between l m).cursor) l m
  obtain ⟨m₃, m₄, hm', he', hparted'⟩ := rightWhile_between rules false
    (bytes (between (l ++ m₁) m₂).buffer - (between (l ++ m₁) m₂).cursor) (l ++ m₁) m₂
  rw [List.append_assoc] at he' hparted'
  refine ⟨m₁ ++ m₃, m₄, ?_, ?_, fun h => hparted' (hparted h)⟩
  · rw [hm, hm', List.append_assoc]
  · rw [moveWordRight, he, he']

/-- What is removed is what the cursor moves over. -/
theorem deleteWordLeft_between (l m : List Char) :
    (between l m).deleteWordLeft rules = between ((between l m).moveWordLeft rules).before m := by
  obtain ⟨l₁, l₂, rfl, he, -⟩ := moveWordLeft_between rules l m
  rw [deleteWordLeft, he, before_between]
  exact congrArg (InputEditor.mk · _) (drain_eq rfl)

theorem parted_lineStart (l m : List Char) : Parted rules.joins (l.rdropWhile (· ≠ '\n'))
    (l.rtakeWhile (· ≠ '\n') ++ m) := by
  intro grapheme hgrapheme c _
  by_cases hne : l.rdropWhile (· ≠ '\n') = []
  · rw [hne] at hgrapheme
    cases hgrapheme
  · have hlast := List.rdropWhile_last_not (fun c : Char => decide (c ≠ '\n')) l hne
    refine rules.afterLf grapheme c ?_
    rw [getLast?_lastCluster hgrapheme, List.getLast?_eq_some_getLast hne]
    simpa using hlast

/-- A carriage return is alone before a line feed. -/
theorem joins_lf_iff {text grapheme : List Char}
    (h : grapheme ∈ (clusters rules.joins text).getLast?) :
    rules.joins grapheme '\n' = true ↔ text.getLast? = some '\r' := by
  rw [rules.beforeLf, ← getLast?_lastCluster h]
  constructor
  · rintro rfl
    rfl
  · intro hlast
    obtain ⟨init, rfl⟩ := List.getLast?_eq_some_iff.mp hlast
    by_contra hne
    have hinit : init ≠ [] := by
      rintro rfl
      exact hne rfl
    have hjoins := grown_of_mem (List.mem_of_getLast? h) init '\r' rfl hinit
    rw [rules.beforeCr] at hjoins
    cases hjoins

/-- The end of a line is a boundary where no carriage return stands there. -/
theorem parted_lineEnd_iff (h : Parted rules.joins l m) :
    Parted rules.joins (l ++ m.takeWhile (· ≠ '\n')) (m.dropWhile (· ≠ '\n')) ↔
      ('\n' ∈ m → (m.takeWhile (· ≠ '\n')).getLast? ≠ some '\r') := by
  have hm := List.takeWhile_append_dropWhile (p := (· ≠ '\n')) (l := m)
  cases hrest : m.dropWhile (· ≠ '\n') with
  | nil =>
    refine iff_of_true (parted_nil_right _) fun hmem => ?_
    simpa using List.dropWhile_eq_nil_iff.mp hrest '\n' hmem
  | cons c rest =>
    have hc : c = '\n' := by
      have hhead := List.head?_dropWhile_not (· ≠ '\n') m
      rw [hrest] at hhead
      simpa using hhead
    subst hc
    have hmem : '\n' ∈ m := by
      rw [← hm, hrest]
      exact List.mem_append_right _ List.mem_cons_self
    by_cases hline : m.takeWhile (· ≠ '\n') = []
    · rw [hline, hrest, List.nil_append] at hm
      rw [hline, List.append_nil, hm]
      exact iff_of_true h fun _ => by simp
    · rw [← List.getLast?_append_of_ne_nil l hline]
      constructor
      · intro hparted _ hlast
        have hne : clusters rules.joins (l ++ m.takeWhile (· ≠ '\n')) ≠ [] :=
          clusters_eq_nil.not.mpr (List.append_ne_nil_of_right_ne_nil l hline)
        have hgrapheme := List.getLast?_eq_some_getLast hne
        have hjoins := (joins_lf_iff hgrapheme).mpr hlast
        rw [hparted _ hgrapheme '\n' rfl] at hjoins
        cases hjoins
      · rintro hlast grapheme hgrapheme _ ⟨⟩
        refine Bool.eq_false_iff.mpr fun hjoins => ?_
        exact hlast hmem ((joins_lf_iff hgrapheme).mp hjoins)

/-- A loop of `move_word_left` ends at the start, or at a grapheme of the other kind. -/
theorem leftWhile_ends (white : Bool) {fuel : Nat} (hfuel : bytes l ≤ fuel) (m : List Char) :
    (leftWhile rules white fuel (between l m)).cursor = 0 ∨
      (leftWhile rules white fuel (between l m)).previousGraphemeIsWhitespace rules ≠ white := by
  induction fuel generalizing l m with
  | zero => exact .inl (Nat.le_zero.mp hfuel)
  | succ fuel ih =>
    rw [leftWhile]
    split
    · rename_i hgo
      rw [moveLeft_between]
      refine ih ?_ _
      have hl : l ≠ [] := by
        rintro rfl
        exact Nat.lt_irrefl 0 hgo.1
      have hsize := bytes_append (withoutLast rules.joins l) (lastCluster rules.joins l)
      have hpos := bytes_pos (lastCluster_ne_nil rules.joins hl)
      rw [withoutLast_append_lastCluster] at hsize
      omega
    · rename_i hstop
      by_cases hcursor : (between l m).cursor = 0
      · exact .inl hcursor
      · exact .inr fun hwhite => hstop ⟨Nat.pos_of_ne_zero hcursor, hwhite⟩

/-- A loop of `move_word_right` ends at the end, or at a grapheme of the other kind. -/
theorem rightWhile_ends (white : Bool) {fuel : Nat} (hfuel : bytes m ≤ fuel) (l : List Char) :
    (rightWhile rules white fuel (between l m)).cursor =
        bytes (rightWhile rules white fuel (between l m)).buffer ∨
      (rightWhile rules white fuel (between l m)).nextGraphemeIsWhitespace rules ≠ white := by
  have hend := bytes_append l m
  induction fuel generalizing l m with
  | zero =>
    refine .inl ?_
    show bytes l = bytes (l ++ m)
    omega
  | succ fuel ih =>
    rw [rightWhile]
    split
    · rename_i hgo
      rw [moveRight_between]
      have hlt : bytes l < bytes (l ++ m) := hgo.1
      have hm : m ≠ [] := by
        rintro rfl
        rw [List.append_nil] at hlt
        exact Nat.lt_irrefl _ hlt
      have hsize := bytes_append (firstCluster rules.joins m) (withoutFirst rules.joins m)
      have hpos := bytes_pos (firstCluster_ne_nil rules.joins hm)
      rw [firstCluster_append_withoutFirst] at hsize
      exact ih (by omega) _ (bytes_append _ _)
    · rename_i hstop
      by_cases hcursor : (between l m).cursor < bytes (between l m).buffer
      · exact .inr fun hwhite => hstop ⟨hcursor, hwhite⟩
      · refine .inl ?_
        have hle : ¬ bytes l < bytes (l ++ m) := hcursor
        show bytes l = bytes (l ++ m)
        omega

/-! ## Runs -/

/-- The cursor is between two characters, where the buffer can be sliced. -/
def Sliceable (e : InputEditor) : Prop := ∃ l m, e = between l m

theorem Valid.sliceable {e : InputEditor} (h : Valid rules e) : e.Sliceable := by
  obtain ⟨l, m, he, -⟩ := valid_iff.mp h
  exact ⟨l, m, he⟩

theorem Sliceable.next {e : InputEditor} (h : e.Sliceable) (op : Op) :
    (e.next rules op).Sliceable := by
  obtain ⟨l, m, rfl⟩ := h
  cases op with
  | clear => exact ⟨[], [], rfl⟩
  | take => exact ⟨[], [], rfl⟩
  | replace text => exact ⟨_, _, replace_eq text⟩
  | insert character => exact (valid_snapCursorForward rules _).sliceable
  | insertText text => exact (valid_snapCursorForward rules _).sliceable
  | backspace => exact ⟨_, _, backspace_between l m⟩
  | delete => exact ⟨_, _, delete_between l m⟩
  | deleteWordLeft => exact ⟨_, _, deleteWordLeft_between l m⟩
  | moveLeft => exact ⟨_, _, moveLeft_between l m⟩
  | moveRight => exact ⟨_, _, moveRight_between l m⟩
  | moveLineStart => exact ⟨_, _, moveLineStart_between l m⟩
  | moveLineEnd => exact ⟨_, _, moveLineEnd_between l m⟩
  | moveWordLeft =>
    obtain ⟨l₁, l₂, -, he, -⟩ := moveWordLeft_between rules l m
    exact ⟨_, _, he⟩
  | moveWordRight =>
    obtain ⟨m₁, m₂, -, he, -⟩ := moveWordRight_between rules l m
    exact ⟨_, _, he⟩

/-- No slice of the buffer is inside a character. -/
theorem sliceable_after (rules : GraphemeRules) (ops : List Op) :
    (after (next rules) {} ops).Sliceable :=
  after_induct (G := fun _ _ => True) (fun _ op h _ => h.next op) ⟨[], [], rfl⟩ (along_true _ ops)

variable (rules)

/-- What a step must meet to keep the boundary: where text is removed, the grapheme before it does not go
together with the character behind it; the end of a line is not moved to over a carriage return. -/
def Separates (e : InputEditor) : Op → Prop
  | .backspace => Parted rules.joins (withoutLast rules.joins e.before) e.behind
  | .delete => Parted rules.joins e.before (withoutFirst rules.joins e.behind)
  | .deleteWordLeft => Parted rules.joins (e.moveWordLeft rules).before e.behind
  | .moveLineEnd => '\n' ∈ e.behind → (e.behind.takeWhile (· ≠ '\n')).getLast? ≠ some '\r'
  | _ => True

variable {rules}

theorem valid_next_iff {e : InputEditor} (h : Valid rules e) (op : Op) :
    Valid rules (next rules e op) ↔ Separates rules e op := by
  obtain ⟨l, m, rfl, hparted⟩ := valid_iff.mp h
  cases op with
  | clear => exact iff_of_true (valid_between.mpr (parted_nil_left [])) trivial
  | take => exact iff_of_true (valid_between.mpr (parted_nil_left [])) trivial
  | replace text =>
    rw [next, replace_eq, valid_between]
    exact iff_of_true (parted_nil_right text) trivial
  | insert character => exact iff_of_true (valid_snapCursorForward rules _) trivial
  | insertText text => exact iff_of_true (valid_snapCursorForward rules _) trivial
  | backspace =>
    rw [next, backspace_between, valid_between, Separates, before_between, behind_between]
  | delete =>
    rw [next, delete_between, valid_between, Separates, before_between, behind_between]
  | deleteWordLeft =>
    rw [next, deleteWordLeft_between, valid_between, Separates, behind_between]
  | moveLeft =>
    rw [next, moveLeft_between, valid_between]
    exact iff_of_true hparted.left trivial
  | moveRight =>
    rw [next, moveRight_between, valid_between]
    exact iff_of_true hparted.right trivial
  | moveLineStart =>
    rw [next, moveLineStart_between, valid_between]
    exact iff_of_true (parted_lineStart l m) trivial
  | moveLineEnd =>
    rw [next, moveLineEnd_between, valid_between, Separates, behind_between]
    exact parted_lineEnd_iff hparted
  | moveWordLeft =>
    obtain ⟨l₁, l₂, -, he, hmoved⟩ := moveWordLeft_between rules l m
    rw [next, he, valid_between]
    exact iff_of_true (hmoved hparted) trivial
  | moveWordRight =>
    obtain ⟨m₁, m₂, -, he, hmoved⟩ := moveWordRight_between rules l m
    rw [next, he, valid_between]
    exact iff_of_true (hmoved hparted) trivial

/-- **The cursor** is at a boundary after every step of a run exactly if no step removes text between two
graphemes that go together, or moves to the end of a line over a carriage return. -/
theorem cursor_valid_iff (rules : GraphemeRules) (ops : List Op) :
    (∀ pre, pre <+: ops → Valid rules (after (next rules) {} pre)) ↔
      Along (next rules) (Separates rules) {} ops := by
  refine forall_prefix_iff_along (I := fun _ => True) (fun _ _ _ => trivial) ?_ ?_ trivial ?_ ops
  · exact fun e op _ h hsep => (valid_next_iff h op).mpr hsep
  · exact fun e op _ h hsep hvalid => hsep ((valid_next_iff h op).mp hvalid)
  · exact valid_between.mpr (parted_nil_left [])

/-! ## A flag that comes about -/

def isExtend (c : Char) : Bool :=
  (0x300 ≤ c.toNat && c.toNat ≤ 0x36F) || c.toNat = 0xFE0F || c.toNat = 0x200D

def isPictograph (c : Char) : Bool := 0x1F300 ≤ c.toNat && c.toNat ≤ 0x1FAFF

def isRegionalIndicator (c : Char) : Bool := 0x1F1E6 ≤ c.toNat && c.toNat ≤ 0x1F1FF

/-- The rules for combining marks, pictographs with joiners between them, and pairs of regional
indicators. -/
def sampleRules : GraphemeRules where
  joins grapheme c :=
    if c = '\r' then false
    else if c = '\n' then grapheme = ['\r']
    else if grapheme.getLast? = some '\r' ∨ grapheme.getLast? = some '\n' then false
    else
      isExtend c ||
      (isPictograph c && grapheme.getLast? = some (.ofNat 0x200D) &&
        (grapheme.rdropWhile isExtend).getLast?.any isPictograph) ||
      (isRegionalIndicator c && (grapheme.rtakeWhile isRegionalIndicator).length % 2 = 1)
  beforeCr _ := if_pos rfl
  beforeLf grapheme := by simp
  afterLf grapheme c h := by
    split
    · rfl
    · split
      · rw [decide_eq_false_iff_not]
        rintro rfl
        exact absurd h (by decide)
      · rw [if_pos (.inr h)]

instance (e : InputEditor) : Decidable (Valid rules e) :=
  inferInstanceAs (Decidable (e.cursor ∈ boundaries Char.utf8Size rules.joins e.buffer))

/-- An `x` between the halves of a flag, and its removal. -/
def flagOps : List Op :=
  [.insertText [.ofNat 0x1F1E6, 'x', .ofNat 0x1F1E7], .moveLeft, .backspace]

/-- The cursor is inside the flag. -/
theorem not_cursor_valid_flagOps : ¬ ∀ (rules : GraphemeRules) (ops : List Op),
    Valid rules (after (next rules) {} ops) := by
  intro h
  exact absurd (h sampleRules flagOps) (by decide +kernel)

/-- A joiner between two pictographs. -/
example : after (next sampleRules) {} [.insertText [.ofNat 0x1F468, .ofNat 0x1F469], .moveLeft,
    .insert (.ofNat 0x200D), .backspace] = {} := by decide +kernel

end InputEditor

end AgentDaemon.Entry
