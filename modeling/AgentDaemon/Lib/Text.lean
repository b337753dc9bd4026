import AgentDaemon.Lib.Words
import Mathlib.Algebra.Ring.Nat

/-! Texts, as the standard library of Rust sees them. -/

namespace AgentDaemon

/-- `char::is_whitespace`: the Unicode property White_Space. -/
def isWhiteSpace (c : Char) : Bool :=
  let n := c.toNat
  (9 ≤ n && n ≤ 13) || n = 0x20 || n = 0x85 || n = 0xA0 || n = 0x1680 ||
    (0x2000 ≤ n && n ≤ 0x200A) || n = 0x2028 || n = 0x2029 || n = 0x202F || n = 0x205F ||
      n = 0x3000

/-- `str::trim().is_empty()`. -/
def blank (s : String) : Bool := s.toList.all isWhiteSpace

/-! ## `str::trim` -/

def trimEndMatches (p : Char → Bool) (cs : List Char) : List Char :=
  (cs.reverse.dropWhile p).reverse

def trimMatches (p : Char → Bool) (cs : List Char) : List Char :=
  trimEndMatches p (cs.dropWhile p)

def trim (s : String) : String := .ofList (trimMatches isWhiteSpace s.toList)

/-- `str::split_whitespace`. -/
def splitWhitespace (cs : List Char) : List (List Char) := Words.words isWhiteSpace cs

/-! ## `str::split_once` and `str::splitn` -/

def splitOnce (pattern : List Char) : List Char → Option (List Char × List Char)
  | [] => if pattern.isEmpty then some ([], []) else none
  | c :: cs =>
    if pattern.isPrefixOf (c :: cs) then some ([], (c :: cs).drop pattern.length)
    else (splitOnce pattern cs).map fun (before, after) => (c :: before, after)

/-- At most `n` parts, the last of them with all that is left. -/
def splitN (pattern : List Char) : (n : Nat) → List Char → List (List Char)
  | 0, _ => []
  | 1, cs => [cs]
  | n + 2, cs =>
    match splitOnce pattern cs with
    | none => [cs]
    | some (part, rest) => part :: splitN pattern (n + 1) rest

theorem splitOnce_char {sep : Char} {part : List Char} (h : sep ∉ part) (rest : List Char) :
    splitOnce [sep] (part ++ sep :: rest) = some (part, rest) := by
  induction part with
  | nil => simp [splitOnce]
  | cons c part ih =>
    obtain ⟨hc, hpart⟩ := not_or.mp fun hm => h (List.mem_cons.mpr hm)
    rw [List.cons_append, splitOnce, ih hpart]
    simp [hc]

theorem splitN_char {sep : Char} {part : List Char} (h : sep ∉ part) (rest : List Char) (n : Nat) :
    splitN [sep] (n + 2) (part ++ sep :: rest) = part :: splitN [sep] (n + 1) rest := by
  simp only [splitN, splitOnce_char h]

/-! ## `str::lines` -/

/-- The lines, each with the line feed that ends it. -/
def splitInclusive : List Char → List (List Char)
  | [] => []
  | c :: cs =>
    if c = '\n' then [c] :: splitInclusive cs
    else match splitInclusive cs with
      | [] => [[c]]
      | l :: ls => (c :: l) :: ls

/-- A line without its line feed and the carriage return before that. -/
def stripEnding (l : List Char) : List Char :=
  if l.getLast? = some '\n' then
    if l.dropLast.getLast? = some '\r' then l.dropLast.dropLast else l.dropLast
  else l

def lines (cs : List Char) : List (List Char) := (splitInclusive cs).map stripEnding

@[simp] theorem lines_nil : lines [] = [] := rfl

theorem splitInclusive_line {l : List Char} (h : '\n' ∉ l) (cs : List Char) :
    splitInclusive (l ++ '\n' :: cs) = (l ++ ['\n']) :: splitInclusive cs := by
  induction l with
  | nil => rfl
  | cons c l ih =>
    obtain ⟨hc, hl⟩ := not_or.mp (fun hm => h (List.mem_cons.mpr hm))
    rw [List.cons_append, splitInclusive, if_neg (Ne.symm hc), ih hl]
    rfl

theorem splitInclusive_last {l : List Char} (h : '\n' ∉ l) (hne : l ≠ []) :
    splitInclusive l = [l] := by
  induction l with
  | nil => exact absurd rfl hne
  | cons c l ih =>
    obtain ⟨hc, hl⟩ := not_or.mp (fun hm => h (List.mem_cons.mpr hm))
    rw [splitInclusive, if_neg (Ne.symm hc)]
    cases l with
    | nil => rfl
    | cons d l => rw [ih hl (List.cons_ne_nil d l)]

/-- A line that does not end in a carriage return. -/
theorem lines_line {l : List Char} (h : '\n' ∉ l) (hlast : l.getLast? ≠ some '\r')
    (cs : List Char) : lines (l ++ '\n' :: cs) = l :: lines cs := by
  have hstrip : stripEnding (l ++ ['\n']) = l := by
    unfold stripEnding
    rw [List.getLast?_concat, if_pos rfl, List.dropLast_concat, if_neg hlast]
  rw [lines, splitInclusive_line h, List.map_cons, hstrip]
  rfl

/-- A last line without a line feed. -/
theorem lines_last {l : List Char} (h : '\n' ∉ l) (hne : l ≠ []) : lines l = [l] := by
  have hstrip : stripEnding l = l := by
    unfold stripEnding
    rw [if_neg]
    intro hlast
    exact h (List.mem_of_getLast? hlast)
  rw [lines, splitInclusive_last h hne, List.map_singleton, hstrip]

/-! ## Numbers -/

/-- `str::parse::<u64>`. -/
def parseU64 (value : List Char) : Option Nat :=
  let digits := if value.head? = some '+' then value.tail else value
  if digits.isEmpty || !digits.all Char.isDigit then none
  else
    let n := digits.foldl (fun n c => n * 10 + (c.toNat - '0'.toNat)) 0
    if n < 2 ^ 64 then some n else none

/-- A number is read back from its decimal digits. -/
theorem parseU64_toDigits {n : Nat} (h : n < 2 ^ 64) : parseU64 (Nat.toDigits 10 n) = some n := by
  have hdigit : ∀ c ∈ Nat.toDigits 10 n, c.isDigit = true := fun c hc =>
    Nat.isDigit_of_mem_toDigits (by decide) (by decide) hc
  have hne : (Nat.toDigits 10 n).isEmpty = false := by simp [Nat.toDigits_ne_nil]
  have hplus : (Nat.toDigits 10 n).head? ≠ some '+' := by
    intro hhead
    exact absurd (hdigit _ (List.mem_of_mem_head? hhead)) (by decide)
  have hfold : (Nat.toDigits 10 n).foldl (fun n c => n * 10 + (c.toNat - '0'.toNat)) 0 = n := by
    have hread := Nat.ofDigitChars_ten_toDigits (n := n)
    rw [Nat.ofDigitChars_eq_foldl] at hread
    simpa only [Nat.mul_comm] using hread
  rw [parseU64, if_neg hplus, hne, List.all_eq_true.mpr hdigit, Bool.not_true, Bool.or_self,
    if_neg Bool.false_ne_true]
  simp only [hfold, if_pos h]

end AgentDaemon
