import AgentDaemon.Lib.Document
import AgentDaemon.Lib.Utf8
import AgentDaemon.Lib.Words
import Mathlib.Algebra.Ring.Nat

/-!
The compact text of a JSON document, as `serde_json` writes it, and how many bytes it takes.
-/

namespace AgentDaemon

/-- A character of a string: quotes, backslashes and control characters are escaped. -/
def escape (c : Char) : List Char :=
  if c = '\x22' || c = '\\' then ['\\', c]
  else if c = '\x08' then ['\\', 'b']
  else if c = '\x09' then ['\\', 't']
  else if c = '\x0a' then ['\\', 'n']
  else if c = '\x0c' then ['\\', 'f']
  else if c = '\x0d' then ['\\', 'r']
  else if c.toNat < 32 then
    ['\\', 'u', '0', '0', Nat.digitChar (c.toNat / 16), Nat.digitChar (c.toNat % 16)]
  else [c]

def quoted (s : String) : List Char := '\x22' :: s.toList.flatMap escape ++ ['\x22']

namespace Document

variable {F : Type} (number : F → List Char)

mutual
/-- The text of a document; `number` is that of a fractional number. -/
def text : Document F → List Char
  | null => "null".toList
  | bool b => (toString b).toList
  | int n => (toString n).toList
  | float x => number x
  | str s => quoted s
  | arr items => '[' :: [','].intercalate (texts items) ++ [']']
  | obj fields => '\x7b' :: [','].intercalate (fieldTexts fields) ++ ['\x7d']

def texts : List (Document F) → List (List Char)
  | [] => []
  | d :: items => d.text :: texts items

def fieldTexts : List (String × Document F) → List (List Char)
  | [] => []
  | (name, d) :: fields => (quoted name ++ ':' :: d.text) :: fieldTexts fields
end

/-- `serde_json::to_vec`. -/
def toVec (d : Document F) : List UInt8 := utf8 (d.text number)

def size (d : Document F) : Nat := (d.toVec number).length

example : (arr [obj [("a", int (-3))], str "\"\n", null] : Document Empty).text nofun =
    "[\x7b\"a\":-3\x7d,\"\\\"\\n\",null]".toList := by decide +kernel

end Document

/-! ## Sizes -/

theorem length_utf8_append (cs ds : List Char) :
    (utf8 (cs ++ ds)).length = (utf8 cs).length + (utf8 ds).length := by
  rw [utf8_append, List.length_append]

/-- No character takes more than six bytes in a string. -/
theorem length_escape_le (c : Char) : (utf8 (escape c)).length ≤ 6 := by
  have hcontrol : ∀ n < 32, (utf8 ['\\', 'u', '0', '0', Nat.digitChar (n / 16),
      Nat.digitChar (n % 16)]).length ≤ 6 := by decide
  unfold escape
  split_ifs with h _ _ _ _ _ hn
  · rw [Bool.or_eq_true, decide_eq_true_eq, decide_eq_true_eq] at h
    rcases h with rfl | rfl <;> decide
  · decide
  · decide
  · decide
  · decide
  · decide
  · exact hcontrol _ hn
  · rw [utf8_cons, utf8_nil, List.append_nil, String.length_utf8EncodeChar]
    exact Nat.le_trans c.utf8Size_le_four (by decide)

theorem length_quoted_le (s : String) : (utf8 (quoted s)).length ≤ 6 * s.toList.length + 2 := by
  have hchars : ∀ cs : List Char, (utf8 (cs.flatMap escape)).length ≤ 6 * cs.length := by
    intro cs
    induction cs with
    | nil => decide
    | cons c cs ih =>
      rw [List.flatMap_cons, length_utf8_append, List.length_cons]
      have hc := length_escape_le c
      omega
  have hquote : (utf8 ['\x22']).length = 1 := by decide
  have hs := hchars s.toList
  rw [quoted, length_utf8_append, ← List.singleton_append, length_utf8_append, hquote]
  omega

namespace Document

variable {F : Type} (number : F → List Char)

theorem texts_eq (items : List (Document F)) : texts number items = items.map (text number) := by
  induction items with
  | nil => rfl
  | cons d items ih => rw [texts, ih, List.map_cons]

/-- Each item takes its own bytes and one for a comma or a bracket. -/
theorem size_arr_le (items : List (Document F)) :
    (arr items).size number ≤ (items.map (size number · + 1)).sum + 2 := by
  have hbody : ∀ items : List (Document F), (utf8 ([','].intercalate (texts number items))).length ≤
      (items.map (size number · + 1)).sum := by
    intro items
    induction items with
    | nil => exact Nat.le_refl 0
    | cons d items ih =>
      have hd : d.size number = (utf8 (d.text number)).length := rfl
      cases items with
      | nil =>
        rw [texts_eq, List.map_singleton, List.intercalate_singleton, List.map_singleton,
          List.sum_singleton, ← hd]
        omega
      | cons next items =>
        have hcomma : (utf8 [',']).length = 1 := by decide
        rw [texts, texts, List.intercalate_cons_cons, length_utf8_append, length_utf8_append, hcomma,
          ← texts, List.map_cons, List.sum_cons, ← hd]
        omega
  have hopen : (utf8 ['[']).length = 1 := by decide
  have hclose : (utf8 [']']).length = 1 := by decide
  have h := hbody items
  rw [size, toVec, text, length_utf8_append, ← List.singleton_append, length_utf8_append, hopen,
    hclose]
  omega

end Document

end AgentDaemon
