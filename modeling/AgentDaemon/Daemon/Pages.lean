import Mathlib.Data.Nat.Digits.Defs
import AgentDaemon.Lib.DocumentText
import AgentDaemon.Lib.Paging

/-!
`bounded_json_page`: the pages in which the web console loads the messages and the traces of a
session. Page by page every item comes once and in order, and no page is too large
(`lossless_pages`).
-/

namespace AgentDaemon.Daemon

open Paging

/-! ## Compact values -/

def webPageMaxBytes : Nat := 4 * 1024 * 1024 - 256 * 1024

def webPageMaxItemBytes : Nat := 256 * 1024

def marker : String := "… [已截断]"

def truncateText (maxChars : Nat) (text : String) : String :=
  if text.length > maxChars then
    .ofList (text.toList.take (maxChars - marker.length)) ++ marker
  else text

section Compact

variable {F : Type} (number : F → List Char)

mutual
def truncateJsonStrings (maxChars : Nat) : Document F → Document F
  | .str text => .str (truncateText maxChars text)
  | .arr items => .arr (truncateItems maxChars items)
  | .obj fields => .obj (truncateFields maxChars fields)
  | .null => .null
  | .bool b => .bool b
  | .int n => .int n
  | .float x => .float x

def truncateItems (maxChars : Nat) : List (Document F) → List (Document F)
  | [] => []
  | item :: items => truncateJsonStrings maxChars item :: truncateItems maxChars items

def truncateFields (maxChars : Nat) : List (String × Document F) → List (String × Document F)
  | [] => []
  | (name, field) :: fields =>
    (name, truncateJsonStrings maxChars field) :: truncateFields maxChars fields
end

def placeholder (content : String) : Document F :=
  .obj [("truncated", .bool true), ("content", .str content)]

/-- What stands for a value that is too large whatever its strings are cut to. -/
def oversized (message : String) (originalBytes : Nat) : Document F :=
  placeholder (message ++ "（原始大小约 " ++ toString originalBytes ++ " 字节）")

def compactJsonForWeb (value : Document F) (maxBytes : Nat) (message : String) : Document F :=
  let originalBytes := value.size number
  if originalBytes ≤ maxBytes then value
  else
    let fitting := [65536, 16384, 4096, 1024, 256].findSome? fun maxChars =>
      let candidate := truncateJsonStrings maxChars value
      if candidate.size number ≤ maxBytes then some candidate else none
    fitting.getD (oversized message originalBytes)

/-- An item of a page. -/
structure Item where
  /-- What `serde_json::to_value` makes of it. -/
  value : Option (Document F)
  /-- A vector has at most `isize::MAX` bytes. -/
  fits : ∀ d ∈ value, d.size number < 2 ^ 63

variable {number} in
def Item.toValue (item : Item number) : Document F :=
  item.value.getD (placeholder "该记录无法序列化，已隐藏")

variable {number} in
/-- What an item is in a page. -/
def Item.webValue (message : String) (item : Item number) : Document F :=
  compactJsonForWeb number item.toValue webPageMaxItemBytes message

end Compact

/-! ## Pages -/

section Pages

variable {F : Type} {number : F → List Char}

/-- The loop with `limit` rounds to go. -/
def pageLoop (message : String) : (limit : Nat) → List (Item number) → (values : List (Document F)) →
    (usedBytes : Nat) → Page (Document F)
  | 0, items, values, _ => ⟨values, !items.isEmpty⟩
  | _ + 1, [], values, _ => ⟨values, false⟩
  | limit + 1, item :: items, values, usedBytes =>
    let value := item.webValue message
    let itemBytes := value.size number
    if !values.isEmpty && decide (usedBytes + itemBytes + 1 > webPageMaxBytes) then ⟨values, true⟩
    else pageLoop message limit items (values ++ [value]) (usedBytes + itemBytes + 1)

def boundedJsonPage (items : List (Item number)) (limit : Nat) (message : String) :
    Page (Document F) :=
  pageLoop message limit items [] 1024

/-- The pages that `session_load_page` and `session_trace_page` answer with. -/
inductive WebPage where
  | messages
  | records
  deriving DecidableEq

def WebPage.oversizedMessage : WebPage → String
  | messages => "消息过大，已截断；可缩小加载范围查看其余 Session 内容"
  | records => "链路记录过大，已截断；可继续加载其余记录"

def WebPage.load (page : WebPage) (items : List (Item number)) (limit offset : Nat) :
    Page (Document F) :=
  boundedJsonPage (items.drop offset) limit page.oversizedMessage

/-! ## Sizes -/

theorem text_placeholder (content : String) : (placeholder content : Document F).text number =
    "\x7b\"truncated\":true,\"content\":".toList ++ quoted content ++ ['\x7d'] := by
  have hname : quoted "truncated" = "\"truncated\"".toList := by decide
  have hname' : quoted "content" = "\"content\"".toList := by decide
  simp only [placeholder, Document.text, Document.fieldTexts, hname, hname',
    List.intercalate_cons_cons, List.intercalate_singleton]
  generalize quoted content = body
  rfl

theorem size_placeholder_le (content : String) :
    (placeholder content : Document F).size number ≤ 6 * content.length + 31 := by
  have hfront : (utf8 ("\x7b\"truncated\":true,\"content\":".toList)).length = 28 := by decide
  have hback : (utf8 ['\x7d']).length = 1 := by decide
  have hquoted := length_quoted_le content
  rw [String.length_toList] at hquoted
  rw [Document.size, Document.toVec, text_placeholder, length_utf8_append, length_utf8_append,
    hfront, hback]
  omega

/-- With a short message it is small. -/
theorem size_oversized_le {message : String} (h : message.length ≤ 10000) {originalBytes : Nat}
    (hbytes : originalBytes < 2 ^ 63) :
    (oversized message originalBytes : Document F).size number ≤ webPageMaxItemBytes := by
  have hdigits : (toString originalBytes).length ≤ 19 :=
    Nat.repr_length originalBytes 19 (by decide) (Nat.lt_of_lt_of_le hbytes (by decide))
  have hfront : "（原始大小约 ".length = 7 := by decide
  have hback : " 字节）".length = 4 := by decide
  refine Nat.le_trans (size_placeholder_le _) ?_
  simp only [String.length_append, hfront, hback, webPageMaxItemBytes]
  omega

theorem size_toValue_lt (item : Item number) : item.toValue.size number < 2 ^ 63 := by
  unfold Item.toValue
  cases hvalue : item.value with
  | none =>
    have hcontent : "该记录无法序列化，已隐藏".length = 12 := by decide
    refine Nat.lt_of_le_of_lt (size_placeholder_le _) ?_
    rw [hcontent]
    decide
  | some d => exact item.fits d hvalue

theorem size_webValue_le {message : String} (h : message.length ≤ 10000) (item : Item number) :
    (item.webValue message).size number ≤ webPageMaxItemBytes := by
  unfold Item.webValue compactJsonForWeb
  simp only
  split
  · assumption
  · cases hfitting : [65536, 16384, 4096, 1024, 256].findSome? _ with
    | none => exact size_oversized_le h (size_toValue_lt item)
    | some candidate =>
      obtain ⟨maxChars, -, hcandidate⟩ := List.exists_of_findSome?_eq_some hfitting
      split at hcandidate
      · cases hcandidate
        assumption
      · cases hcandidate

/-! ## The loop -/

/-- What a page is charged for. -/
def charged (number : F → List Char) (values : List (Document F)) : Nat :=
  1024 + (values.map (Document.size number · + 1)).sum

theorem charged_concat (values : List (Document F)) (value : Document F) :
    charged number (values ++ [value]) = charged number values + value.size number + 1 := by
  simp only [charged, List.map_append, List.sum_append, List.map_singleton, List.sum_singleton]
  omega

/-- The page goes on with the next items, and there is more exactly if not all are in it. -/
theorem pageLoop_items (message : String) (limit : Nat) (items : List (Item number)) (values : List (Document F))
    (usedBytes : Nat) :
    ∃ n ≤ items.length, (pageLoop message limit items values usedBytes).values =
        values ++ (items.take n).map (Item.webValue message) ∧
      ((pageLoop message limit items values usedBytes).hasMore = true ↔ n < items.length) ∧
      (0 < limit → items ≠ [] → values = [] → 0 < n) := by
  induction limit generalizing items values usedBytes with
  | zero =>
    refine ⟨0, Nat.zero_le _, by simp [pageLoop], ?_, by omega⟩
    cases items <;> simp [pageLoop]
  | succ limit ih =>
    cases items with
    | nil => exact ⟨0, Nat.le_refl 0, by simp [pageLoop], by simp [pageLoop], by simp⟩
    | cons item items =>
      rw [pageLoop]
      split
      · rename_i hfull
        refine ⟨0, Nat.zero_le _, by simp, by simp, ?_⟩
        rintro - - rfl
        simp at hfull
      · obtain ⟨n, hn, hvalues, hmore, -⟩ := ih items (values ++ [item.webValue message])
          (usedBytes + (item.webValue message).size number + 1)
        refine ⟨n + 1, Nat.succ_le_succ hn, ?_, ?_, fun _ _ _ => Nat.succ_pos n⟩
        · rw [hvalues, List.take_succ_cons, List.map_cons, List.append_assoc, List.singleton_append]
        · rw [hmore, List.length_cons, Nat.succ_lt_succ_iff]

/-- A round adds to a page within the bound only what keeps it within the bound. -/
theorem pageLoop_charged {message : String} (h : message.length ≤ 10000) (limit : Nat) (items : List (Item number))
    {values : List (Document F)} (hbound : charged number values ≤ webPageMaxBytes) :
    charged number (pageLoop message limit items values (charged number values)).values ≤
      webPageMaxBytes := by
  induction limit generalizing items values with
  | zero => exact hbound
  | succ limit ih =>
    cases items with
    | nil => exact hbound
    | cons item items =>
      rw [pageLoop]
      split
      · exact hbound
      · rename_i hfull
        rw [← charged_concat]
        refine ih items ?_
        rw [charged_concat]
        cases values with
        | nil =>
          -- The first item is not checked: its own bound is far below that of a page.
          have hitem := size_webValue_le h item
          simp only [charged, List.map_nil, List.sum_nil]
          simp only [webPageMaxItemBytes, webPageMaxBytes] at hitem ⊢
          omega
        | cons first values =>
          simp only [List.isEmpty_cons, Bool.not_false, Bool.true_and, decide_eq_true_eq] at hfull
          omega

theorem size_page_le {message : String} (h : message.length ≤ 10000) (items : List (Item number)) (limit : Nat) :
    (Document.arr (boundedJsonPage items limit message).values).size number ≤ webPageMaxBytes := by
  have hstart : charged number [] = 1024 := rfl
  have hbound : charged number [] ≤ webPageMaxBytes := by
    rw [hstart]
    decide
  have hcharged := pageLoop_charged h limit items hbound
  have hsize := Document.size_arr_le number (boundedJsonPage items limit message).values
  rw [hstart] at hcharged
  rw [boundedJsonPage] at hsize ⊢
  rw [charged] at hcharged
  omega

/-- The page at an offset is exact. -/
theorem exact_load (page : WebPage) (items : List (Item number)) {limit : Nat} (h : 1 ≤ limit)
    (offset : Nat) :
    Exact (Item.webValue page.oversizedMessage) items offset (page.load items limit offset) := by
  obtain ⟨n, hn, hvalues, hmore, hpos⟩ :=
    pageLoop_items page.oversizedMessage limit (items.drop offset) [] 1024
  have hpage : page.load items limit offset =
      pageLoop page.oversizedMessage limit (items.drop offset) [] 1024 := rfl
  rw [← hpage, List.nil_append] at hvalues
  rw [← hpage] at hmore
  have hlength : (page.load items limit offset).values.length = n := by
    rw [hvalues, List.length_map, List.length_take_of_le hn]
  rw [List.length_drop] at hn hmore
  constructor
  · rw [hlength]
    exact hvalues
  · intro hlt hnil
    have hne : items.drop offset ≠ [] := by
      rw [ne_eq, List.drop_eq_nil_iff]
      omega
    have hn0 := hpos h hne rfl
    rw [hnil, List.length_nil] at hlength
    omega
  · rw [hmore, hlength]
    omega

/-- What the console relies on. -/
structure Lossless (page : WebPage) (items : List (Item number)) (limit : Nat) : Prop where
  /-- The pages from the start on hold every item once and in order, and they come to an end. -/
  covers : ∃ pages, requestAll (page.load items limit) (items.length + 1) 0 = some pages ∧
    pages.flatMap Page.values = items.map (Item.webValue page.oversizedMessage)
  exact : ∀ offset,
    Exact (Item.webValue page.oversizedMessage) items offset (page.load items limit offset)
  bytes : ∀ offset,
    (Document.arr (page.load items limit offset).values).size number ≤ webPageMaxBytes

theorem lossless_pages (page : WebPage) (items : List (Item number)) {limit : Nat} (h : 1 ≤ limit) :
    Lossless page items limit where
  covers := requestAll_exact (exact_load page items h) (Nat.lt_succ_self _)
  exact := exact_load page items h
  bytes offset := by
    have hmessage : page.oversizedMessage.length ≤ 10000 := by
      cases page <;> decide
    exact size_page_le hmessage (items.drop offset) limit

private theorem fits_textItem {n : Nat} (h : n < 2 ^ 60) :
    ∀ d ∈ some (Document.str (.ofList (List.replicate n 'x'))),
      d.size (fun _ : Empty => []) < 2 ^ 63 := by
  rintro _ ⟨⟩
  have hquoted := length_quoted_le (.ofList (List.replicate n 'x'))
  rw [String.toList_ofList, List.length_replicate] at hquoted
  rw [Document.size, Document.toVec, Document.text]
  omega

private def textItem (n : Nat) (h : n < 2 ^ 60) : Item (fun _ : Empty => []) where
  value := some (.str (.ofList (List.replicate n 'x')))
  fits := fits_textItem h

/-- Messages each of which is too large for a page. -/
theorem lossless_pages_large :
    Lossless .messages (List.replicate 80 (textItem (300 * 1024) (by decide))) 80 :=
  lossless_pages .messages _ (by decide)

end Pages

end AgentDaemon.Daemon
