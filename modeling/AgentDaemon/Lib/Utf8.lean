import Mathlib.Data.List.Basic
import Mathlib.Data.List.Infix

/-!
UTF-8 over lists of bytes, and the lossy decoder of Rust's standard library, which puts one
U+FFFD in the place of each maximal part of a character that is cut off or wrong. What the
encoder gives is read back (`fromUtf8Lossy_utf8_append`), and a torn character between ASCII
bytes spoils nothing but itself (`fromUtf8Lossy_high`).
-/

namespace AgentDaemon

/-- The bytes of a text. -/
def utf8 (cs : List Char) : List UInt8 := cs.flatMap String.utf8EncodeChar

/-- The character whose encoding the bytes start with. -/
def decodeChar? (bytes : List UInt8) : Option Char := bytes.toByteArray.utf8DecodeChar? 0

def isContinuation (b : UInt8) : Bool := 0x80 ≤ b && b ≤ 0xBF

/-- The second byte of a character of three or four bytes. -/
def secondByte (b x : UInt8) : Bool :=
  if b = 0xE0 then 0xA0 ≤ x && x ≤ 0xBF
  else if b = 0xED then 0x80 ≤ x && x ≤ 0x9F
  else if b = 0xF0 then 0x90 ≤ x && x ≤ 0xBF
  else if b = 0xF4 then 0x80 ≤ x && x ≤ 0x8F
  else 0xE1 ≤ b && b ≤ 0xF3 && isContinuation x

/-- How many bytes one replacement stands for, where no character can be read. -/
def invalidLength : List UInt8 → Nat
  | b :: x :: y :: _ =>
    if secondByte b x then if 0xF0 ≤ b && isContinuation y then 3 else 2 else 1
  | b :: x :: [] => if secondByte b x then 2 else 1
  | _ => 1

/-- Each step reads at least one byte, so that the number of bytes is fuel enough. -/
def lossyFrom : Nat → List UInt8 → List Char
  | 0, _ => []
  | n + 1, bytes =>
    if bytes.isEmpty then []
    else match decodeChar? bytes with
      | some c => c :: lossyFrom n (bytes.drop c.utf8Size)
      | none => '\uFFFD' :: lossyFrom n (bytes.drop (invalidLength bytes))

/-- `String::from_utf8_lossy`. -/
def fromUtf8Lossy (bytes : List UInt8) : List Char := lossyFrom bytes.length bytes

/-- `String::from_utf8`: the text whose encoding the bytes are. -/
def fromUtf8 (bytes : List UInt8) : Option (List Char) :=
  if utf8 (fromUtf8Lossy bytes) = bytes then some (fromUtf8Lossy bytes) else none

/-! ## Bytes -/

@[simp] theorem utf8_nil : utf8 [] = [] := rfl

theorem utf8_cons (c : Char) (cs : List Char) :
    utf8 (c :: cs) = String.utf8EncodeChar c ++ utf8 cs := List.flatMap_cons

theorem utf8_append (cs ds : List Char) : utf8 (cs ++ ds) = utf8 cs ++ utf8 ds :=
  List.flatMap_append

/-- An ASCII character is its own byte. -/
theorem encode_ascii {c : Char} (h : c.val.toNat ≤ 127) :
    String.utf8EncodeChar c = [UInt8.ofNat c.val.toNat] := by
  unfold String.utf8EncodeChar
  rw [if_pos h]

/-- The bytes of any other character are not ASCII. -/
theorem encode_high {c : Char} (h : 127 < c.val.toNat) :
    ∀ b ∈ String.utf8EncodeChar c, 128 ≤ b.toNat := by
  unfold String.utf8EncodeChar
  rw [if_neg (by omega)]
  split
  · simp
    omega
  · split
    · simp
      omega
    · simp
      omega

theorem encode_ne_nil (c : Char) : String.utf8EncodeChar c ≠ [] := by
  have h := Char.utf8Size_pos c
  rw [← String.length_utf8EncodeChar] at h
  exact List.ne_nil_of_length_pos h

/-- No other character has the byte of an ASCII character in it. -/
theorem eq_of_ascii_mem_encode {c d : Char} (hd : d.val.toNat ≤ 127)
    (h : UInt8.ofNat d.val.toNat ∈ String.utf8EncodeChar c) : c = d := by
  have hlow : (UInt8.ofNat d.val.toNat).toNat = d.val.toNat :=
    UInt8.toNat_ofNat_of_lt' (Nat.lt_of_le_of_lt hd (by decide))
  by_cases hc : c.val.toNat ≤ 127
  · rw [encode_ascii hc, List.mem_singleton] at h
    have hval := congrArg UInt8.toNat h
    rw [hlow, UInt8.toNat_ofNat_of_lt' (Nat.lt_of_le_of_lt hc (by decide))] at hval
    exact Char.ext (UInt32.toNat_inj.mp hval.symm)
  · have hhigh := encode_high (by omega) _ h
    omega

theorem ascii_mem_utf8 {cs : List Char} {d : Char} (hd : d.val.toNat ≤ 127)
    (h : UInt8.ofNat d.val.toNat ∈ utf8 cs) : d ∈ cs := by
  obtain ⟨c, hc, hb⟩ := List.mem_flatMap.mp h
  rwa [← eq_of_ascii_mem_encode hd hb]

theorem lf_mem_utf8 {cs : List Char} (h : (10 : UInt8) ∈ utf8 cs) : '\n' ∈ cs :=
  ascii_mem_utf8 (by decide) h

theorem mem_utf8_of_ascii {cs : List Char} {d : Char} (hd : d.val.toNat ≤ 127) (h : d ∈ cs) :
    UInt8.ofNat d.val.toNat ∈ utf8 cs := by
  refine List.mem_flatMap.mpr ⟨d, h, ?_⟩
  rw [encode_ascii hd]
  exact List.mem_cons_self

/-! ## Reading back -/

theorem decodeChar?_encode (c : Char) (rest : List UInt8) :
    decodeChar? (String.utf8EncodeChar c ++ rest) = some c := by
  unfold decodeChar?
  rw [List.toByteArray_append]
  exact ByteArray.utf8DecodeChar?_utf8EncodeChar_append

theorem eq_of_decodeChar? {bytes : List UInt8} {c : Char} (h : decodeChar? bytes = some c) :
    bytes = String.utf8EncodeChar c ++ bytes.drop c.utf8Size := by
  have e := congrArg (fun a : ByteArray => a.data.toList)
    (String.toByteArray_utf8EncodeChar_of_utf8DecodeChar?_eq_some h)
  simp only [ByteArray.data_extract, List.data_toByteArray, List.toList_toArray,
    Array.toList_extract] at e
  have e' : String.utf8EncodeChar c = bytes.take c.utf8Size := by simpa using e
  rw [e', List.take_append_drop]

theorem invalidLength_pos (bytes : List UInt8) : 0 < invalidLength bytes := by
  unfold invalidLength
  split <;> (repeat' split) <;> omega

/-- More fuel changes nothing. -/
theorem lossyFrom_eq (n : Nat) (bytes : List UInt8) (h : bytes.length ≤ n) :
    lossyFrom n bytes = fromUtf8Lossy bytes := by
  unfold fromUtf8Lossy
  induction n using Nat.strong_induction_on generalizing bytes with
  | _ n ih =>
    cases bytes with
    | nil =>
      cases n <;> rfl
    | cons b bytes =>
      rw [List.length_cons] at h ⊢
      obtain ⟨n, rfl⟩ : ∃ m, n = m + 1 := ⟨n - 1, by omega⟩
      have hstep : ∀ k, 0 < k → lossyFrom n ((b :: bytes).drop k) =
          lossyFrom bytes.length ((b :: bytes).drop k) := by
        intro k hk
        have hlen : ((b :: bytes).drop k).length ≤ bytes.length := by
          rw [List.length_drop, List.length_cons]
          omega
        rw [ih n (by omega) _ (by omega)]
        by_cases hn : bytes.length < n + 1
        · rw [ih bytes.length hn _ hlen]
        · omega
      simp only [lossyFrom, List.isEmpty_cons]
      cases decodeChar? (b :: bytes) with
      | some c => simp only [hstep _ (Char.utf8Size_pos c)]
      | none => simp only [hstep _ (invalidLength_pos _)]

@[simp] theorem fromUtf8Lossy_nil : fromUtf8Lossy [] = [] := rfl

theorem fromUtf8Lossy_some {bytes : List UInt8} {c : Char} (hne : bytes ≠ [])
    (h : decodeChar? bytes = some c) :
    fromUtf8Lossy bytes = c :: fromUtf8Lossy (bytes.drop c.utf8Size) := by
  obtain ⟨b, bytes, rfl⟩ := List.exists_cons_of_ne_nil hne
  have hlen : ((b :: bytes).drop c.utf8Size).length ≤ bytes.length := by
    have := Char.utf8Size_pos c
    rw [List.length_drop, List.length_cons]
    omega
  rw [← lossyFrom_eq _ _ hlen, fromUtf8Lossy, List.length_cons, lossyFrom, h]
  rfl

theorem fromUtf8Lossy_none {bytes : List UInt8} (hne : bytes ≠ []) (h : decodeChar? bytes = none) :
    fromUtf8Lossy bytes = '\uFFFD' :: fromUtf8Lossy (bytes.drop (invalidLength bytes)) := by
  obtain ⟨b, bytes, rfl⟩ := List.exists_cons_of_ne_nil hne
  have hlen : ((b :: bytes).drop (invalidLength (b :: bytes))).length ≤ bytes.length := by
    have := invalidLength_pos (b :: bytes)
    rw [List.length_drop, List.length_cons]
    omega
  rw [← lossyFrom_eq _ _ hlen, fromUtf8Lossy, List.length_cons, lossyFrom, h]
  rfl

/-- A text is read back, whatever follows it. -/
theorem fromUtf8Lossy_utf8_append (cs : List Char) (rest : List UInt8) :
    fromUtf8Lossy (utf8 cs ++ rest) = cs ++ fromUtf8Lossy rest := by
  induction cs with
  | nil => rfl
  | cons c cs ih =>
    rw [utf8_cons, List.append_assoc, fromUtf8Lossy_some (by simp)
      (decodeChar?_encode c _), ← String.length_utf8EncodeChar, List.drop_left, ih]
    rfl

theorem utf8_of_fromUtf8 {bytes : List UInt8} {cs : List Char} (h : fromUtf8 bytes = some cs) :
    utf8 cs = bytes := by
  unfold fromUtf8 at h
  split at h
  · rename_i e
    cases h
    exact e
  · cases h

theorem fromUtf8Lossy_utf8 (cs : List Char) : fromUtf8Lossy (utf8 cs) = cs := by
  have h := fromUtf8Lossy_utf8_append cs []
  rwa [List.append_nil, fromUtf8Lossy_nil, List.append_nil] at h

theorem fromUtf8_utf8 (cs : List Char) : fromUtf8 (utf8 cs) = some cs := by
  rw [fromUtf8, fromUtf8Lossy_utf8, if_pos rfl]

/-! ## Torn characters -/

theorem secondByte_high {b x : UInt8} (h : secondByte b x = true) : 128 ≤ x.toNat := by
  unfold secondByte isContinuation at h
  have hle : ∀ n : UInt8, (128 : UInt8) ≤ n → n ≤ x → 128 ≤ x.toNat := by
    intro n hn hx
    have hn' : 128 ≤ n.toNat := UInt8.le_iff_toNat_le.mp hn
    have hx' := UInt8.le_iff_toNat_le.mp hx
    omega
  split at h
  · exact hle 0xA0 (by decide) (by simp at h; exact h.1)
  · split at h
    · exact hle 0x80 (by decide) (by simp at h; exact h.1)
    · split at h
      · exact hle 0x90 (by decide) (by simp at h; exact h.1)
      · split at h
        · exact hle 0x80 (by decide) (by simp at h; exact h.1)
        · exact hle 0x80 (by decide) (by simp at h; exact h.2.1)

/-- A replacement stands for no ASCII byte but the first. -/
theorem invalidLength_high (b : UInt8) (bytes : List UInt8) :
    ∀ x ∈ bytes.take (invalidLength (b :: bytes) - 1), 128 ≤ x.toNat := by
  intro z hz
  unfold invalidLength at hz
  split at hz
  · rename_i b' x y rest heq
    obtain ⟨rfl, rfl⟩ := List.cons.inj heq
    split at hz
    · rename_i hx
      split at hz
      · rename_i hy
        simp only [Bool.and_eq_true, isContinuation, decide_eq_true_eq] at hy
        have hy' := UInt8.le_iff_toNat_le.mp hy.2.1
        simp only [List.take_succ_cons, List.take_zero, List.mem_cons, List.not_mem_nil,
          or_false, Nat.reduceSub] at hz
        rcases hz with rfl | rfl
        · exact secondByte_high hx
        · exact hy'
      · simp only [List.take_succ_cons, List.take_zero, List.mem_cons, List.not_mem_nil,
          or_false, Nat.reduceSub] at hz
        exact hz ▸ secondByte_high hx
    · simp at hz
  · rename_i b' x heq
    obtain ⟨rfl, rfl⟩ := List.cons.inj heq
    split at hz
    · rename_i hx
      simp only [List.take_succ_cons, List.take_zero, List.mem_cons, List.not_mem_nil,
        or_false, Nat.reduceSub] at hz
      exact hz ▸ secondByte_high hx
    · simp at hz
  · simp at hz

/-- ASCII, or nothing. -/
def StartsAscii (bytes : List UInt8) : Prop := ∀ b ∈ bytes.head?, b.toNat < 128

/-- Bytes that are not ASCII, at the start of which nothing ASCII is read, lie before it. -/
theorem high_prefix {high rest l m : List UInt8} (hrest : StartsAscii rest)
    (h : high ++ rest = l ++ m) (hl : ∀ b ∈ l, 128 ≤ b.toNat) :
    ∃ high', high = l ++ high' ∧ m = high' ++ rest := by
  induction l generalizing high with
  | nil => exact ⟨high, rfl, h.symm⟩
  | cons b l ih =>
    cases high with
    | nil =>
      cases rest with
      | nil => cases h
      | cons r rest =>
        obtain ⟨rfl, -⟩ := List.cons.inj h
        have hlow := hrest r rfl
        have hhigh := hl r List.mem_cons_self
        omega
    | cons b' high =>
      obtain ⟨rfl, h'⟩ := List.cons.inj h
      obtain ⟨high', rfl, hm⟩ := ih h' fun b hb => hl b (List.mem_cons_of_mem _ hb)
      exact ⟨high', rfl, hm⟩

/-- What is not ASCII is read as such, up to the next ASCII byte. -/
theorem fromUtf8Lossy_high {rest : List UInt8} (hrest : StartsAscii rest) (high : List UInt8)
    (hhigh : ∀ b ∈ high, 128 ≤ b.toNat) :
    ∃ cs : List Char, (∀ c ∈ cs, 127 < c.val.toNat) ∧ (high = [] ↔ cs = []) ∧
      fromUtf8Lossy (high ++ rest) = cs ++ fromUtf8Lossy rest := by
  induction hn : high.length using Nat.strong_induction_on generalizing high with
  | _ n ih =>
    cases high with
    | nil => exact ⟨[], by simp, by simp, rfl⟩
    | cons b high =>
      have hne : (b :: high) ++ rest ≠ [] := List.cons_ne_nil _ _
      -- one step reads `l` and puts `c` in its place
      have hread : ∃ (c : Char) (l : List UInt8), l ≠ [] ∧ 127 < c.val.toNat ∧
          (∀ b ∈ l, 128 ≤ b.toNat) ∧ ∃ m, (b :: high) ++ rest = l ++ m ∧
            fromUtf8Lossy ((b :: high) ++ rest) = c :: fromUtf8Lossy m := by
        cases hdec : decodeChar? ((b :: high) ++ rest) with
        | some c =>
          have e := eq_of_decodeChar? hdec
          have hc : 127 < c.val.toNat := by
            by_contra hlow
            rw [encode_ascii (by omega), List.cons_append, List.singleton_append] at e
            have hb := hhigh b List.mem_cons_self
            have hlt : c.val.toNat < UInt8.size := Nat.lt_of_le_of_lt (Nat.le_of_not_lt hlow) (by decide)
            rw [(List.cons.inj e).1, UInt8.toNat_ofNat_of_lt' hlt] at hb
            omega
          exact ⟨c, _, encode_ne_nil c, hc, encode_high hc, _, e, fromUtf8Lossy_some hne hdec⟩
        | none =>
          refine ⟨'\uFFFD', ((b :: high) ++ rest).take (invalidLength ((b :: high) ++ rest)), ?_,
            by decide, ?_, _, (List.take_append_drop _ _).symm, fromUtf8Lossy_none hne hdec⟩
          · have hpos := invalidLength_pos ((b :: high) ++ rest)
            intro hnil
            rcases List.take_eq_nil_iff.mp hnil with h0 | h0
            · omega
            · exact hne h0
          · intro x hx
            have hpos := invalidLength_pos ((b :: high) ++ rest)
            obtain ⟨k, hk⟩ : ∃ k, invalidLength ((b :: high) ++ rest) = k + 1 :=
              ⟨_, (Nat.succ_pred_eq_of_pos hpos).symm⟩
            rw [hk, List.cons_append, List.take_succ_cons, List.mem_cons] at hx
            rcases hx with rfl | hx
            · exact hhigh x List.mem_cons_self
            · refine invalidLength_high b (high ++ rest) x ?_
              rw [List.cons_append] at hk
              rwa [hk]
      obtain ⟨c, l, hl, hc, hlhigh, m, hsplit, hlossy⟩ := hread
      obtain ⟨high', hhigh', rfl⟩ := high_prefix hrest hsplit hlhigh
      have hlen : high'.length < n := by
        rw [← hn, hhigh', List.length_append]
        have := List.length_pos_iff.mpr hl
        omega
      obtain ⟨cs, hcs, -, e⟩ := ih high'.length hlen high'
        (fun b hb => hhigh b (hhigh' ▸ List.mem_append_right _ hb)) rfl
      refine ⟨c :: cs, ?_, by simp, by rw [hlossy, e]; rfl⟩
      rw [List.forall_mem_cons]
      exact ⟨hc, hcs⟩

theorem secondByte_low {b x : UInt8} (h : x.toNat < 128) : secondByte b x = false := by
  cases hx : secondByte b x with
  | false => rfl
  | true =>
    have hhigh := secondByte_high hx
    omega

theorem isContinuation_low {x : UInt8} (h : x.toNat < 128) : isContinuation x = false := by
  have hle : ¬ (0x80 : UInt8) ≤ x := by
    rw [UInt8.le_iff_toNat_le]
    have e : (0x80 : UInt8).toNat = 128 := rfl
    omega
  simp [isContinuation, hle]

/-- A character is not completed by what starts with ASCII. -/
theorem decodeChar?_append {bytes rest : List UInt8} (hrest : StartsAscii rest)
    (hne : bytes ≠ []) (h : decodeChar? bytes = none) : decodeChar? (bytes ++ rest) = none := by
  cases hdec : decodeChar? (bytes ++ rest) with
  | none => rfl
  | some c =>
    have e := eq_of_decodeChar? hdec
    have hfront : ∃ bytes', bytes = String.utf8EncodeChar c ++ bytes' := by
      by_cases hc : c.val.toNat ≤ 127
      · obtain ⟨b, bytes, rfl⟩ := List.exists_cons_of_ne_nil hne
        rw [encode_ascii hc] at e ⊢
        exact ⟨bytes, by rw [(List.cons.inj e).1]; rfl⟩
      · obtain ⟨bytes', hb, -⟩ := high_prefix hrest e (encode_high (by omega))
        exact ⟨bytes', hb⟩
    obtain ⟨bytes', rfl⟩ := hfront
    rw [decodeChar?_encode] at h
    cases h

theorem invalidLength_append {bytes rest : List UInt8} (hrest : StartsAscii rest)
    (hne : bytes ≠ []) : invalidLength (bytes ++ rest) = invalidLength bytes ∧
      invalidLength bytes ≤ bytes.length := by
  obtain ⟨b, bytes, rfl⟩ := List.exists_cons_of_ne_nil hne
  rcases bytes with _ | ⟨x, _ | ⟨y, bytes⟩⟩
  · rcases rest with _ | ⟨r, _ | ⟨r', rest⟩⟩
    · exact ⟨rfl, le_rfl⟩
    · have hlow := secondByte_low (b := b) (hrest r rfl)
      simp [invalidLength, hlow]
    · have hlow := secondByte_low (b := b) (hrest r rfl)
      simp [invalidLength, hlow]
  · cases rest with
    | nil =>
      refine ⟨rfl, ?_⟩
      simp only [invalidLength]
      split <;> simp
    | cons r rest =>
      have hlow := isContinuation_low (hrest r rfl)
      simp only [List.cons_append, List.nil_append, invalidLength, hlow, Bool.and_false]
      constructor
      · rfl
      · split <;> simp
  · refine ⟨rfl, ?_⟩
    simp only [invalidLength, List.length_cons]
    split
    · split <;> omega
    · omega

/-- What starts with ASCII is read as if nothing were before it. -/
theorem fromUtf8Lossy_append (bytes : List UInt8) {rest : List UInt8} (hrest : StartsAscii rest) :
    fromUtf8Lossy (bytes ++ rest) = fromUtf8Lossy bytes ++ fromUtf8Lossy rest := by
  induction hn : bytes.length using Nat.strong_induction_on generalizing bytes with
  | _ n ih =>
    by_cases hne : bytes = []
    · rw [hne]
      rfl
    · have hne' : bytes ++ rest ≠ [] := by simp [hne]
      have hpos := List.length_pos_iff.mpr hne
      cases hdec : decodeChar? bytes with
      | some c =>
        have e := eq_of_decodeChar? hdec
        have hdec' : decodeChar? (bytes ++ rest) = some c := by
          rw [e, List.append_assoc]
          exact decodeChar?_encode c _
        have hlen : (bytes.drop c.utf8Size).length < n := by
          have := Char.utf8Size_pos c
          rw [List.length_drop]
          omega
        have hsize : c.utf8Size ≤ bytes.length := by
          rw [e, List.length_append, String.length_utf8EncodeChar]
          omega
        rw [fromUtf8Lossy_some hne' hdec', fromUtf8Lossy_some hne hdec,
          List.drop_append_of_le_length hsize, ih _ hlen _ rfl]
        rfl
      | none =>
        obtain ⟨hsame, hle⟩ := invalidLength_append hrest hne
        have hlen : (bytes.drop (invalidLength bytes)).length < n := by
          have := invalidLength_pos bytes
          rw [List.length_drop]
          omega
        rw [fromUtf8Lossy_none hne' (decodeChar?_append hrest hne hdec), fromUtf8Lossy_none hne hdec,
          hsame, List.drop_append_of_le_length hle, ih _ hlen _ rfl]
        rfl

/-- A text that is torn at some byte: characters, and a part of the next one. -/
theorem utf8_torn {cs : List Char} {torn : List UInt8} (h : torn <+: utf8 cs) :
    ∃ whole cut part, cs = whole ++ cut ∧ torn = utf8 whole ++ part ∧
      (∀ b ∈ part, 128 ≤ b.toNat) ∧ (part ≠ [] → cut ≠ []) := by
  induction cs generalizing torn with
  | nil =>
    rw [utf8_nil, List.prefix_nil] at h
    exact ⟨[], [], [], rfl, h, by simp, fun h => absurd rfl h⟩
  | cons c cs ih =>
    rw [utf8_cons] at h
    rcases List.prefix_or_prefix_of_prefix h (List.prefix_append _ _) with hshort | ⟨rest, rfl⟩
    · by_cases hc : c.val.toNat ≤ 127
      · rw [encode_ascii hc] at hshort h
        rcases List.prefix_cons_iff.mp hshort with rfl | ⟨t, rfl, ht⟩
        · exact ⟨[], c :: cs, [], rfl, rfl, by simp, fun h => absurd rfl h⟩
        · rw [List.prefix_nil.mp ht]
          refine ⟨[c], cs, [], rfl, ?_, by simp, fun h => absurd rfl h⟩
          rw [utf8_cons, encode_ascii hc, utf8_nil]
          rfl
      · exact ⟨[], c :: cs, torn, rfl, rfl, fun b hb =>
          encode_high (by omega) b (hshort.subset hb), fun _ => List.cons_ne_nil _ _⟩
    · obtain ⟨whole, cut, part, rfl, rfl, hpart, hcut⟩ :=
        ih ((List.prefix_append_right_inj _).mp h)
      exact ⟨c :: whole, cut, part, rfl, by rw [utf8_cons, List.append_assoc], hpart, hcut⟩

end AgentDaemon
