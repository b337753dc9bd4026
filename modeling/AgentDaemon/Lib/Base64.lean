import Mathlib.Data.List.GetD
import Mathlib.Data.List.Nodup

/-!
Base 64 with the URL alphabet and no padding: that it is injective, and that the strict decoder,
which takes no bits beyond the last byte, reads it back.
-/

namespace AgentDaemon.Base64

/-- The 64 characters, in the order of their values. -/
def alphabet : List Char :=
  "ABCDEFGHIJKLMNOPQRSTUVWXYZabcdefghijklmnopqrstuvwxyz0123456789-_".toList

/-- The character of a 6 bit value. -/
def digit (n : Nat) : Char := alphabet.getD n '_'

theorem digit_inj {m n : Nat} (hm : m < 64) (hn : n < 64) (h : digit m = digit n) : m = n := by
  have hlen : alphabet.length = 64 := by decide +kernel
  have hnodup : alphabet.Nodup := by decide +kernel
  rw [digit, digit, List.getD_eq_getElem _ _ (hlen ▸ hm), List.getD_eq_getElem _ _ (hlen ▸ hn)] at h
  exact hnodup.getElem_inj_iff.mp h

/-- Three bytes make four characters; one or two bytes left over make two or three. -/
def encode : List UInt8 → List Char
  | a :: b :: c :: rest =>
    digit (a.toNat / 4) :: digit (a.toNat % 4 * 16 + b.toNat / 16) ::
      digit (b.toNat % 16 * 4 + c.toNat / 64) :: digit (c.toNat % 64) :: encode rest
  | [a, b] =>
    [digit (a.toNat / 4), digit (a.toNat % 4 * 16 + b.toNat / 16), digit (b.toNat % 16 * 4)]
  | [a] => [digit (a.toNat / 4), digit (a.toNat % 4 * 16)]
  | [] => []

private theorem first_byte {a a' : UInt8} {m n : Nat} (hm : m < 16) (hn : n < 16)
    (h : digit (a.toNat / 4) = digit (a'.toNat / 4))
    (h' : digit (a.toNat % 4 * 16 + m) = digit (a'.toNat % 4 * 16 + n)) : a = a' ∧ m = n := by
  have ha := a.toNat_lt
  have ha' := a'.toNat_lt
  have e := digit_inj (by omega) (by omega) h
  have e' := digit_inj (by omega) (by omega) h'
  exact ⟨UInt8.toNat_inj.mp (by omega), by omega⟩

private theorem second_byte {b b' : UInt8} {m n : Nat} (hm : m < 4) (hn : n < 4)
    (h : b.toNat / 16 = b'.toNat / 16)
    (h' : digit (b.toNat % 16 * 4 + m) = digit (b'.toNat % 16 * 4 + n)) : b = b' ∧ m = n := by
  have e := digit_inj (by omega) (by omega) h'
  exact ⟨UInt8.toNat_inj.mp (by omega), by omega⟩

private theorem third_byte {c c' : UInt8} (h : c.toNat / 64 = c'.toNat / 64)
    (h' : digit (c.toNat % 64) = digit (c'.toNat % 64)) : c = c' := by
  have e := digit_inj (by omega) (by omega) h'
  exact UInt8.toNat_inj.mp (by omega)

theorem encode_injective : ∀ {l m : List UInt8}, encode l = encode m → l = m
  | a :: b :: c :: l, a' :: b' :: c' :: m, h => by
    simp only [encode, List.cons.injEq] at h
    obtain ⟨h₁, h₂, h₃, h₄, h⟩ := h
    have hb := b.toNat_lt
    have hb' := b'.toNat_lt
    have hc := c.toNat_lt
    have hc' := c'.toNat_lt
    obtain ⟨rfl, e₁⟩ := first_byte (by omega) (by omega) h₁ h₂
    obtain ⟨rfl, e₂⟩ := second_byte (by omega) (by omega) e₁ h₃
    rw [third_byte e₂ h₄, encode_injective h]
  | [a, b], [a', b'], h => by
    simp only [encode, List.cons.injEq, and_true] at h
    obtain ⟨h₁, h₂, h₃⟩ := h
    have hb := b.toNat_lt
    have hb' := b'.toNat_lt
    obtain ⟨rfl, e⟩ := first_byte (by omega) (by omega) h₁ h₂
    rw [(second_byte (m := 0) (n := 0) (by omega) (by omega) e h₃).1]
  | [a], [a'], h => by
    simp only [encode, List.cons.injEq, and_true] at h
    rw [(first_byte (m := 0) (n := 0) (by omega) (by omega) h.1 h.2).1]
  | [], [], _ => rfl
  | a :: b :: c :: l, [a', b'], h => by simp [encode] at h
  | a :: b :: c :: l, [a'], h => by simp [encode] at h
  | a :: b :: c :: l, [], h => by simp [encode] at h
  | [a, b], a' :: b' :: c' :: m, h => by simp [encode] at h
  | [a, b], [a'], h => by simp [encode] at h
  | [a, b], [], h => by simp [encode] at h
  | [a], a' :: b' :: c' :: m, h => by simp [encode] at h
  | [a], [a', b'], h => by simp [encode] at h
  | [a], [], h => by simp [encode] at h
  | [], a' :: b' :: c' :: m, h => by simp [encode] at h
  | [], [a', b'], h => by simp [encode] at h
  | [], [a'], h => by simp [encode] at h

/-! ## Decoding -/

/-- The value of a character. -/
def value? (c : Char) : Option Nat := alphabet.idxOf? c

/-- Neither padding nor bits that are left over are allowed. -/
def decode : List Char → Option (List UInt8)
  | w :: x :: y :: z :: rest => do
    let a ← value? w
    let b ← value? x
    let c ← value? y
    let d ← value? z
    let bytes ← decode rest
    return UInt8.ofNat (a * 4 + b / 16) :: UInt8.ofNat (b % 16 * 16 + c / 4) ::
      UInt8.ofNat (c % 4 * 64 + d) :: bytes
  | [w, x, y] => do
    let a ← value? w
    let b ← value? x
    let c ← value? y
    if c % 4 = 0 then some [UInt8.ofNat (a * 4 + b / 16), UInt8.ofNat (b % 16 * 16 + c / 4)]
    else none
  | [w, x] => do
    let a ← value? w
    let b ← value? x
    if b % 16 = 0 then some [UInt8.ofNat (a * 4 + b / 16)] else none
  | [_] => none
  | [] => some []

theorem value?_digit {n : Nat} (h : n < 64) : value? (digit n) = some n := by
  have hall : ∀ n < 64, value? (digit n) = some n := by decide +kernel
  exact hall n h

theorem ofNat_eq {n : Nat} {a : UInt8} (h : n = a.toNat) : UInt8.ofNat n = a := by
  rw [h, UInt8.ofNat_toNat]

theorem decode_encode : ∀ l : List UInt8, decode (encode l) = some l
  | a :: b :: c :: rest => by
    have ha := a.toNat_lt
    have hb := b.toNat_lt
    have hc := c.toNat_lt
    rw [encode, decode, value?_digit (by omega), value?_digit (by omega), value?_digit (by omega),
      value?_digit (by omega), decode_encode rest]
    simp only [Option.bind_eq_bind, Option.bind_some, Option.pure_def]
    rw [ofNat_eq (a := a) (by omega), ofNat_eq (a := b) (by omega), ofNat_eq (a := c) (by omega)]
  | [a, b] => by
    have ha := a.toNat_lt
    have hb := b.toNat_lt
    rw [encode, decode, value?_digit (by omega), value?_digit (by omega), value?_digit (by omega)]
    simp only [Option.bind_eq_bind, Option.bind_some]
    rw [if_pos (by omega), ofNat_eq (a := a) (by omega), ofNat_eq (a := b) (by omega)]
  | [a] => by
    have ha := a.toNat_lt
    rw [encode, decode, value?_digit (by omega), value?_digit (by omega)]
    simp only [Option.bind_eq_bind, Option.bind_some]
    rw [if_pos (by omega), ofNat_eq (a := a) (by omega)]
  | [] => rfl

end AgentDaemon.Base64
