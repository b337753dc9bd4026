import AgentDaemon.Lib.Json

/-! Identifiers shared by the run store, the provider records and the daemon. -/

namespace AgentDaemon

structure SessionId where
  val : String
  deriving DecidableEq, Repr

structure RunId where
  val : String
  deriving DecidableEq, Repr

structure TurnId where
  val : String
  deriving DecidableEq, Repr

structure InteractionId where
  val : String
  deriving DecidableEq, Repr

/-- An untagged JSON-RPC id. Its JSON text is injective, so the store compares the values. -/
inductive RequestId where
  | number (n : Nat)
  | string (s : String)
  deriving DecidableEq, Repr

def RequestId.toJson : RequestId → Json
  | number n => .num n
  | string s => .str s

/-- A chat request in flight. -/
structure ActiveKey where
  sessionId : SessionId
  requestId : RequestId
  deriving DecidableEq, Repr

/-- The id given to the run stored at `rowid`. -/
def runIdOf (rowid : Nat) : RunId := ⟨"run-" ++ toString rowid⟩

def turnIdOf (rowid : Nat) : TurnId := ⟨"turn-" ++ toString rowid⟩

theorem toDigits_inj {a b : Nat} (h : Nat.toDigits 10 a = Nat.toDigits 10 b) : a = b := by
  have h10 := congrArg (fun l => Nat.ofDigitChars 10 l 0) h
  simpa [Nat.ofDigitChars_ten_toDigits] using h10

theorem toString_inj {a b : Nat} (h : toString a = toString b) : a = b := by
  refine toDigits_inj ?_
  rw [← Nat.toList_repr, ← Nat.toList_repr]
  exact congrArg String.toList h

theorem isDigit_of_mem_toString {n : Nat} {c : Char} (h : c ∈ (toString n).toList) :
    c.isDigit = true := by
  have hmem : c ∈ Nat.toDigits 10 n := by
    rw [← Nat.toList_repr]
    exact h
  exact Nat.isDigit_of_mem_toDigits (by decide) (by decide) hmem

/-- A number behind a separator can be read back. -/
theorem append_number_inj {sep : Char} (hsep : sep.isDigit = false) {a b : List Char} {m n : Nat}
    (h : a ++ sep :: (toString m).toList = b ++ sep :: (toString n).toList) : a = b ∧ m = n := by
  have hrev : ∀ (l : List Char) (k : Nat), ((l ++ sep :: (toString k).toList).reverse).takeWhile
      (· ≠ sep) = (toString k).toList.reverse := by
    intro l k
    have hd : ∀ c ∈ (toString k).toList.reverse, decide (c ≠ sep) = true := by
      intro c hc
      have hdigit := isDigit_of_mem_toString (List.mem_reverse.mp hc)
      rw [decide_eq_true_eq]
      rintro rfl
      rw [hsep] at hdigit
      cases hdigit
    rw [List.reverse_append, List.reverse_cons, List.append_assoc, List.singleton_append,
      List.takeWhile_append_of_pos hd, List.takeWhile_cons_of_neg (by simp), List.append_nil]
  have hdigits : (toString m).toList = (toString n).toList := by
    rw [← List.reverse_inj, ← hrev a m, ← hrev b n, h]
  rw [hdigits] at h
  exact ⟨List.append_cancel_right h, toString_inj (String.toList_inj.mp hdigits)⟩

end AgentDaemon
