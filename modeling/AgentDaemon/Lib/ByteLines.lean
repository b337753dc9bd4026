import Mathlib.Data.List.DropRight

/-!
Reading a stream of byte chunks line by line. Every line goes to a consumer that may fail, and
leaves the state it has come to then. What is left at the end of the stream is the last line.
`read_induct` lifts what the consumer keeps to the whole stream, `read_cut` says that it does not
matter how the bytes are cut into chunks, and `feed_lines` reads them line by line.
-/

namespace AgentDaemon.ByteLines

variable {σ ε : Type}

def lineFeed : UInt8 := 10

def carriageReturn : UInt8 := 13

/-- `u8::is_ascii_whitespace`. -/
def isAsciiWhitespace (b : UInt8) : Bool := b = 9 || b = 10 || b = 12 || b = 13 || b = 32

/-- `<[u8]>::trim_ascii`. -/
def trimAscii (bytes : List UInt8) : List UInt8 :=
  ((bytes.dropWhile isAsciiWhitespace).reverse.dropWhile isAsciiWhitespace).reverse

/-- A line without the line feeds and carriage returns at its end. -/
def stripEnd (line : List UInt8) : List UInt8 :=
  (line.reverse.dropWhile fun b => b = lineFeed || b = carriageReturn).reverse

section Read

variable (consume : List UInt8 → σ → Except (ε × σ) σ)

/-- The lines that a chunk completes. `pending` has no line feed. -/
def feed : List UInt8 → List UInt8 → σ → Except (ε × σ) (List UInt8 × σ)
  | pending, [], s => .ok (pending, s)
  | pending, b :: bytes, s =>
    if b = lineFeed then do
      let s ← consume (stripEnd (pending ++ [b])) s
      feed [] bytes s
    else feed (pending ++ [b]) bytes s

/-- The whole stream. A chunk that cannot be read ends it. -/
def read : List UInt8 → List (Except ε (List UInt8)) → σ → Except (ε × σ) σ
  | pending, [], s => if pending.isEmpty then .ok s else consume pending s
  | _, .error e :: _, s => .error (e, s)
  | pending, .ok bytes :: chunks, s => do
    let (pending, s) ← feed consume pending bytes s
    read pending chunks s

end Read

/-- The state that a reading has come to. -/
def last : Except (ε × σ) σ → σ
  | .ok s => s
  | .error (_, s) => s

variable {consume : List UInt8 → σ → Except (ε × σ) σ} {I : σ → Prop}

theorem last_bind {x : Except (ε × σ) σ} {f : σ → Except (ε × σ) σ} (hx : I (last x))
    (hf : ∀ s, I s → I (last (f s))) : I (last (x >>= f)) := by
  cases x with
  | error e => exact hx
  | ok s => exact hf s hx

theorem feed_induct (hstep : ∀ line s, I s → I (last (consume line s))) (bytes : List UInt8)
    (pending : List UInt8) (s : σ) (hs : I s) :
    I (last (Prod.snd <$> feed consume pending bytes s)) := by
  induction bytes generalizing pending s with
  | nil => exact hs
  | cons b bytes ih =>
    by_cases hb : b = lineFeed
    · have hline := hstep (stripEnd (pending ++ [b])) s hs
      rw [feed, if_pos hb]
      cases hc : consume (stripEnd (pending ++ [b])) s with
      | error e =>
        rw [hc] at hline
        exact hline
      | ok s' =>
        rw [hc] at hline
        exact ih [] s' hline
    · rw [feed, if_neg hb]
      exact ih _ s hs

/-- **Line rule.** What every line keeps, the whole stream keeps, also where it fails. -/
theorem read_induct (hstep : ∀ line s, I s → I (last (consume line s)))
    (chunks : List (Except ε (List UInt8))) (pending : List UInt8) (s : σ) (hs : I s) :
    I (last (read consume pending chunks s)) := by
  induction chunks generalizing pending s with
  | nil =>
    rw [read]
    split
    · exact hs
    · exact hstep pending s hs
  | cons chunk chunks ih =>
    cases chunk with
    | error e => exact hs
    | ok bytes =>
      have hfeed := feed_induct hstep bytes pending s hs
      rw [read]
      cases hf : feed consume pending bytes s with
      | error e =>
        rw [hf] at hfeed
        exact hfeed
      | ok r =>
        rw [hf] at hfeed
        exact ih r.1 r.2 hfeed

/-! ## Cutting the stream -/

theorem feed_append (xs ys pending : List UInt8) (s : σ) :
    feed consume pending (xs ++ ys) s =
      feed consume pending xs s >>= fun r => feed consume r.1 ys r.2 := by
  induction xs generalizing pending s with
  | nil => rfl
  | cons b xs ih =>
    by_cases hb : b = lineFeed
    · simp only [List.cons_append, feed, if_pos hb, ih]
      -- A line that fails ends both readings.
      cases consume (stripEnd (pending ++ [b])) s <;> rfl
    · simp only [List.cons_append, feed, if_neg hb, ih]

/-- The chunks of a stream leave what one chunk of all their bytes leaves. -/
theorem read_append (cut : List (List UInt8)) (rest : List (Except ε (List UInt8)))
    (pending : List UInt8) (s : σ) :
    read consume pending (cut.map Except.ok ++ rest) s =
      feed consume pending cut.flatten s >>= fun r => read consume r.1 rest r.2 := by
  induction cut generalizing pending s with
  | nil => rfl
  | cons bytes cut ih =>
    rw [List.flatten_cons, feed_append, List.map_cons, List.cons_append, read]
    cases feed consume pending bytes s with
    | error e => rfl
    | ok r => exact ih r.1 r.2

/-- **Chunk rule.** A stream is read in the same way however its bytes are cut. -/
theorem read_cut {cut cut' : List (List UInt8)} (h : cut.flatten = cut'.flatten)
    (consume : List UInt8 → σ → Except (ε × σ) σ) (rest : List (Except ε (List UInt8)))
    (pending : List UInt8) (s : σ) :
    read consume pending (cut.map Except.ok ++ rest) s =
      read consume pending (cut'.map Except.ok ++ rest) s := by
  rw [read_append, read_append, h]

/-! ## Lines -/

theorem feed_rest {rest : List UInt8} (h : lineFeed ∉ rest) (pending : List UInt8) (s : σ) :
    feed consume pending rest s = .ok (pending ++ rest, s) := by
  induction rest generalizing pending with
  | nil => rw [feed, List.append_nil]
  | cons b rest ih =>
    have hb : b ≠ lineFeed := fun e => h (e ▸ List.mem_cons_self)
    rw [feed, if_neg hb, ih (fun hm => h (List.mem_cons_of_mem _ hm)), List.append_assoc,
      List.singleton_append]

theorem feed_line {line : List UInt8} (h : lineFeed ∉ line) (bytes pending : List UInt8) (s : σ) :
    feed consume pending (line ++ lineFeed :: bytes) s =
      consume (stripEnd (pending ++ line ++ [lineFeed])) s >>= feed consume [] bytes := by
  induction line generalizing pending with
  | nil =>
    rw [List.nil_append, feed, if_pos rfl, List.append_nil]
  | cons b line ih =>
    have hb : b ≠ lineFeed := fun e => h (e ▸ List.mem_cons_self)
    rw [List.cons_append, feed, if_neg hb, ih (fun hm => h (List.mem_cons_of_mem _ hm)),
      List.append_assoc pending]
    rfl

/-- **Line by line.** Lines that end with a line feed, and what is behind the last of them. -/
theorem feed_lines {lines : List (List UInt8)} (h : ∀ line ∈ lines, lineFeed ∉ line)
    {rest : List UInt8} (hr : lineFeed ∉ rest) (s : σ) :
    feed consume [] (lines.flatMap (· ++ [lineFeed]) ++ rest) s =
      (rest, ·) <$> lines.foldlM (fun s line => consume (stripEnd (line ++ [lineFeed])) s) s := by
  induction lines generalizing s with
  | nil => exact feed_rest hr [] s
  | cons line lines ih =>
    have hl := h line List.mem_cons_self
    rw [List.flatMap_cons, List.append_assoc, List.append_assoc, List.singleton_append,
      feed_line hl, List.nil_append, List.foldlM_cons]
    cases consume (stripEnd (line ++ [lineFeed])) s with
    | error e => rfl
    | ok s => exact ih (fun l hm => h l (List.mem_cons_of_mem _ hm)) s

/-! ## White space at the end of a line -/

/-- What is put at the end of a line stays behind the stripped line in part. -/
theorem stripEnd_append {text : List UInt8} (h : lineFeed ∉ text) (pad : List UInt8) :
    ∃ back, stripEnd (text ++ pad ++ [lineFeed]) = stripEnd (text ++ [lineFeed]) ++ back ∧
      ∀ b ∈ back, b ∈ pad ∨ b = carriageReturn := by
  let p : UInt8 → Bool := fun b => b = lineFeed || b = carriageReturn
  have hlf : ∀ l : List UInt8, stripEnd (l ++ [lineFeed]) = l.rdropWhile p := fun l =>
    List.rdropWhile_concat_pos p l lineFeed rfl
  have hcr : ∀ b ∈ text.rtakeWhile p, b = carriageReturn := by
    intro b hb
    have hp := List.mem_rtakeWhile_imp hb
    have hmem : b ∈ text := (List.rtakeWhile_suffix p text).subset hb
    simp only [p, Bool.or_eq_true, decide_eq_true_eq] at hp
    exact hp.resolve_left fun e => h (e ▸ hmem)
  have hsplit : (text ++ pad).rdropWhile p =
      if pad.rdropWhile p = [] then text.rdropWhile p else text ++ pad.rdropWhile p := by
    rw [List.rdropWhile, List.reverse_append, List.dropWhile_append, List.rdropWhile]
    simp only [List.isEmpty_iff, List.reverse_eq_nil_iff]
    split
    · rfl
    · rw [List.reverse_append, List.reverse_reverse]
  rw [hlf, hlf, hsplit]
  split
  · exact ⟨[], (List.append_nil _).symm, by simp⟩
  · refine ⟨text.rtakeWhile p ++ pad.rdropWhile p, ?_, fun b hb => ?_⟩
    · rw [← List.append_assoc, List.rdropWhile_append_rtakeWhile]
    · rcases List.mem_append.mp hb with hb | hb
      · exact .inr (hcr b hb)
      · exact .inl ((List.rdropWhile_prefix p pad).subset hb)

theorem trimAscii_append (data : List UInt8) {back : List UInt8}
    (h : ∀ b ∈ back, isAsciiWhitespace b) : trimAscii (data ++ back) = trimAscii data := by
  have hback : back.dropWhile isAsciiWhitespace = [] := List.dropWhile_eq_nil_iff.mpr h
  have hfront : (data ++ back).dropWhile isAsciiWhitespace =
      if (data.dropWhile isAsciiWhitespace).isEmpty then []
      else data.dropWhile isAsciiWhitespace ++ back := by
    rw [List.dropWhile_append, hback]
  rw [trimAscii, trimAscii, hfront]
  split
  · rename_i hempty
    rw [List.isEmpty_iff.mp hempty]
  · rw [List.reverse_append, List.dropWhile_append_of_pos]
    intro b hb
    exact h b (List.mem_reverse.mp hb)

/-- What is trimmed is white space. -/
theorem exists_trimAscii (data : List UInt8) : ∃ front back, data = front ++ trimAscii data ++ back ∧
    (∀ b ∈ front, isAsciiWhitespace b) ∧ ∀ b ∈ back, isAsciiWhitespace b := by
  refine ⟨data.takeWhile isAsciiWhitespace,
    (data.dropWhile isAsciiWhitespace).rtakeWhile isAsciiWhitespace, ?_,
    fun b hb => List.mem_takeWhile_imp hb, fun b hb => List.mem_rtakeWhile_imp hb⟩
  have e : trimAscii data = (data.dropWhile isAsciiWhitespace).rdropWhile isAsciiWhitespace := rfl
  rw [e, List.append_assoc, List.rdropWhile_append_rtakeWhile, List.takeWhile_append_dropWhile]

end AgentDaemon.ByteLines
