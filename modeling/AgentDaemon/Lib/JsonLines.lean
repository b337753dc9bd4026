import AgentDaemon.Lib.JsonText
import AgentDaemon.Lib.Text
import AgentDaemon.Lib.Utf8

/-!
Logs of JSON records, one on each line, and what a crash in the middle of an append leaves of the
last one. `Codec` is what a log uses of `serde_json`, `Codec.Lawful` what it relies on: records are
read back, take one line, are objects whose first field is `role`, and a text that is read as a
record is a JSON text. `torn_tail` says what a reader sees of a torn record.
-/

namespace AgentDaemon

open JsonText

/-- `to_string` and `from_str` for one type of records. -/
structure Codec (ρ : Type) where
  text : ρ → String
  fromStr : String → Except String ρ

namespace Codec

variable {ρ : Type} (codec : Codec ρ)

def line (r : ρ) : List Char := (codec.text r).toList

/-- `to_vec` and a line feed. -/
def record (r : ρ) : List UInt8 := utf8 (codec.line r) ++ [10]

/-- The bytes of a log that nothing has happened to. -/
def log (records : List ρ) : List UInt8 := records.flatMap codec.record

structure Lawful (records : List ρ) : Prop where
  readsBack : ∀ r ∈ records, codec.fromStr (codec.text r) = .ok r
  /-- Control characters are escaped. -/
  oneLine : ∀ r ∈ records, '\n' ∉ codec.line r
  /-- The fields of a struct are written in their order. -/
  object : ∀ r ∈ records, ∃ body, codec.line r = '\x7b' :: '"' :: 'r' :: (body ++ ['\x7d'])
  wellFormed : ∀ text r, codec.fromStr text = .ok r → WellFormed text.toList

/-- The same of records whose first field starts with another letter. -/
structure LawfulObjects (first : Char) (records : List ρ) : Prop where
  readsBack : ∀ r ∈ records, codec.fromStr (codec.text r) = .ok r
  oneLine : ∀ r ∈ records, '\n' ∉ codec.line r
  object : ∀ r ∈ records, ∃ body, codec.line r = '\x7b' :: '"' :: first :: (body ++ ['\x7d'])
  wellFormed : ∀ text r, codec.fromStr text = .ok r → WellFormed text.toList

variable {codec} {first : Char} {records : List ρ} {r : ρ}

theorem Lawful.objects (h : codec.Lawful records) : codec.LawfulObjects 'r' records where
  readsBack := h.readsBack
  oneLine := h.oneLine
  object := h.object
  wellFormed := h.wellFormed

theorem Lawful.mono {records' : List ρ} (h : codec.Lawful records)
    (hsub : ∀ r ∈ records', r ∈ records) : codec.Lawful records' where
  readsBack r hr := h.readsBack r (hsub r hr)
  oneLine r hr := h.oneLine r (hsub r hr)
  object r hr := h.object r (hsub r hr)
  wellFormed := h.wellFormed

theorem LawfulObjects.mono {records' : List ρ} (h : codec.LawfulObjects first records)
    (hsub : ∀ r ∈ records', r ∈ records) : codec.LawfulObjects first records' where
  readsBack r hr := h.readsBack r (hsub r hr)
  oneLine r hr := h.oneLine r (hsub r hr)
  object r hr := h.object r (hsub r hr)
  wellFormed := h.wellFormed

theorem LawfulObjects.wellFormed_line (h : codec.LawfulObjects first records)
    (hr : r ∈ records) : WellFormed (codec.line r) := h.wellFormed _ r (h.readsBack r hr)

theorem LawfulObjects.getLast?_line (h : codec.LawfulObjects first records) (hr : r ∈ records) :
    (codec.line r).getLast? = some '\x7d' := by
  obtain ⟨body, e⟩ := h.object r hr
  rw [e, show ∀ l : List Char, '\x7b' :: '"' :: first :: (l ++ ['\x7d']) =
    ('\x7b' :: '"' :: first :: l) ++ ['\x7d'] from fun _ => rfl, List.getLast?_concat]

theorem startsAscii_log (h : codec.LawfulObjects first records) :
    StartsAscii (codec.log records) := by
  intro b hb
  cases records with
  | nil => cases hb
  | cons r records =>
    obtain ⟨body, e⟩ := h.object r List.mem_cons_self
    have hhead : (codec.log (r :: records)).head? = some (UInt8.ofNat '\x7b'.val.toNat) := by
      rw [log, List.flatMap_cons, record, e, utf8_cons, encode_ascii (by decide)]
      rfl
    rw [hhead] at hb
    cases hb
    decide

theorem log_append (records records' : List ρ) :
    codec.log (records ++ records') = codec.log records ++ codec.log records' :=
  List.flatMap_append

theorem fromUtf8Lossy_log_append (codec : Codec ρ) (records : List ρ) (rest : List UInt8) :
    fromUtf8Lossy (codec.log records ++ rest) =
      (records.flatMap fun r => codec.line r ++ ['\n']) ++ fromUtf8Lossy rest := by
  induction records with
  | nil => rfl
  | cons r records ih =>
    have e : codec.log (r :: records) ++ rest =
        utf8 (codec.line r ++ ['\n']) ++ (codec.log records ++ rest) := by
      rw [log, List.flatMap_cons, List.append_assoc, record, utf8_append]
      rfl
    rw [e, fromUtf8Lossy_utf8_append, ih, List.flatMap_cons, List.append_assoc (codec.line r ++ ['\n'])]

/-- The line of a record and what follows. -/
theorem lines_record (h : codec.LawfulObjects first records) (hr : r ∈ records) (front : List Char)
    (hfront : '\n' ∉ front) (cs : List Char) :
    lines (front ++ (codec.line r ++ '\n' :: cs)) = (front ++ codec.line r) :: lines cs := by
  rw [← List.append_assoc]
  refine lines_line (fun hm => ?_) ?_ cs
  · rcases List.mem_append.mp hm with hm | hm
    · exact hfront hm
    · exact h.oneLine r hr hm
  · rw [List.getLast?_append, h.getLast?_line hr]
    simp

/-- What a reader sees of the bytes of a torn record, before the bytes of `rest`. -/
structure Tail (codec : Codec ρ) (r : ρ) (torn rest : List UInt8) (tail : List Char) : Prop where
  seen : fromUtf8Lossy (torn ++ rest) = tail ++ fromUtf8Lossy rest
  head : ∃ cs, tail = '\x7b' :: cs
  oneLine : '\n' ∉ tail
  unended : torn.getLast? ≠ some 10
  /-- Only the line feed is missing, or the text is cut off. -/
  whole : tail = codec.line r ∨ ¬ WellFormed tail

theorem torn_tail (h : codec.LawfulObjects first records) (hr : r ∈ records) {torn : List UInt8}
    (hp : torn <+: codec.record r) (hcut : torn ≠ codec.record r) (hne : torn ≠ [])
    {rest : List UInt8} (hrest : StartsAscii rest) : ∃ tail, Tail codec r torn rest tail := by
  obtain ⟨body, hbody⟩ := h.object r hr
  have htext : torn <+: utf8 (codec.line r) := by
    rcases List.prefix_concat_iff.mp hp with e | hshort
    · exact absurd e hcut
    · exact hshort
  obtain ⟨whole, cut, part, hsplit, rfl, hpart, hleft⟩ := utf8_torn htext
  -- the first character is ASCII, so that it is not torn itself
  obtain ⟨cs, hwhole⟩ : ∃ cs, whole = '\x7b' :: cs := by
    cases whole with
    | cons c whole =>
      rw [hbody] at hsplit
      exact ⟨whole, by rw [(List.cons.inj hsplit).1]⟩
    | nil =>
      rw [utf8_nil, List.nil_append] at hne htext
      obtain ⟨b, part, rfl⟩ := List.exists_cons_of_ne_nil hne
      rw [hbody, utf8_cons, encode_ascii (by decide)] at htext
      have hb : b = UInt8.ofNat '\x7b'.val.toNat := by
        obtain ⟨rest, e⟩ := htext
        exact (List.cons.inj e).1
      have hhigh := hpart b List.mem_cons_self
      rw [hb] at hhigh
      exact absurd hhigh (by decide)
  obtain ⟨foreign, hforeign, hnil, hlossy⟩ := fromUtf8Lossy_high hrest part hpart
  have hwholeLine : ∀ c ∈ whole, c ∈ codec.line r := fun c hc => hsplit ▸ List.mem_append_left cut hc
  refine ⟨whole ++ foreign, ?_, ⟨cs ++ foreign, by rw [hwhole]; rfl⟩, ?_, ?_, ?_⟩
  · rw [List.append_assoc, fromUtf8Lossy_utf8_append, hlossy, List.append_assoc]
  · intro hm
    rcases List.mem_append.mp hm with hm | hm
    · exact h.oneLine r hr (hwholeLine _ hm)
    · exact absurd (hforeign _ hm) (by decide)
  · intro hlast
    exact h.oneLine r hr (lf_mem_utf8 (htext.subset (List.mem_of_getLast? hlast)))
  · cases List.eq_nil_or_concat cut with
    | inl hcut' =>
      have hpart' : part = [] := by
        by_contra hne'
        exact hleft hne' hcut'
      rw [hnil.mp hpart', List.append_nil, hsplit, hcut', List.append_nil]
      exact .inl rfl
    | inr hcut' =>
      obtain ⟨cut, last, rfl⟩ := hcut'
      have hlast := h.getLast?_line hr
      have hline := h.wellFormed_line hr
      rw [hsplit, List.concat_eq_append, ← List.append_assoc] at hlast hline
      rw [List.getLast?_concat] at hlast
      cases hlast
      exact .inr (foreign_not_wellFormed (not_wellFormed_of_cut hline rfl) hforeign)

end Codec

end AgentDaemon
