import AgentDaemon.Lib.OsPath

/-!
The names in the session directory: the sessions themselves, the trace beside each of them, and
the pointer to the current one. A session may be called after the base name and `.bak-` and anything
behind that, so that the trace of such a session is named like another one (`apart_iff`).
-/

namespace AgentDaemon.Session

open OsPath

def baseName (path : List Part) : List Char :=
  ((fileName path).bind fromUtf8).getD "session.jsonl".toList

def baseStem (path : List Part) : List Char :=
  ((fileStem path).bind fromUtf8).getD "session".toList

def baseExtension (path : List Part) : List Char :=
  ((extension path).bind fromUtf8).getD "jsonl".toList

/-- Where the sessions are. -/
def directory (base : List Part) : List Part := (parent base).getD (parts (utf8 ['.']))

def sessionPath (base : List Part) (id : List Char) : List Part :=
  join (directory base) (parts (utf8 id))

def isSessionName (base : List Part) (name : List Char) : Bool :=
  name = baseName base || (baseName base ++ ".bak-".toList).isPrefixOf name ||
    ((baseStem base ++ ['-']).isPrefixOf name && ('.' :: baseExtension base).isSuffixOf name)

def validateSessionId (base : List Part) (id : List Char) : Bool :=
  fileName (parts (utf8 id)) = some (utf8 id) && isSessionName base id

def tracePath (session : List Part) : List Part :=
  withFileName session (utf8 (baseName session ++ ".trace".toList))

def pointerPath (base : List Part) : List Part :=
  withFileName base (utf8 (baseName base ++ ".current".toList))

/-- The session file is in the directory, its trace is no session file, and no session file has
the name of the pointer. -/
structure Apart (base : List Part) (id : List Char) : Prop where
  child : parent (sessionPath base id) = some (directory base)
  trace : ∀ id', validateSessionId base id' = true →
    tracePath (sessionPath base id) ≠ sessionPath base id'
  pointer : ∀ id', validateSessionId base id' = true →
    fileName (pointerPath base) ≠ fileName (sessionPath base id')

/-! ## Names -/

theorem isSessionName_iff {base : List Part} {name : List Char} :
    isSessionName base name = true ↔ name = baseName base ∨
      (baseName base ++ ".bak-".toList) <+: name ∨
        (baseStem base ++ ['-']) <+: name ∧ ('.' :: baseExtension base) <:+ name := by
  simp only [isSessionName, Bool.or_eq_true, Bool.and_eq_true, decide_eq_true_eq,
    List.isPrefixOf_iff_prefix, List.isSuffixOf_iff_suffix, or_assoc]

theorem validateSessionId_iff {base : List Part} {id : List Char} :
    validateSessionId base id = true ↔ IsName (utf8 id) ∧ isSessionName base id = true := by
  rw [validateSessionId, Bool.and_eq_true, decide_eq_true_eq]
  refine and_congr_left' ⟨isName_of_fileName, fun h => ?_⟩
  rw [parts_of_isName h]
  rfl

theorem utf8_injective {cs ds : List Char} (h : utf8 cs = utf8 ds) : cs = ds := by
  have hcs := fromUtf8_utf8 cs
  rw [h, fromUtf8_utf8] at hcs
  exact (Option.some.inj hcs).symm

/-- A name with more behind it is a name. -/
theorem isName_append {cs : List Char} (h : IsName (utf8 cs)) {more : List Char}
    (hmore : '/' ∉ more) (hlen : 2 < more.length) : IsName (utf8 (cs ++ more)) := by
  have hpos : ∀ ds : List Char, ds.length ≤ (utf8 ds).length := by
    intro ds
    induction ds with
    | nil => exact Nat.zero_le _
    | cons d ds ih =>
      have hone := List.length_pos_iff.mpr (encode_ne_nil d)
      rw [utf8_cons, List.length_append, List.length_cons]
      omega
  have hlong : 2 < (utf8 (cs ++ more)).length := by
    have hm := hpos more
    rw [utf8_append, List.length_append]
    omega
  refine ⟨fun e => ?_, fun e => ?_, fun e => ?_, fun hm => ?_⟩
  · rw [e] at hlong
    cases hlong
  · rw [e] at hlong
    simp at hlong
  · rw [e] at hlong
    simp at hlong
  · rw [utf8_append] at hm
    rcases List.mem_append.mp hm with hm | hm
    · exact h.2.2.2 hm
    · exact hmore (ascii_mem_utf8 (by decide) hm)

theorem sessionPath_eq (base : List Part) {id : List Char} (h : IsName (utf8 id)) :
    sessionPath base id = directory base ++ [.normal (utf8 id)] := join_name _ h

theorem baseName_sessionPath (base : List Part) {id : List Char} (h : IsName (utf8 id)) :
    baseName (sessionPath base id) = id := by
  rw [baseName, sessionPath_eq base h, fileName_concat, Option.bind_some, fromUtf8_utf8]
  rfl

theorem tracePath_eq (base : List Part) {id : List Char} (h : IsName (utf8 id)) :
    tracePath (sessionPath base id) =
      directory base ++ [.normal (utf8 (id ++ ".trace".toList))] := by
  rw [tracePath, baseName_sessionPath base h, sessionPath_eq base h,
    withFileName_concat _ _ (isName_append h (by decide) (by decide))]

/-! ## The base name -/

/-- The base name starts with the stem, up to its end or to a dot. -/
theorem baseName_cases (base : List Part) : baseName base = "session.jsonl".toList ∨
    ∃ rest, baseName base = baseStem base ++ rest ∧ ∀ c ∈ rest.head?, c = '.' := by
  unfold baseName baseStem fileStem
  cases hname : fileName base with
  | none => exact .inl rfl
  | some name =>
    rw [Option.bind_some, Option.map_some, Option.bind_some]
    cases hread : fromUtf8 name with
    | none => exact .inl rfl
    | some cs =>
      right
      have hutf := utf8_of_fromUtf8 hread
      rw [Option.getD_some]
      have hdotByte : ∀ ds : List Char, '.' ∉ ds → dot ∉ utf8 ds := fun ds h hm =>
        h (ascii_mem_utf8 (d := '.') (by decide) hm)
      by_cases hdot : '.' ∈ cs
      · -- the last dot
        obtain ⟨after, before, hrev, hafter⟩ := List.eq_append_cons_of_mem (List.mem_reverse.mpr hdot)
        have hcs : cs = before.reverse ++ '.' :: after.reverse := by
          rw [← List.reverse_reverse cs, hrev]
          simp
        have hclean : dot ∉ utf8 after.reverse :=
          hdotByte _ fun hm => hafter (List.mem_reverse.mp hm)
        have hbytes : name = utf8 before.reverse ++ dot :: utf8 after.reverse := by
          rw [← hutf, hcs, utf8_append, utf8_cons]
          rfl
        by_cases hne : before = []
        · subst hne
          have hsplit : splitDot name = (name, none) := by
            rw [hbytes]
            exact splitDot_hidden hclean
          rw [hsplit, hread]
          exact ⟨[], (List.append_nil _).symm, fun _ h => nomatch h⟩
        · have hfilled : utf8 before.reverse ≠ [] := by
            intro e
            have hnil : before.reverse = [] := utf8_injective (e.trans utf8_nil.symm)
            exact hne (List.reverse_eq_nil_iff.mp hnil)
          rw [hbytes, splitDot_some hclean hfilled, fromUtf8_utf8]
          refine ⟨'.' :: after.reverse, hcs, ?_⟩
          rintro c ⟨⟩
          rfl
      · have hsplit : splitDot name = (name, none) := splitDot_none (hutf ▸ hdotByte cs hdot)
        rw [hsplit, hread]
        exact ⟨[], (List.append_nil _).symm, fun _ h => nomatch h⟩

theorem dot_not_mem_baseExtension (base : List Part) : '.' ∉ baseExtension base := by
  unfold baseExtension extension
  cases fileName base with
  | none => decide
  | some name =>
    rw [Option.bind_some]
    cases hsplit : (splitDot name).2 with
    | none => decide
    | some after =>
      rw [Option.bind_some]
      cases hread : fromUtf8 after with
      | none => decide
      | some cs =>
        rw [Option.getD_some]
        intro hm
        have hbyte : dot ∈ after := utf8_of_fromUtf8 hread ▸ mem_utf8_of_ascii (by decide) hm
        unfold splitDot at hsplit
        split at hsplit
        · cases hsplit
        · split at hsplit
          · cases hsplit
          · cases hsplit
            have hd := List.mem_takeWhile_imp (List.mem_reverse.mp hbyte)
            simp at hd

theorem isName_baseName (path : OsStr) : IsName (utf8 (baseName (parts path))) := by
  unfold baseName
  cases hname : fileName (parts path) with
  | none => decide
  | some name =>
    rw [Option.bind_some]
    cases hread : fromUtf8 name with
    | none => decide
    | some cs =>
      rw [Option.getD_some, utf8_of_fromUtf8 hread]
      exact isName_of_fileName hname

/-! ## Traces and the pointer -/

/-- What is put behind a name is no part of a pattern that ends with another character. -/
theorem prefix_append_iff {pattern cs more : List Char} (hne : pattern ≠ [])
    (h : ∀ c ∈ pattern.getLast?, c ∉ more) : pattern <+: cs ++ more ↔ pattern <+: cs := by
  refine ⟨fun hp => ?_, fun hp => hp.trans (List.prefix_append _ _)⟩
  rcases List.prefix_or_prefix_of_prefix hp (List.prefix_append cs more) with hp' | ⟨rest, rfl⟩
  · exact hp'
  · cases hrest : rest.getLast? with
    | none =>
      rw [List.getLast?_eq_none_iff.mp hrest, List.append_nil]
    | some c =>
      have hc : c ∈ (cs ++ rest).getLast? := by
        rw [List.getLast?_append, hrest]
        rfl
      have hmore := (List.prefix_append_right_inj cs).mp hp
      exact absurd (hmore.subset (List.mem_of_getLast? hrest)) (h c hc)

/-- The end of a trace is its extension. -/
theorem suffix_trace_iff {ext cs : List Char} (h : '.' ∉ ext) :
    ('.' :: ext) <:+ cs ++ ".trace".toList ↔ ext = "trace".toList := by
  refine ⟨fun hs => ?_, fun e => ?_⟩
  · rcases List.suffix_or_suffix_of_suffix hs (List.suffix_append cs ".trace".toList) with
      ⟨front, e⟩ | ⟨front, e⟩
    · cases front with
      | nil => exact (List.cons.inj e).2
      | cons c front =>
        have hmem : '.' ∈ "trace".toList := by
          rw [show "trace".toList = front ++ '.' :: ext from (List.cons.inj e).2.symm]
          simp
        exact absurd hmem (by decide)
    · cases front with
      | nil => exact (List.cons.inj e).2.symm
      | cons c front =>
        refine absurd ?_ h
        rw [← (List.cons.inj e).2]
        exact List.mem_append_right _ (by decide)
  · rw [e]
    exact List.suffix_append cs ".trace".toList

/-- No session is called after the stem and a hyphen where the base name is. -/
theorem not_stem_prefix (base : List Part) (more : List Char) (hmore : ∀ c ∈ more.head?, c = '.')
    (hother : '-' ∉ "session.jsonl".toList ++ more) :
    ¬ (baseStem base ++ ['-']) <+: baseName base ++ more := by
  intro hp
  rcases baseName_cases base with e | ⟨rest, e, hrest⟩
  · rw [e] at hp
    exact hother (hp.subset (by simp))
  · rw [e, List.append_assoc, List.prefix_append_right_inj] at hp
    have hhead : ∀ c ∈ (rest ++ more).head?, c = '.' := by
      intro c hc
      cases rest with
      | nil => exact hmore c hc
      | cons r rest => exact hrest c hc
    obtain ⟨tail, htail⟩ := hp
    have hc := hhead '-' (by rw [← htail]; rfl)
    cases hc

/-- When the trace of a session is called like a session. -/
theorem isSessionName_trace_iff {base : List Part} {id : List Char}
    (hid : isSessionName base id = true) :
    isSessionName base (id ++ ".trace".toList) = true ↔
      (baseName base ++ ".bak-".toList) <+: id ∨
        (baseStem base ++ ['-']) <+: id ∧ baseExtension base = "trace".toList := by
  have hbak : (baseName base ++ ".bak-".toList) <+: id ++ ".trace".toList ↔
      (baseName base ++ ".bak-".toList) <+: id := by
    refine prefix_append_iff (by simp) ?_
    rw [List.getLast?_append]
    rintro c ⟨⟩
    decide
  have hstem : (baseStem base ++ ['-']) <+: id ++ ".trace".toList ↔
      (baseStem base ++ ['-']) <+: id := by
    refine prefix_append_iff (by simp) ?_
    rw [List.getLast?_concat]
    rintro c ⟨⟩
    decide
  have hbase : id ++ ".trace".toList ≠ baseName base := by
    intro e
    have hlen := congrArg List.length e
    rw [List.length_append] at hlen
    rcases isSessionName_iff.mp hid with h | h | ⟨h, -⟩
    · rw [h] at hlen
      simp at hlen
    · have hle := h.length_le
      rw [List.length_append] at hle
      simp at hlen hle
      omega
    · have hp := h.trans (List.prefix_append id ".trace".toList)
      rw [e, ← List.append_nil (baseName base)] at hp
      exact not_stem_prefix base [] (fun _ h => nomatch h) (by decide) hp
  rw [isSessionName_iff, hbak, hstem, suffix_trace_iff (dot_not_mem_baseExtension base)]
  exact or_iff_right hbase

/-- The pointer is never called like a session. -/
theorem not_isSessionName_pointer (base : List Part) :
    isSessionName base (baseName base ++ ".current".toList) = false := by
  rw [← Bool.not_eq_true, isSessionName_iff]
  rintro (h | h | ⟨h, -⟩)
  · have hlen := congrArg List.length h
    rw [List.length_append] at hlen
    simp at hlen
  · rw [List.prefix_append_right_inj] at h
    revert h
    decide
  · refine not_stem_prefix base ".current".toList ?_ (by decide) h
    rintro c ⟨⟩
    rfl

/-- **Names.** A session is apart from the traces and the pointer exactly if it is no `.bak-` session,
and not called after the stem where the extension is `trace`. -/
theorem apart_iff (path : OsStr) {id : List Char}
    (hid : validateSessionId (parts path) id = true) :
    Apart (parts path) id ↔ ¬ (baseName (parts path) ++ ".bak-".toList) <+: id ∧
      ¬ ((baseStem (parts path) ++ ['-']) <+: id ∧ baseExtension (parts path) = "trace".toList) := by
  obtain ⟨hname, hsession⟩ := validateSessionId_iff.mp hid
  have htrace := @isName_append _ hname ".trace".toList (by decide) (by decide)
  have htraceIff := isSessionName_trace_iff hsession
  rw [← not_or]
  constructor
  · intro h hbad
    have hvalid : validateSessionId (parts path) (id ++ ".trace".toList) = true :=
      validateSessionId_iff.mpr ⟨htrace, htraceIff.mpr hbad⟩
    exact h.trace _ hvalid (by rw [tracePath_eq _ hname, sessionPath_eq _ htrace])
  · intro hgood
    refine ⟨?_, fun id' hid' e => ?_, fun id' hid' e => ?_⟩
    · rw [sessionPath_eq _ hname, parent_concat]
    · obtain ⟨hname', hsession'⟩ := validateSessionId_iff.mp hid'
      rw [tracePath_eq _ hname, sessionPath_eq _ hname', List.append_cancel_left_eq] at e
      have heq : id ++ ".trace".toList = id' := by
        apply utf8_injective
        simpa using e
      rw [← heq] at hsession'
      exact hgood (htraceIff.mp hsession')
    · obtain ⟨hname', hsession'⟩ := validateSessionId_iff.mp hid'
      have hpointer := @isName_append _ (isName_baseName path) ".current".toList (by decide)
        (by decide)
      rw [pointerPath, fileName_withFileName _ hpointer, sessionPath_eq _ hname',
        fileName_concat] at e
      have heq := utf8_injective (Option.some.inj e)
      rw [← heq, not_isSessionName_pointer] at hsession'
      cases hsession'

/-- The name of a new session. -/
theorem apart_newSession :
    Apart (parts (utf8 "/work/session.jsonl".toList)) "session-1700000000000-42-0.jsonl".toList :=
  (apart_iff (utf8 "/work/session.jsonl".toList) (by decide +kernel)).mpr (by decide +kernel)

/-- The trace of a `.bak-` session is a session. -/
theorem not_apart_backup : ¬ ∀ (path : OsStr) (id id' : List Char),
    validateSessionId (parts path) id = true → validateSessionId (parts path) id' = true →
      tracePath (sessionPath (parts path) id) ≠ sessionPath (parts path) id' := by
  intro h
  exact h (utf8 "/work/session.jsonl".toList) "session.jsonl.bak-1".toList
    "session.jsonl.bak-1.trace".toList (by decide +kernel) (by decide +kernel) (by decide +kernel)

end AgentDaemon.Session
