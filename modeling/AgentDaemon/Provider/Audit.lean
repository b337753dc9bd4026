import AgentDaemon.Provider.Attempt
import Mathlib.Algebra.BigOperators.Group.List.Basic
import Mathlib.Data.List.Induction
import Mathlib.Logic.Function.Basic

/-!
What the audit of provider attempts is made of: the record of an attempt as it is stored, which
tells the record (`ProviderAttempt.toJson_inj`), and the sum of the usage of several attempts
(`foldl_addTokens`).
-/

namespace AgentDaemon.Provider

open Function

/-! ## Stored records -/

def ProviderDiagnostic.toJson (d : ProviderDiagnostic) : Json :=
  .obj [("http_status", .ofOption jsonNat d.httpStatus),
    ("upstream_code", .ofOption .str d.upstreamCode),
    ("request_id", .ofOption .str d.requestId),
    ("retry_after_ms", .ofOption jsonNat d.retryAfterMs),
    ("redacted_message", .str d.redactedMessage)]

def ProviderAttempt.toJson (a : ProviderAttempt) : Json :=
  .obj [("attempt_id", .str a.attemptId), ("run_id", .str a.runId.val), ("round", jsonNat a.round),
    ("candidate_index", jsonNat a.candidateIndex),
    ("provider_profile_id", .str a.providerProfileId), ("api_type", .str a.apiType.asStr),
    ("model", .str a.model), ("status", a.status.toJson),
    ("error_kind", .ofOption ProviderErrorKind.toJson a.errorKind),
    ("diagnostic", .ofOption ProviderDiagnostic.toJson a.diagnostic),
    ("retry_after_ms", .ofOption jsonNat a.retryAfterMs),
    ("stream_committed", .bool a.streamCommitted), ("started_at_ms", .num a.startedAtMs),
    ("first_event_at_ms", .ofOption .num a.firstEventAtMs),
    ("finished_at_ms", .ofOption .num a.finishedAtMs),
    ("usage", .ofOption ProviderUsage.toJson a.usage)]

/-- A value that is never `Null` is told from a missing one. -/
theorem ofOption_inj {α : Type} {f : α → Json} (hf : Injective f) (hnull : ∀ x, f x ≠ .null) :
    Injective (Json.ofOption f) := by
  intro o o' h
  cases o with
  | none =>
    cases o' with
    | none => rfl
    | some y => exact absurd h.symm (hnull y)
  | some x =>
    cases o' with
    | none => exact absurd h (hnull x)
    | some y => exact congrArg some (hf h)

theorem jsonNat_inj : Injective jsonNat := by
  intro m n h
  exact Int.ofNat_inj.mp (Json.num.inj h)

theorem TimeoutPhase.toJson_inj : Injective TimeoutPhase.toJson := by
  intro p q h
  cases p <;> cases q <;> simp_all [toJson]

theorem ProviderErrorKind.toJson_inj : Injective ProviderErrorKind.toJson := by
  intro k l h
  cases k <;> cases l <;> simp_all [toJson, TimeoutPhase.toJson_inj.eq_iff]

theorem AttemptStatus.toJson_inj : Injective AttemptStatus.toJson := by
  intro a b h
  cases a <;> cases b <;> simp_all [toJson]

theorem ApiType.asStr_inj : Injective ApiType.asStr := by
  intro a b h
  cases a <;> cases b <;> simp_all [asStr]

theorem ofOption_jsonNat_inj : Injective (Json.ofOption jsonNat) :=
  ofOption_inj jsonNat_inj nofun

theorem ofOption_str_inj : Injective (Json.ofOption .str) :=
  ofOption_inj (fun _ _ h => Json.str.inj h) nofun

theorem ofOption_num_inj : Injective (Json.ofOption .num) :=
  ofOption_inj (fun _ _ h => Json.num.inj h) nofun

theorem ProviderUsage.toJson_inj : Injective ProviderUsage.toJson := by
  rintro ⟨a, b, c, d⟩ ⟨a', b', c', d'⟩ h
  simpa [toJson, ofOption_jsonNat_inj.eq_iff] using h

theorem ProviderDiagnostic.toJson_inj : Injective ProviderDiagnostic.toJson := by
  rintro ⟨a, b, c, d, e⟩ ⟨a', b', c', d', e'⟩ h
  simpa [toJson, ofOption_jsonNat_inj.eq_iff, ofOption_str_inj.eq_iff] using h

/-- Records that are stored alike are one record. -/
theorem ProviderAttempt.toJson_inj : Injective ProviderAttempt.toJson := by
  have hkind := ofOption_inj ProviderErrorKind.toJson_inj fun k => by cases k <;> nofun
  have hdiagnostic := ofOption_inj ProviderDiagnostic.toJson_inj nofun
  have husage := ofOption_inj ProviderUsage.toJson_inj nofun
  rintro ⟨attemptId, ⟨runId⟩, _, _, _, _, _, _, _, _, _, _, _, _, _, _⟩
    ⟨attemptId', ⟨runId'⟩, _, _, _, _, _, _, _, _, _, _, _, _, _, _⟩ h
  simpa [toJson, jsonNat_inj.eq_iff, ApiType.asStr_inj.eq_iff, AttemptStatus.toJson_inj.eq_iff,
    hkind.eq_iff, hdiagnostic.eq_iff, ofOption_jsonNat_inj.eq_iff, ofOption_num_inj.eq_iff,
    husage.eq_iff] using h

/-! ## Sums of usage -/

def u64Max : Nat := 2 ^ 64 - 1

/-- One field of `add_attempt`. -/
def addTokens (target source : Option Nat) : Option Nat :=
  match source with
  | some value => some (min (target.getD 0 + value) u64Max)
  | none => target

def ProviderUsage.addAttempt (target other : ProviderUsage) : ProviderUsage where
  inputTokens := addTokens target.inputTokens other.inputTokens
  outputTokens := addTokens target.outputTokens other.outputTokens
  cacheReadTokens := addTokens target.cacheReadTokens other.cacheReadTokens
  cacheCreationTokens := addTokens target.cacheCreationTokens other.cacheCreationTokens

/-- `ProviderUsage::default`. -/
def ProviderUsage.empty : ProviderUsage := ⟨none, none, none, none⟩

def ProviderUsage.fields : List (ProviderUsage → Option Nat) :=
  [inputTokens, outputTokens, cacheReadTokens, cacheCreationTokens]

/-- The saturating sum of what is known. -/
def saturatingSum (sources : List (Option Nat)) : Option Nat :=
  if sources.any Option.isSome then some (min (sources.map (Option.getD · 0)).sum u64Max) else none

theorem addTokens_saturatingSum (sources : List (Option Nat)) (source : Option Nat) :
    addTokens (saturatingSum sources) source = saturatingSum (sources ++ [source]) := by
  cases source with
  | none => simp [addTokens, saturatingSum]
  | some value =>
    by_cases hsome : sources.any Option.isSome
    · simp only [addTokens, saturatingSum, hsome, if_true, Option.getD_some, List.any_append,
        Bool.true_or, List.map_append, List.sum_append, List.map_cons, List.map_nil, List.sum_cons,
        List.sum_nil, Nat.add_zero, Option.some.injEq]
      omega
    · have hzero : (sources.map (Option.getD · 0)).sum = 0 := by
        apply List.sum_eq_zero
        intro n hn
        obtain ⟨o, ho, rfl⟩ := List.mem_map.mp hn
        cases o with
        | none => rfl
        | some m => exact absurd (List.any_eq_true.mpr ⟨some m, ho, rfl⟩) hsome
      simp [addTokens, saturatingSum, hsome, hzero]

theorem foldl_addTokens (sources : List (Option Nat)) :
    sources.foldl addTokens none = saturatingSum sources := by
  induction sources using List.reverseRecOn with
  | nil => rfl
  | append_singleton sources source ih =>
    rw [List.foldl_concat, ih, addTokens_saturatingSum]

/-- Each field of a sum of usages is the saturating sum of that field. -/
theorem field_foldl_addAttempt (usages : List ProviderUsage) {f : ProviderUsage → Option Nat}
    (hf : f ∈ ProviderUsage.fields) :
    f (usages.foldl ProviderUsage.addAttempt .empty) = saturatingSum (usages.map f) := by
  have hstep : f .empty = none ∧ ∀ u v, f (ProviderUsage.addAttempt u v) = addTokens (f u) (f v) := by
    simp only [ProviderUsage.fields, List.mem_cons, List.not_mem_nil, or_false] at hf
    rcases hf with rfl | rfl | rfl | rfl <;> exact ⟨rfl, fun _ _ => rfl⟩
  rw [← foldl_addTokens, List.foldl_map, ← hstep.1]
  exact (List.foldl_hom f fun u v => (hstep.2 u v).symm).symm

end AgentDaemon.Provider
