import Mathlib.Data.List.Nodup

/-!
Logs in which some entries ask for replies and others are replies. An entry that asks is answered
when the replies directly after it, up to the next entry of another kind, are the ones it asks
for, in their order and each once. `Paired` says so of every entry of a log. It is kept by a
further entry that neither asks nor replies (`Paired.concat`), by an entry together with its
replies (`Paired.exchange`), by every suffix (`Paired.suffix`) and by what comes before an entry
that is no reply (`Paired.of_append`), and it is lost by an entry with fewer replies than it asks for
(`not_paired_of_open`).
-/

namespace AgentDaemon

/-- What an entry of a log asks for, and what it is a reply to. -/
structure Dialogue (α ρ : Type) where
  asks : α → List ρ
  reply? : α → Option ρ

namespace Dialogue

variable {α ρ : Type} (d : Dialogue α ρ)

/-- The replies that a log starts with. -/
def replies : List α → List ρ
  | [] => []
  | a :: l =>
    match d.reply? a with
    | some r => r :: replies l
    | none => []

/-- Every entry that asks is followed by its replies before anything else. -/
def Paired : List α → Prop
  | [] => True
  | a :: l => (d.asks a ≠ [] → d.replies l = d.asks a ∧ (d.asks a).Nodup) ∧ Paired l

instance decidablePaired [DecidableEq ρ] : ∀ l, Decidable (d.Paired l)
  | [] => isTrue trivial
  | _ :: l =>
    have := decidablePaired l
    inferInstanceAs (Decidable ((_ → _ ∧ _) ∧ d.Paired l))

variable {d}

theorem Paired.suffix {l m : List α} (h : d.Paired (l ++ m)) : d.Paired m := by
  induction l with
  | nil => exact h
  | cons a l ih => exact ih h.2

theorem replies_append {l m : List α} (hm : d.replies m = []) :
    d.replies (l ++ m) = d.replies l := by
  induction l with
  | nil => exact hm
  | cons a l ih =>
    simp only [List.cons_append, replies]
    split
    · rw [ih]
    · rfl

/-- What comes before an entry that is no reply keeps its replies. -/
theorem Paired.of_append {l m : List α} (h : d.Paired (l ++ m)) (hm : d.replies m = []) :
    d.Paired l := by
  induction l with
  | nil => trivial
  | cons a l ih =>
    refine ⟨fun ha => ?_, ih h.2⟩
    have hreplies : d.replies (l ++ m) = d.asks a ∧ (d.asks a).Nodup := h.1 ha
    rwa [replies_append hm] at hreplies

/-- Another log may follow that is paired and does not start with a reply. -/
theorem Paired.append {l m : List α} (hl : d.Paired l) (hm : d.Paired m)
    (hr : d.replies m = []) : d.Paired (l ++ m) := by
  induction l with
  | nil => exact hm
  | cons a l ih =>
    refine ⟨fun ha => ?_, ih hl.2⟩
    show d.replies (l ++ m) = d.asks a ∧ (d.asks a).Nodup
    rw [replies_append hr]
    exact hl.1 ha

theorem replies_eq_nil {a : α} (h : d.reply? a = none) (l : List α) : d.replies (a :: l) = [] := by
  simp only [replies, h]

theorem Paired.concat {l : List α} {a : α} (hl : d.Paired l) (ha : d.asks a = [])
    (hr : d.reply? a = none) : d.Paired (l ++ [a]) :=
  hl.append ⟨fun h => absurd ha h, trivial⟩ (replies_eq_nil hr [])

theorem replies_eq_map {l : List α} {rs : List ρ} (h : l.map d.reply? = rs.map some) :
    d.replies l = rs := by
  induction l generalizing rs with
  | nil =>
    cases rs with
    | nil => rfl
    | cons r rs => cases h
  | cons a l ih =>
    cases rs with
    | nil => cases h
    | cons r rs =>
      obtain ⟨ha, hl⟩ := List.cons.inj h
      simp only [replies, ha, ih hl]

theorem paired_of_silent {l : List α} (h : ∀ a ∈ l, d.asks a = []) : d.Paired l := by
  induction l with
  | nil => trivial
  | cons a l ih =>
    exact ⟨fun hne => absurd (h a List.mem_cons_self) hne,
      ih fun b hb => h b (List.mem_cons_of_mem _ hb)⟩

/-- An entry may be appended together with all the replies it asks for. -/
theorem Paired.exchange {l rs : List α} {a : α} (hl : d.Paired l) (hr : d.reply? a = none)
    (hrs : rs.map d.reply? = (d.asks a).map some) (hnodup : (d.asks a).Nodup)
    (hsilent : ∀ r ∈ rs, d.asks r = []) : d.Paired (l ++ a :: rs) :=
  hl.append ⟨fun _ => ⟨replies_eq_map hrs, hnodup⟩, paired_of_silent hsilent⟩ (replies_eq_nil hr rs)

theorem length_replies_le (l : List α) : (d.replies l).length ≤ l.length := by
  induction l with
  | nil => exact Nat.le_refl 0
  | cons a l ih =>
    simp only [replies]
    split
    · simp only [List.length_cons]
      omega
    · exact Nat.zero_le _

/-- Fewer entries follow than are asked for. -/
theorem not_paired_of_open {l rs : List α} {a : α} (h : rs.length < (d.asks a).length) :
    ¬ d.Paired (l ++ a :: rs) := by
  intro hp
  have hne : d.asks a ≠ [] := List.ne_nil_of_length_pos (by omega)
  have hlen := congrArg List.length (hp.suffix.1 hne).1
  have hle := length_replies_le (d := d) rs
  omega

end Dialogue

end AgentDaemon
