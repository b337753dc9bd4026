import AgentDaemon.Lib.Shelf
import AgentDaemon.Skills.Install
import Mathlib.Data.Finset.Option
import Mathlib.Data.Prod.Lex

/-!
What an installation does to a listing. The Markdown files are a shelf, each under the name that it
declares: `shown_eq_some` says what a listing shows of it, `shelf_installInto` what an installation
does to it, and `keyedUpdate_iff` in which directories an installation changes one skill only.
-/

namespace AgentDaemon.Skills

variable {Version : Type}

section Listing

variable (fromStr : String → Option (SkillManifest Version))

/-- The name that a Markdown file declares, with its version and its body. -/
def declares (directory : Directory) (path : FileName) : Option (String × Version × String) :=
  if isMarkdown directory path then
    (readAt fromStr directory path).toOption.map fun parsed =>
      (parsed.manifest.name, parsed.manifest.version, parsed.body)
  else none

def shelf (directory : Directory) : Shelf FileName String (Version × String) where
  keys := (paths directory).toFinset
  decl := declares fromStr directory

/-- The entry of a file in the index, if it declares the name. -/
def entryOf (directory : Directory) (name : String) (path : FileName) :
    Option (SkillIndex Version) :=
  match readAt fromStr directory path with
  | .ok parsed => if parsed.manifest.name = name then some ⟨parsed.manifest, path⟩ else none
  | .error _ => none

variable {fromStr} {directory : Directory} {name : String} {path : FileName}

theorem declares_eq_some {value : Version × String} :
    declares fromStr directory path = some (name, value) ↔ isMarkdown directory path = true ∧
      ∃ parsed, readAt fromStr directory path = .ok parsed ∧ parsed.manifest.name = name ∧
        (parsed.manifest.version, parsed.body) = value := by
  unfold declares
  cases hm : isMarkdown directory path with
  | false => simp
  | true =>
    cases hr : readAt fromStr directory path with
    | error e => simp [Except.toOption]
    | ok parsed => simp [Except.toOption]

theorem entryOf_eq_some {skill : SkillIndex Version} :
    entryOf fromStr directory name path = some skill ↔
      ∃ parsed, readAt fromStr directory path = .ok parsed ∧ parsed.manifest.name = name ∧
        skill = ⟨parsed.manifest, path⟩ := by
  unfold entryOf
  cases hr : readAt fromStr directory path with
  | error e => simp
  | ok parsed =>
    by_cases hname : parsed.manifest.name = name
    · simp [hname, eq_comm]
    · simp [hname]

/-- A name that the loop has not seen is listed from the first file that declares it. -/
theorem find?_indexFrom (directory : Directory) (l : List FileName) {seen : List String}
    (hseen : name ∉ seen) :
    (indexFrom fromStr directory seen l).find? (fun skill => skill.manifest.name = name) =
      l.findSome? (entryOf fromStr directory name) := by
  induction l generalizing seen with
  | nil => rfl
  | cons path l ih =>
    rw [List.findSome?_cons, indexFrom, entryOf]
    cases hr : readAt fromStr directory path with
    | error e => exact ih hseen
    | ok parsed =>
      dsimp only
      by_cases hname : parsed.manifest.name = name
      · have hnew : parsed.manifest.name ∉ seen := hname ▸ hseen
        rw [if_neg hnew, if_pos hname, List.find?_cons_of_pos (by simpa using hname)]
      · rw [if_neg hname]
        by_cases hold : parsed.manifest.name ∈ seen
        · rw [if_pos hold]
          exact ih hseen
        · rw [if_neg hold, List.find?_cons_of_neg (by simpa using hname)]
          refine ih fun hmem => ?_
          rcases List.mem_cons.mp hmem with he | hmem
          · exact hname he.symm
          · exact hseen hmem

theorem find?_loadIndex {skill : SkillIndex Version} :
    (loadIndex fromStr directory).find? (fun skill => skill.manifest.name = name) = some skill ↔
      ∃ path parsed, (shelf fromStr directory).First name path (parsed.manifest.version, parsed.body) ∧
        (shelf fromStr directory).place path < maxSkillFiles ∧
          readAt fromStr directory path = .ok parsed ∧ skill = ⟨parsed.manifest, path⟩ := by
  have hnone : ∀ j ∈ paths directory, entryOf fromStr directory name j = none ↔
      ∀ value, declares fromStr directory j ≠ some (name, value) := by
    intro j hj
    constructor
    · intro he value hd
      obtain ⟨-, parsed, hr, hname, -⟩ := declares_eq_some.mp hd
      have hsome := entryOf_eq_some.mpr ⟨parsed, hr, hname, rfl⟩
      rw [he] at hsome
      cases hsome
    · intro hd
      refine Option.eq_none_iff_forall_ne_some.mpr fun skill he => ?_
      obtain ⟨parsed, hr, hname, -⟩ := entryOf_eq_some.mp he
      exact hd _ (declares_eq_some.mpr ⟨mem_paths.mp hj, parsed, hr, hname, rfl⟩)
  rw [loadIndex, find?_indexFrom directory _ List.not_mem_nil,
    Shelf.findSome?_take (sorted_paths directory)]
  constructor
  · rintro ⟨k, hk, he, hbefore, hcap⟩
    obtain ⟨parsed, hr, hname, hskill⟩ := entryOf_eq_some.mp he
    refine ⟨k, parsed, ⟨List.mem_toFinset.mpr hk, ?_, fun j hj hlt => ?_⟩, hcap, hr, hskill⟩
    · exact declares_eq_some.mpr ⟨mem_paths.mp hk, parsed, hr, hname, rfl⟩
    · have hj := List.mem_toFinset.mp hj
      exact (hnone j hj).mp (hbefore j hj hlt)
  · rintro ⟨k, parsed, hfirst, hcap, hr, hskill⟩
    have hk := List.mem_toFinset.mp hfirst.mem
    obtain ⟨-, parsed', hr', hname, -⟩ := declares_eq_some.mp hfirst.declares
    cases hr.symm.trans hr'
    refine ⟨k, hk, entryOf_eq_some.mpr ⟨parsed, hr, hname, hskill⟩, fun j hj hlt => ?_, hcap⟩
    exact (hnone j hj).mpr (hfirst.free j (List.mem_toFinset.mpr hj) hlt)

end Listing

section Library

variable {fromStr : String → Option (SkillManifest Version)}
  {library : SkillLibrary fromStr} {name : String}

namespace SkillLibrary

theorem list_eq (library : SkillLibrary fromStr) :
    library.list = loadIndex fromStr library.directory := by
  unfold list ensureIndex
  cases h : library.index with
  | none => rfl
  | some skills =>
    dsimp only
    rw [h, Option.getD_some]
    exact library.coherent skills h

@[simp] theorem ensureIndex_directory (library : SkillLibrary fromStr) :
    library.ensureIndex.directory = library.directory := by
  unfold ensureIndex
  cases library.index <;> rfl

/-- A listing shows what the shelf of the Markdown files shows. -/
theorem shown_eq_some {value : Version × String} : library.shown name = some value ↔
    (shelf fromStr library.directory).Shows maxSkillFiles name value := by
  rw [shown, list_eq]
  simp only [Option.bind_eq_bind, Option.bind_eq_some_iff, find?_loadIndex]
  constructor
  · rintro ⟨skill, ⟨path, parsed, hfirst, hcap, hr, rfl⟩, parsed', hr', hvalue⟩
    rw [hr] at hr'
    cases hr'
    cases hvalue
    exact ⟨path, hfirst, hcap⟩
  · rintro ⟨path, hfirst, hcap⟩
    obtain ⟨-, parsed, hr, -, rfl⟩ := declares_eq_some.mp hfirst.declares
    refine ⟨⟨parsed.manifest, path⟩, ⟨path, parsed, hfirst, hcap, hr, rfl⟩, parsed, ?_, rfl⟩
    rw [hr]
    rfl

theorem shown_of_find? {skill : SkillIndex Version} {parsed : ParsedSkill Version}
    (hfind : library.list.find? (fun skill => skill.manifest.name = name) = some skill)
    (hread : readAt fromStr library.directory skill.path = .ok parsed) :
    library.shown name = some (skill.manifest.version, parsed.body) := by
  rw [shown, hfind]
  simp only [Option.bind_eq_bind, Option.bind_some, hread]
  rfl

/-- The file that is listed for a name declares it. -/
theorem current_declares {skill : SkillIndex Version} (h : library.current name = some skill) :
    ∃ value, declares fromStr library.directory skill.path = some (name, value) := by
  rw [current, list_eq] at h
  obtain ⟨path, parsed, hfirst, -, -, rfl⟩ := find?_loadIndex.mp h
  exact ⟨_, hfirst.declares⟩

end SkillLibrary

/-! ## Installations -/

/-- The Markdown files that an installation leaves as they are. -/
def staying (fromStr : String → Option (SkillManifest Version)) (directory : Directory)
    (gone : Option FileName) (name : String) : Shelf FileName String (Version × String) :=
  (shelf fromStr directory).without (insert (target name) gone.toFinset)

/-- One key is set, and what the others had is kept. -/
structure KeyedUpdate {κ ν : Type} (before after : κ → Option ν) (key : κ) (value : ν) : Prop where
  self : after key = some value
  others : ∀ other, other ≠ key → ∀ value', before other = some value' → after other = some value'

/-- The file of the name is not the one that another skill is listed from, and the files around it
leave room. -/
structure Separate (fromStr : String → Option (SkillManifest Version)) (directory : Directory)
    (gone : Option FileName) (name : String) (value : Version × String) : Prop where
  /-- No file that stays declares the name before the file of the name does, or the first one that
  does is listed with the same version and body. -/
  own : ((staying fromStr directory gone name).Free name (target name) ∧
      (staying fromStr directory gone name).place (target name) < maxSkillFiles) ∨
    ∃ path, path < target name ∧ (staying fromStr directory gone name).First name path value ∧
      (staying fromStr directory gone name).place path < maxSkillFiles
  /-- The file of another skill stays among the first ones. -/
  others : ∀ other, other ≠ name → ∀ path value', path ≠ target name →
    (shelf fromStr directory).First other path value' →
    (shelf fromStr directory).place path < maxSkillFiles →
    (staying fromStr directory gone name).place path + (if target name < path then 1 else 0) <
      maxSkillFiles
  /-- Where the file of the name is overwritten, the next file of the skill that was listed from it
  has the same version and body. -/
  overwritten : ∀ other, other ≠ name → ∀ value',
    (shelf fromStr directory).First other (target name) value' →
    (shelf fromStr directory).place (target name) < maxSkillFiles →
    ∃ next, (staying fromStr directory gone name).First other next value' ∧
      (staying fromStr directory gone name).place next + 1 < maxSkillFiles

theorem mem_shelf {directory : Directory} {path : FileName} :
    path ∈ (shelf fromStr directory).keys ↔ isMarkdown directory path = true := by
  rw [shelf, List.mem_toFinset, mem_paths]

/-- What a file declares depends on its bytes only. -/
theorem declares_congr {directory directory' : Directory} {path : FileName}
    (h : bytes? directory path = bytes? directory' path) :
    declares fromStr directory path = declares fromStr directory' path := by
  rw [declares, declares, isMarkdown, isMarkdown, readAt, readAt, h]

theorem declares_of_not_isMarkdown {directory : Directory} {path : FileName}
    (h : isMarkdown directory path = false) : declares fromStr directory path = none := by
  rw [declares, h, if_neg Bool.false_ne_true]

theorem isMarkdown_of_none {directory : Directory} {path : FileName}
    (h : bytes? directory path = none) : isMarkdown directory path = false := by
  rw [isMarkdown, h]
  rfl

theorem isMarkdown_of_not_markdown (directory : Directory) {path : FileName}
    (h : path.markdown = false) : isMarkdown directory path = false := by
  rw [isMarkdown, h, Bool.and_false]

/-- The directory that an installation leaves. -/
def installInto (directory : Directory) (name : String) (pid : Nat) (bytes : List UInt8)
    (gone : Option FileName) : Directory :=
  commit (directory.insert (temporary name pid) (.file bytes)) name pid bytes gone

theorem bytes?_installInto (directory : Directory) (name : String) (pid : Nat) (bytes : List UInt8)
    (gone : Option FileName) {path : FileName} (h : path.markdown = true) :
    bytes? (installInto directory name pid bytes gone) path =
      if path ∈ gone then none else if path = target name then some bytes
        else bytes? directory path := by
  have htemp : path ≠ temporary name pid := by
    rintro rfl
    rw [not_markdown_temporary] at h
    cases h
  have hrenamed : bytes? (((directory.insert (temporary name pid) (.file bytes)).erase
      (temporary name pid)).insert (target name) (.file bytes)) path =
        if path = target name then some bytes else bytes? directory path := by
    by_cases hpath : path = target name
    · rw [if_pos hpath, hpath, bytes?_insert_self]
    · rw [if_neg hpath, bytes?_insert_of_ne _ hpath, bytes?_erase_of_ne _ htemp,
        bytes?_insert_of_ne _ htemp]
  cases gone with
  | none => exact hrenamed
  | some old =>
    dsimp only [installInto, commit]
    by_cases hpath : path = old
    · rw [hpath, bytes?_erase_self, if_pos (Option.mem_some_self old)]
    · have hgone : path ∉ some old := fun he => hpath (Option.some.inj he).symm
      rw [bytes?_erase_of_ne _ hpath, if_neg hgone, hrenamed]

section Shelf

variable (directory : Directory) (pid : Nat) {bytes : List UInt8} {gone : Option FileName}
  {path : FileName}

/-- Another file that is gone is no Markdown file any more. -/
theorem isMarkdown_gone (hin : path ∈ gone) :
    isMarkdown (installInto directory name pid bytes gone) path = false := by
  cases hm : path.markdown with
  | false => exact isMarkdown_of_not_markdown _ hm
  | true =>
    have hb := bytes?_installInto directory name pid bytes gone hm
    rw [if_pos hin] at hb
    exact isMarkdown_of_none hb

/-- Another file that stays is as it was. -/
theorem isMarkdown_stays (hpath : path ≠ target name) (hout : path ∉ gone) :
    isMarkdown (installInto directory name pid bytes gone) path = isMarkdown directory path := by
  cases hm : path.markdown with
  | false => rw [isMarkdown_of_not_markdown _ hm, isMarkdown_of_not_markdown _ hm]
  | true =>
    have hb := bytes?_installInto directory name pid bytes gone hm
    rw [if_neg hout, if_neg hpath] at hb
    rw [isMarkdown, isMarkdown, hb]

theorem declares_stays (hpath : path ≠ target name) (hout : path ∉ gone) :
    declares fromStr (installInto directory name pid bytes gone) path =
      declares fromStr directory path := by
  cases hm : path.markdown with
  | false =>
    rw [declares_of_not_isMarkdown (isMarkdown_of_not_markdown _ hm),
      declares_of_not_isMarkdown (isMarkdown_of_not_markdown _ hm)]
  | true =>
    have hb := bytes?_installInto directory name pid bytes gone hm
    rw [if_neg hout, if_neg hpath] at hb
    exact declares_congr hb

/-- The file of the name has the document. -/
theorem declares_target {parsed : ParsedSkill Version}
    (hread : readSkill fromStr bytes = .ok parsed) (hname : parsed.manifest.name = name)
    (hgone : target name ∉ gone) :
    declares fromStr (installInto directory name pid bytes gone) (target name) =
      some (name, parsed.manifest.version, parsed.body) := by
  have hmd : (target name).markdown = true :=
    hname ▸ markdown_target (ne_empty_of_validateName (validateName_of_readSkill hread))
  have hb := bytes?_installInto directory name pid bytes gone hmd
  rw [if_neg hgone, if_pos rfl] at hb
  refine declares_eq_some.mpr ⟨isMarkdown_iff.mpr ⟨⟨bytes, hb⟩, hmd⟩, parsed, ?_, hname, rfl⟩
  rw [readAt, hb]
  exact hread

/-- An installation takes the files that are gone from the shelf and puts its own on it. -/
theorem shelf_installInto {parsed : ParsedSkill Version}
    (hread : readSkill fromStr bytes = .ok parsed) (hname : parsed.manifest.name = name)
    (hgone : target name ∉ gone) :
    shelf fromStr (installInto directory name pid bytes gone) =
      (staying fromStr directory gone name).put (target name) name
        (parsed.manifest.version, parsed.body) := by
  have hown := declares_target directory pid hread hname hgone
  have hmem : ∀ path, path ∈ insert (target name) gone.toFinset ↔
      path = target name ∨ path ∈ gone := by
    intro path
    rw [Finset.mem_insert, Option.mem_toFinset]
  refine Shelf.ext ?_ ?_
  · ext path
    rw [mem_shelf, Shelf.put, Finset.mem_insert, staying, Shelf.mem_without, mem_shelf, hmem]
    by_cases hpath : path = target name
    · rw [hpath]
      exact iff_of_true (declares_eq_some.mp hown).1 (.inl rfl)
    · by_cases hin : path ∈ gone
      · simp [isMarkdown_gone directory pid hin, hpath, hin]
      · simp [isMarkdown_stays directory pid hpath hin, hpath, hin]
  · funext path
    by_cases hpath : path = target name
    · rw [hpath, Shelf.decl_put_self]
      exact hown
    · rw [Shelf.decl_put_of_ne hpath]
      by_cases hin : path ∈ gone
      · have hout := (hmem path).mpr (.inr hin)
        exact (declares_of_not_isMarkdown (isMarkdown_gone directory pid hin)).trans
          (if_pos hout).symm
      · have hout : path ∉ insert (target name) gone.toFinset := fun h =>
          ((hmem path).mp h).elim hpath hin
        exact (declares_stays directory pid hpath hin).trans
          (Shelf.decl_without (s := shelf fromStr directory) hout).symm

end Shelf

/-- What is listed after an installation is what this shelf shows. -/
theorem shown_installInto (directory : Directory) (pid : Nat) {bytes : List UInt8}
    {gone : Option FileName} {parsed : ParsedSkill Version} {name other : String}
    {value : Version × String} (hread : readSkill fromStr bytes = .ok parsed)
    (hname : parsed.manifest.name = name) (hgone : target name ∉ gone) :
    (SkillLibrary.refresh fromStr
        (installInto directory name pid bytes gone)).shown
          other = some value ↔
      ((staying fromStr directory gone name).put (target name) name
        (parsed.manifest.version, parsed.body)).Shows maxSkillFiles other value := by
  rw [SkillLibrary.shown_eq_some, ← shelf_installInto directory pid hread hname hgone]
  rfl

/-- What stays is not the file of the name, and is as it was. -/
theorem target_notMem_staying (directory : Directory) (gone : Option FileName) (name : String) :
    target name ∉ (staying fromStr directory gone name).keys := fun h =>
  (Shelf.mem_without.mp h).2 (Finset.mem_insert_self ..)

theorem First.of_staying {directory : Directory} {gone : Option FileName} {name other : String}
    {path : FileName} {value : Version × String}
    (h : (staying fromStr directory gone name).First other path value) :
    path ∈ (shelf fromStr directory).keys ∧ path ≠ target name ∧
      (shelf fromStr directory).decl path = some (other, value) := by
  obtain ⟨hmem, hout⟩ := Shelf.mem_without.mp h.mem
  have hdecl := h.declares
  rw [staying, Shelf.decl_without hout] at hdecl
  exact ⟨hmem, fun he => hout (Finset.mem_insert.mpr (.inl he)), hdecl⟩

/-- The first file of another name stays, unless it is the file of this one. -/
theorem First.staying {directory : Directory} {gone : Option FileName} {name other : String}
    {path : FileName} {value : Version × String}
    (h : (shelf fromStr directory).First other path value) (hpath : path ≠ target name)
    (hgone : ∀ path ∈ gone, ∃ value, declares fromStr directory path = some (name, value))
    (hother : other ≠ name) : (staying fromStr directory gone name).First other path value := by
  refine h.without fun hmem => ?_
  rcases Finset.mem_insert.mp hmem with he | hin
  · exact hpath he
  · obtain ⟨value', hvalue⟩ := hgone path (Option.mem_toFinset.mp hin)
    have he := hvalue.symm.trans h.declares
    simp only [Option.some.injEq, Prod.mk.injEq] at he
    exact hother he.1.symm

/-- What the shelf shows after an installation is one key changed if and only if the files are
separate. -/
theorem keyedUpdate_put_iff {directory : Directory} {gone : Option FileName} {name : String}
    {value : Version × String} {before after : String → Option (Version × String)}
    (hgone : ∀ path ∈ gone, ∃ value, declares fromStr directory path = some (name, value))
    (hbefore : ∀ other value', before other = some value' ↔
      (shelf fromStr directory).Shows maxSkillFiles other value')
    (hafter : ∀ other value', after other = some value' ↔
      ((staying fromStr directory gone name).put (target name) name value).Shows maxSkillFiles other
        value') :
    KeyedUpdate before after name value ↔ Separate fromStr directory gone name value := by
  have ht : target name ∉ (staying fromStr directory gone name).keys :=
    target_notMem_staying directory gone name
  constructor
  · intro h
    have hshows : ∀ other, other ≠ name → ∀ path value',
        (shelf fromStr directory).First other path value' →
        (shelf fromStr directory).place path < maxSkillFiles → ∃ k,
          (staying fromStr directory gone name).First other k value' ∧
            (staying fromStr directory gone name).place k + (if target name < k then 1 else 0) <
              maxSkillFiles := by
      intro other hother path value' hfirst hcap
      have hb := (hbefore other value').mpr ⟨path, hfirst, hcap⟩
      have ha := (hafter other value').mp (h.others other hother value' hb)
      exact (Shelf.shows_put_other ht hother).mp ha
    exact {
      own := (Shelf.shows_put_self ht).mp ((hafter name value).mp h.self)
      others := by
        intro other hother path value' hpath hfirst hcap
        obtain ⟨k, hk, hplace⟩ := hshows other hother path value' hfirst hcap
        obtain ⟨rfl, -⟩ := hk.unique (First.staying hfirst hpath hgone hother)
        exact hplace
      overwritten := by
        intro other hother value' hfirst hcap
        obtain ⟨k, hk, hplace⟩ := hshows other hother _ value' hfirst hcap
        obtain ⟨hmem, hne, hdecl⟩ := First.of_staying hk
        have hlt : target name < k := lt_of_le_of_ne (hfirst.le hmem hdecl) hne.symm
        rw [if_pos hlt] at hplace
        exact ⟨k, hk, hplace⟩ }
  · intro h
    refine ⟨(hafter name value).mpr ((Shelf.shows_put_self ht).mpr h.own), ?_⟩
    intro other hother value' hb
    obtain ⟨path, hfirst, hcap⟩ := (hbefore other value').mp hb
    refine (hafter other value').mpr ((Shelf.shows_put_other ht hother).mpr ?_)
    by_cases hpath : path = target name
    · subst hpath
      obtain ⟨next, hnext, hplace⟩ := h.overwritten other hother value' hfirst hcap
      refine ⟨next, hnext, lt_of_le_of_lt ?_ hplace⟩
      exact Nat.add_le_add_left (by split <;> omega) _
    · exact ⟨path, First.staying hfirst hpath hgone hother,
        h.others other hother path value' hpath hfirst hcap⟩

/-! ## Directories that only installations have written -/

/-- Every file is called after the skill that it declares. -/
def Canonical (fromStr : String → Option (SkillManifest Version)) (directory : Directory) : Prop :=
  ∀ path name value, declares fromStr directory path = some (name, value) → path = target name

theorem canonical_empty : Canonical fromStr ∅ := by
  intro path name value h
  have hnone : bytes? ∅ path = none := rfl
  rw [declares_of_not_isMarkdown (isMarkdown_of_none hnone)] at h
  cases h

theorem Canonical.of_sameDocuments {directory directory' : Directory}
    (h : Canonical fromStr directory) (hsame : SameDocuments directory' directory) :
    Canonical fromStr directory' := by
  intro path name value hd
  have hmd := (isMarkdown_iff.mp (declares_eq_some.mp hd).1).2
  rw [declares_congr (hsame path hmd)] at hd
  exact h path name value hd

/-- An installation puts the skill into its own file. -/
theorem Canonical.installInto {directory : Directory} (h : Canonical fromStr directory) (pid : Nat)
    {bytes : List UInt8} {gone : Option FileName} {parsed : ParsedSkill Version}
    (hread : readSkill fromStr bytes = .ok parsed) (hname : parsed.manifest.name = name)
    (hgone : target name ∉ gone) :
    Canonical fromStr (installInto directory name pid bytes gone) := by
  intro path other value hd
  by_cases hpath : path = target name
  · rw [hpath, declares_target directory pid hread hname hgone] at hd
    cases hd
    exact hpath
  · by_cases hin : path ∈ gone
    · rw [declares_of_not_isMarkdown (isMarkdown_gone directory pid hin)] at hd
      cases hd
    · rw [declares_stays directory pid hpath hin] at hd
      exact h path other value hd

/-- In such a directory there is no file of another skill to overwrite. -/
theorem Canonical.separate {directory : Directory} (h : Canonical fromStr directory)
    (hroom : (paths directory).length < maxSkillFiles) (gone : Option FileName) (name : String)
    (value : Version × String) : Separate fromStr directory gone name value := by
  have hkeys : (staying fromStr directory gone name).keys.card < maxSkillFiles :=
    calc (staying fromStr directory gone name).keys.card
        ≤ (shelf fromStr directory).keys.card := Finset.card_le_card Finset.sdiff_subset
      _ ≤ (paths directory).length := List.toFinset_card_le _
      _ < maxSkillFiles := hroom
  refine ⟨.inl ⟨fun path hpath _ v hv => ?_, ?_⟩, ?_, ?_⟩
  · obtain ⟨-, hout⟩ := Shelf.mem_without.mp hpath
    rw [staying, Shelf.decl_without hout] at hv
    exact hout (Finset.mem_insert.mpr (.inl (h path name v hv)))
  · exact lt_of_le_of_lt (Finset.card_filter_le _ _) hkeys
  · intro other _ path value' _ hfirst _
    have hlt : (staying fromStr directory gone name).place path <
        (shelf fromStr directory).keys.card := Shelf.place_without_lt hfirst.mem
    have hle : (if target name < path then 1 else 0) ≤ 1 := by split <;> omega
    have hcard : (shelf fromStr directory).keys.card < maxSkillFiles :=
      lt_of_le_of_lt (List.toFinset_card_le _) hroom
    omega
  · intro other hother value' hfirst _
    exact absurd (target_injective (h _ _ _ hfirst.declares)).symm hother

/-! ## Installations that succeed -/

theorem target_notMem_obsolete (current : Option (SkillIndex Version)) (name : String)
    (removes : Bool) : target name ∉ obsolete current name removes := by
  unfold obsolete
  cases current with
  | none => exact Option.not_mem_none _
  | some skill =>
    dsimp only
    split
    · rename_i h
      exact fun he => h.1 (Option.some.inj he)
    · exact Option.not_mem_none _

/-- The file that is taken away declares the name. -/
theorem obsolete_declares {removes : Bool} {path : FileName}
    (h : path ∈ obsolete (library.current name) name removes) :
    ∃ value, declares fromStr library.directory path = some (name, value) := by
  unfold obsolete at h
  cases hc : library.current name with
  | none =>
    rw [hc] at h
    cases h
  | some skill =>
    rw [hc] at h
    dsimp only at h
    split at h
    · cases h
      exact SkillLibrary.current_declares hc
    · cases h

variable [LinearOrder Version]

/-- Only an installation that is reported changes the Markdown files. -/
theorem installParsed_cases (library : SkillLibrary fromStr) (pid : Nat) (source : Source)
    (parsed : ParsedSkill Version) (force : Bool) (updateName : Option String) :
    (∃ left e, library.installParsed pid source parsed force updateName = (left, .error e) ∧
      SameDocuments left.directory library.directory) ∨
    (∃ left reason, library.installParsed pid source parsed force updateName = (left,
      .ok (library.directory, .skipped parsed.manifest.name parsed.manifest.version reason))) ∨
    ∃ left, library.installParsed pid source parsed force updateName = (left,
      .ok (installInto library.directory parsed.manifest.name pid source.bytes
        (obsolete (library.current parsed.manifest.name) parsed.manifest.name source.removes),
          .installed parsed.manifest.name parsed.manifest.version)) := by
  have hsame : SameDocuments library.ensureIndex.directory library.directory := by
    rw [SkillLibrary.ensureIndex_directory]
    exact fun _ _ => rfl
  have hwritten : SameDocuments
      (library.ensureIndex.writeTemporary parsed.manifest.name pid source.bytes).directory
        library.directory := by
    rw [← SkillLibrary.ensureIndex_directory library]
    exact sameDocuments_temporary _ _ _ _
  unfold SkillLibrary.installParsed
  dsimp only
  split
  · exact .inl ⟨_, _, rfl, fun _ _ => rfl⟩
  split
  · exact .inl ⟨_, _, rfl, hsame⟩
  split
  · rw [SkillLibrary.ensureIndex_directory]
    exact .inr (.inl ⟨_, _, rfl⟩)
  split
  · exact .inl ⟨_, _, rfl, hsame⟩
  split
  · exact .inl ⟨_, _, rfl, hsame⟩
  split
  · exact .inl ⟨_, _, rfl, hwritten⟩
  · simp only [SkillLibrary.writeTemporary, SkillLibrary.ensureIndex_directory]
    exact .inr (.inr ⟨_, rfl⟩)

theorem installParsed_installed {pid : Nat} {source : Source} {parsed : ParsedSkill Version}
    {force : Bool} {updateName : Option String} {left : SkillLibrary fromStr} {directory : Directory}
    {version : Version}
    (h : library.installParsed pid source parsed force updateName =
      (left, .ok (directory, .installed name version))) :
    parsed.manifest.name = name ∧ parsed.manifest.version = version ∧
      directory = installInto library.directory name pid source.bytes
        (obsolete (library.current name) name source.removes) := by
  rcases installParsed_cases library pid source parsed force updateName with
    ⟨_, _, he, -⟩ | ⟨_, _, he⟩ | ⟨_, he⟩
  · cases he.symm.trans h
  · cases he.symm.trans h
  · cases he.symm.trans h
    exact ⟨rfl, rfl, rfl⟩

/-- A run of installations keeps every skill in its own file, also where one of them fails. -/
theorem Canonical.install (pid : Nat) (force : Bool) (sources : List Source)
    {library : SkillLibrary fromStr} (h : Canonical fromStr library.directory) :
    Canonical fromStr (library.install pid force sources).1.directory := by
  induction sources generalizing library with
  | nil => exact h
  | cons source sources ih =>
    unfold SkillLibrary.install
    cases hread : readSkill fromStr source.bytes with
    | error e => exact h
    | ok parsed =>
      dsimp only
      rcases installParsed_cases library pid source parsed force none with
        ⟨left, e, he, hsame⟩ | ⟨left, reason, he⟩ | ⟨left, he⟩
      · rw [he]
        exact h.of_sameDocuments hsame
      · rw [he]
        exact ih h
      · rw [he]
        exact ih (h.installInto pid hread rfl (target_notMem_obsolete _ _ _))

/-- An installation whose calls all succeed, and that is not skipped, is reported. -/
theorem install_of_answers (library : SkillLibrary fromStr) (pid : Nat) (force : Bool)
    (source : Source) {parsed : ParsedSkill Version}
    (hread : readSkill fromStr source.bytes = .ok parsed) (hname : parsed.manifest.name = name)
    (hanswers : source.creates = true ∧ source.reads = true ∧ source.writes = true ∧
      source.renames = true)
    (hskip : skipReason (library.current name) parsed.manifest force = none)
    (htemporary : isDirectory library.directory (temporary name pid) = false)
    (htarget : isDirectory (library.directory.insert (temporary name pid) (.file source.bytes))
      (target name) = false) :
    library.install pid force [source] =
      (.refresh fromStr (installInto library.directory name pid source.bytes
          (obsolete (library.current name) name source.removes)),
        .ok [.installed name parsed.manifest.version]) := by
  obtain ⟨hcreates, hreads, hwrites, hrenames⟩ := hanswers
  subst hname
  simp only [SkillLibrary.install, hread, SkillLibrary.installParsed, hcreates, hskip, hreads, hwrites,
    hrenames, SkillLibrary.writeTemporary, SkillLibrary.ensureIndex_directory, htemporary, htarget,
    Bool.true_eq_false, Bool.false_eq_true, Option.isSome_none, Bool.false_and, or_self, if_false]
  rfl

/-- What is listed after an installation that succeeds is what was listed with one key changed if and
only if the file of the name and those around it are separate. -/
theorem keyedUpdate_refresh_iff {pid : Nat} {source : Source} {parsed : ParsedSkill Version}
    {force : Bool} {updateName : Option String} {left : SkillLibrary fromStr} {directory : Directory}
    {version : Version} (hread : readSkill fromStr source.bytes = .ok parsed)
    (h : library.installParsed pid source parsed force updateName =
      (left, .ok (directory, .installed name version))) :
    KeyedUpdate library.shown (SkillLibrary.refresh fromStr directory).shown name
        (version, parsed.body) ↔
      Separate fromStr library.directory (obsolete (library.current name) name source.removes) name
        (version, parsed.body) := by
  obtain ⟨hname, rfl, rfl⟩ := installParsed_installed h
  refine keyedUpdate_put_iff (fun path => obsolete_declares) (fun other value' => ?_)
    fun other value' => ?_
  · exact SkillLibrary.shown_eq_some
  · exact shown_installInto library.directory pid hread hname (target_notMem_obsolete _ _ _)

/-- `update` is an installation of a name that is listed. -/
theorem update_iff {after : SkillLibrary fromStr} {pid : Nat} {source : Source}
    {parsed : ParsedSkill Version} {asked : String} {version : Version}
    (hread : readSkill fromStr source.bytes = .ok parsed)
    (h : library.update pid asked source = (after, .ok (.installed name version))) :
    name = asked ∧ (KeyedUpdate library.shown after.shown name (version, parsed.body) ↔
      Separate fromStr library.directory (obsolete (library.current name) name source.removes) name
        (version, parsed.body)) := by
  unfold SkillLibrary.update at h
  split at h
  · cases h
  rw [hread] at h
  dsimp only at h
  split at h
  · cases h
  rename_i hasked
  split at h
  · cases h
  rename_i directory outcome hinstall
  cases h
  obtain ⟨hname, -, -⟩ := installParsed_installed hinstall
  exact ⟨hname ▸ not_not.mp hasked, keyedUpdate_refresh_iff hread hinstall⟩

end Library

/-! ## A file with the name of another skill -/

def manifestOf (name : String) : SkillManifest (Nat ×ₗ Nat ×ₗ Nat) :=
  ⟨name, toLex (1, toLex (0, 0)), "An example", [], []⟩

/-- What the YAML library makes of the frontmatters of two documents. -/
def twoFrontmatters (text : String) : Option (SkillManifest (Nat ×ₗ Nat ×ₗ Nat)) :=
  if text = "name: a\nversion: 1.0.0\ndescription: An example" then some (manifestOf "a")
  else if text = "name: b\nversion: 1.0.0\ndescription: An example" then some (manifestOf "b")
  else none

def documentOf (name : String) : List UInt8 :=
  utf8 ("---\nname: ".toList ++ name.toList ++
    "\nversion: 1.0.0\ndescription: An example\n---\nText\n".toList)

/-- A document, with a file system that answers well. -/
def sourceOf (name : String) : Source := ⟨documentOf name, true, true, true, true, true⟩

theorem readSkill_a :
    readSkill twoFrontmatters (sourceOf "a").bytes = .ok ⟨manifestOf "a", "Text"⟩ := by
  rw [readSkill, sourceOf, documentOf, fromUtf8_utf8]
  decide +kernel

theorem readSkill_b :
    readSkill twoFrontmatters (sourceOf "b").bytes = .ok ⟨manifestOf "b", "Text"⟩ := by
  rw [readSkill, sourceOf, documentOf, fromUtf8_utf8]
  decide +kernel

def libraryOf (directory : Directory) : SkillLibrary twoFrontmatters where
  directory := directory
  index := none
  coherent _ h := nomatch h

/-- A directory whose only file is called after `b` and declares `a`. -/
def misnamed : Directory := AList.singleton (target "b") (.file (documentOf "a"))

theorem paths_misnamed : paths misnamed = [target "b"] := by decide

theorem readAt_misnamed :
    readAt twoFrontmatters misnamed (target "b") = .ok ⟨manifestOf "a", "Text"⟩ := readSkill_a

theorem loadIndex_misnamed :
    loadIndex twoFrontmatters misnamed = [⟨manifestOf "a", target "b"⟩] := by
  rw [loadIndex, paths_misnamed]
  simp [indexFrom, readAt_misnamed, maxSkillFiles]

end AgentDaemon.Skills
