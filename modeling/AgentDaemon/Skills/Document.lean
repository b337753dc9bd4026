import AgentDaemon.Lib.Fallible
import AgentDaemon.Lib.OsPath
import AgentDaemon.Lib.Search
import AgentDaemon.Lib.Text
import Mathlib.Data.List.Lex

/-!
A skill document and the files it may be in. The name of a skill is in its frontmatter; the file that
an installation writes is called after it (`target`), and no other skill is written to that file
(`target_injective`), but a file may be called so and declare another name.
-/

namespace AgentDaemon.Skills

open OsPath

variable {Version : Type}

def maxSkillBytes : Nat := 64 * 1024

structure SkillManifest (Version : Type) where
  name : String
  version : Version
  description : String
  keywords : List String
  scope : List String
  deriving DecidableEq

structure ParsedSkill (Version : Type) where
  manifest : SkillManifest Version
  body : String
  deriving DecidableEq

def validateName (name : String) : Except String Unit :=
  if name.isEmpty || name.toList.head? = some '.' ||
      !name.toList.all fun c => c.isAlphanum || c = '-' || c = '_' then
    .error "skill name 只能包含 ASCII 字母、数字、-、_，且不能以点开头"
  else .ok ()

def validateManifest (manifest : SkillManifest Version) : Except String Unit := do
  validateName manifest.name
  if blank manifest.description then .error "skill description 不能为空"
  else if manifest.keywords.any blank then .error "skill keywords 不能包含空值"
  else if manifest.scope.any blank then .error "skill scope 不能包含空值"
  else .ok ()

/-- `fromStr` is what the YAML library makes of a frontmatter. -/
def readSkill (fromStr : String → Option (SkillManifest Version)) (bytes : List UInt8) :
    Except String (ParsedSkill Version) :=
  if maxSkillBytes < bytes.length then .error "skill 超过 65536 字节限制"
  else match fromUtf8 bytes with
  | none => .error "skill 必须是 UTF-8"
  | some source =>
    match "---\n".toList.isPrefixOf? (Search.replaceAll "\r\n".toList ['\n'] 0 source) with
    | none => .error "skill 缺少 YAML frontmatter 起始分隔符"
    | some rest =>
      match splitOnce "\n---\n".toList rest with
      | none => .error "skill 缺少 YAML frontmatter 结束分隔符"
      | some (frontmatter, body) =>
        match fromStr (.ofList frontmatter) with
        | none => .error "解析 skill frontmatter 失败"
        | some manifest => do
          validateManifest manifest
          if blank (.ofList body) then .error "skill 正文不能为空"
          else .ok ⟨manifest, trim (.ofList body)⟩

/-! ## File names -/

/-- The name of a file in the skill directory. -/
structure FileName where
  bytes : OsStr

/-- Two paths in one directory are in the order of the bytes of their last components. -/
instance : LinearOrder FileName :=
  LinearOrder.lift' (fun path => path.bytes.map UInt8.toNat) fun a b h => by
    cases a
    cases b
    exact congrArg FileName.mk (List.map_injective_iff.mpr (fun _ _ => UInt8.toNat_inj.mp) h)

def asciiLowercase (b : UInt8) : UInt8 := if 65 ≤ b ∧ b ≤ 90 then b + 32 else b

/-- The part of `is_markdown` that is about the name. -/
def FileName.markdown (path : FileName) : Bool :=
  (extension [.normal path.bytes]).any fun ext => ext.map asciiLowercase = utf8 "md".toList

/-- The file of a skill that is installed. -/
def target (name : String) : FileName := ⟨utf8 (name.toList ++ ".md".toList)⟩

/-- Where the file is written first. -/
def temporary (name : String) (pid : Nat) : FileName :=
  ⟨utf8 ('.' :: name.toList ++ ".tmp-".toList ++ Nat.toDigits 10 pid)⟩

/-! ## Documents -/

theorem ne_empty_of_validateName {name : String} (h : validateName name = .ok ()) :
    name.toList ≠ [] := by
  intro hnil
  rw [String.toList_eq_nil_iff] at hnil
  subst hnil
  cases h

/-- What is read has passed the check of its name. -/
theorem validateName_of_readSkill {fromStr : String → Option (SkillManifest Version)}
    {bytes : List UInt8} {parsed : ParsedSkill Version} (h : readSkill fromStr bytes = .ok parsed) :
    validateName parsed.manifest.name = .ok () := by
  unfold readSkill at h
  split at h
  · cases h
  split at h
  · cases h
  split at h
  · cases h
  split at h
  · cases h
  split at h
  · cases h
  obtain ⟨hvalid, h⟩ := Fallible.check_eq_ok.mp h
  split at h
  · cases h
  · cases h
    exact (Fallible.check_eq_ok.mp hvalid).1

/-! ## The file of a skill -/

theorem target_injective {a b : String} (h : target a = target b) : a = b := by
  have hbytes := congrArg (fun path => fromUtf8 path.bytes) h
  simp only [target, fromUtf8_utf8, Option.some.injEq, List.append_cancel_right_eq] at hbytes
  exact String.toList_injective hbytes

theorem markdown_target {name : String} (h : name.toList ≠ []) : (target name).markdown = true := by
  have hne : utf8 name.toList ≠ [] := by
    intro hnil
    have hdecode := fromUtf8_utf8 name.toList
    rw [hnil] at hdecode
    exact h (Option.some.inj hdecode).symm
  have hsplit : splitDot (utf8 name.toList ++ dot :: utf8 "md".toList) =
      (utf8 name.toList, some (utf8 "md".toList)) := splitDot_some (by decide) hne
  have hname : (target name).bytes = utf8 name.toList ++ dot :: utf8 "md".toList := by
    rw [target, utf8_append]
    rfl
  rw [FileName.markdown, extension, fileName, hname]
  simp only [List.getLast?_singleton, Option.bind_some, hsplit]
  decide

theorem not_markdown_temporary (name : String) (pid : Nat) :
    (temporary name pid).markdown = false := by
  have hdot : dot ∉ utf8 ("tmp-".toList ++ Nat.toDigits 10 pid) := by
    intro hmem
    rcases List.mem_append.mp (ascii_mem_utf8 (d := '.') (by decide) hmem) with h | h
    · revert h
      decide
    · have hdigit := Nat.isDigit_of_mem_toDigits (by decide) (by decide) h
      cases hdigit
  have hne : utf8 ('.' :: name.toList) ≠ [] := by
    rw [utf8_cons]
    exact List.append_ne_nil_of_left_ne_nil (encode_ne_nil '.') _
  have hsplit := splitDot_some hdot hne
  have hname : (temporary name pid).bytes =
      utf8 ('.' :: name.toList) ++ dot :: utf8 ("tmp-".toList ++ Nat.toDigits 10 pid) := by
    rw [temporary, List.append_assoc, utf8_append]
    rfl
  rw [FileName.markdown, extension, fileName, hname]
  simp only [List.getLast?_singleton, Option.bind_some, hsplit, Option.any_some,
    decide_eq_false_iff_not]
  intro he
  cases congrArg List.head? he

end AgentDaemon.Skills
