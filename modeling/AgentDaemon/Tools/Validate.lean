import Mathlib.Logic.Relation
import AgentDaemon.Lib.Fallible
import AgentDaemon.Lib.Json
import Mathlib.Algebra.Ring.Int.Defs
import Mathlib.Algebra.Ring.Nat

/-!
`validate_value`, which checks the arguments of a tool against the schema of the tool, and what the
keywords of a schema mean. The two agree exactly where no member of an object is neither listed nor
allowed by a schema that lists none, and no integer is too large for the machine
(`validateValue_iff_conforms`).
-/

namespace AgentDaemon.Tools

open Fallible Relation

/-! ## The check -/

def asObject? : Json → Option (List (String × Json))
  | .obj fields => some fields
  | _ => none

def isBoolean : Json → Bool
  | .bool _ => true
  | _ => false

def isNumber : Json → Bool
  | .num _ => true
  | _ => false

/-- The number is an `i64` or a `u64`. -/
def isMachineInteger : Json → Bool
  | .num n => -2 ^ 63 ≤ n && n < 2 ^ 64
  | _ => false

def fitsType (expected : String) (value : Json) : Bool :=
  match expected with
  | "object" => (asObject? value).isSome
  | "array" => value.asArray?.isSome
  | "string" => value.asStr?.isSome
  | "number" => isNumber value
  | "integer" => isMachineInteger value
  | "boolean" => isBoolean value
  | "null" => value = .null
  | _ => true

def checkType (schema value : Json) (path : String) : Except String Unit :=
  match (schema.get? "type").bind Json.asStr? with
  | some expected =>
    if fitsType expected value then .ok () else .error (path ++ " 应为 " ++ expected)
  | none => .ok ()

def checkRequired (schema : Json) (fields : List (String × Json)) (path : String) :
    Except String Unit :=
  let required := (((schema.get? "required").bind Json.asArray?).getD []).filterMap Json.asStr?
  match required.find? fun name => (fields.lookup name).isNone with
  | some name => .error (path ++ " 缺少必填字段 " ++ name)
  | none => .ok ()

mutual
def validateValue (schema : Json) : Json → String → Except String Unit
  | .obj fields, path => do
    checkType schema (.obj fields) path
    checkRequired schema fields path
    match (schema.get? "properties").bind asObject? with
    | some properties => validateFields schema properties fields path
    | none => .ok ()
  | value, path => checkType schema value path

def validateFields (schema : Json) (properties : List (String × Json)) :
    List (String × Json) → String → Except String Unit
  | [], _ => .ok ()
  | (name, child) :: rest, path => do
    match properties.lookup name with
    | some childSchema => validateValue childSchema child (path ++ "." ++ name)
    | none =>
      if schema.get? "additionalProperties" = some (.bool false) then
        .error (path ++ " 不允许额外字段 " ++ name)
      else .ok ()
    validateFields schema properties rest path
end

/-! ## Schemas -/

inductive JsonType where
  | object | array | string | number | integer | boolean | null
  deriving DecidableEq

def JsonType.name : JsonType → String
  | object => "object"
  | array => "array"
  | string => "string"
  | number => "number"
  | integer => "integer"
  | boolean => "boolean"
  | null => "null"

/-- The values of a type. -/
def JsonType.Has : JsonType → Json → Prop
  | object, .obj _ | array, .arr _ | string, .str _ | number, .num _ | integer, .num _
  | boolean, .bool _ | null, .null => True
  | _, _ => False

/-- The keywords beside `properties`; `closed` is `additionalProperties: false`. -/
structure Rules where
  type : Option JsonType
  required : Option (List String)
  closed : Bool

inductive Schema where
  /-- Without `properties`. -/
  | plain (rules : Rules)
  | listing (rules : Rules) (properties : List (String × Schema))

namespace Schema

def rules : Schema → Rules
  | plain rules | listing rules _ => rules

def properties? : Schema → Option (List (String × Schema))
  | plain _ => none
  | listing _ properties => some properties

def property? (s : Schema) (name : String) : Option Schema :=
  s.properties?.bind (List.lookup name)

end Schema

def Rules.front (r : Rules) : List (String × Json) :=
  if r.closed then [("additionalProperties", .bool false)] else []

def Rules.back (r : Rules) : List (String × Json) :=
  (r.required.map fun names => ("required", Json.arr (names.map Json.str))).toList ++
    (r.type.map fun t => ("type", Json.str t.name)).toList

mutual
def Schema.toJson : Schema → Json
  | .plain r => .obj (r.front ++ r.back)
  | .listing r properties => .obj (r.front ++ ("properties", .obj (toFields properties)) :: r.back)

def Schema.toFields : List (String × Schema) → List (String × Json)
  | [] => []
  | (name, s) :: rest => (name, s.toJson) :: toFields rest
end

/-! ## What a schema means -/

def Rules.TypeFits (r : Rules) (value : Json) : Prop := ∀ t, r.type = some t → t.Has value

def Rules.RequiredThere (r : Rules) (fields : List (String × Json)) : Prop :=
  ∀ names, r.required = some names → ∀ name ∈ names, name ∈ fields.map Prod.fst

/-- The meaning of the keywords in JSON Schema. -/
inductive Conforms : Schema → Json → Prop where
  | other {s : Schema} {value : Json} (other : asObject? value = none)
    (type : s.rules.TypeFits value) : Conforms s value
  | object {s : Schema} {fields : List (String × Json)} (type : s.rules.TypeFits (.obj fields))
    (required : s.rules.RequiredThere fields)
    (closed : s.rules.closed = true → ∀ name ∈ fields.map Prod.fst, (s.property? name).isSome)
    (members : ∀ name child s', (name, child) ∈ fields → s.property? name = some s' →
      Conforms s' child) : Conforms s (.obj fields)

/-- A value with the schema it has to conform to. -/
structure Place where
  schema : Schema
  value : Json

/-- The second place is a member of the first one that is listed. -/
def Member (p q : Place) : Prop :=
  ∃ fields name, p.value = .obj fields ∧ (name, q.value) ∈ fields ∧
    p.schema.property? name = some q.schema

/-- All places below one, with the place itself. -/
def Reaches : Place → Place → Prop := ReflTransGen Member

namespace Place

/-- What the check and the meaning of the keywords have in common. -/
structure Shared (p : Place) : Prop where
  type : p.schema.rules.TypeFits p.value
  required : ∀ fields, p.value = .obj fields → p.schema.rules.RequiredThere fields
  closed : ∀ fields properties, p.value = .obj fields → p.schema.properties? = some properties →
    p.schema.rules.closed = true → ∀ name ∈ fields.map Prod.fst, (properties.lookup name).isSome

/-- An integer is asked for, and there is one that no machine integer holds. -/
def Outsized (p : Place) : Prop :=
  p.schema.rules.type = some .integer ∧ ∃ n, p.value = .num n ∧ ¬ (-2 ^ 63 ≤ n ∧ n < 2 ^ 64)

/-- No members are listed or allowed, and there are some. -/
def Unlisted (p : Place) : Prop :=
  p.schema.rules.closed = true ∧ p.schema.properties? = none ∧
    ∃ fields, p.value = .obj fields ∧ fields ≠ []

end Place

/-! ## The keywords in the text of a schema -/

namespace Schema

theorem get?_toJson (s : Schema) (key : String) :
    s.toJson.get? key = (s.rules.front.lookup key).or
      ((s.properties?.bind fun properties =>
        [("properties", Json.obj (toFields properties))].lookup key).or (s.rules.back.lookup key)) := by
  cases s with
  | plain r => simp [toJson, rules, properties?, Json.get?, List.lookup_append]
  | listing r properties =>
    simp only [toJson, rules, properties?, Json.get?, List.lookup_append, Option.bind_some]
    cases hkey : key == "properties" <;> simp [List.lookup_cons, hkey]

theorem toJson_type (s : Schema) :
    (s.toJson.get? "type").bind Json.asStr? = s.rules.type.map JsonType.name := by
  rw [get?_toJson]
  rcases s.rules with ⟨type, required, closed⟩
  cases type <;> cases required <;> cases closed <;> cases s.properties? <;>
    simp [Rules.front, Rules.back, List.lookup_cons, Json.asStr?]

theorem toJson_required (s : Schema) :
    (((s.toJson.get? "required").bind Json.asArray?).getD []).filterMap Json.asStr? =
      s.rules.required.getD [] := by
  have hnames : ∀ names : List String, (names.map Json.str).filterMap Json.asStr? = names := by
    intro names
    induction names with
    | nil => rfl
    | cons name names ih => simp [Json.asStr?, ih]
  rw [get?_toJson]
  rcases s.rules with ⟨type, required, closed⟩
  cases type <;> cases required <;> cases closed <;> cases s.properties? <;>
    simp [Rules.front, Rules.back, List.lookup_cons, Json.asArray?, hnames]

theorem toJson_properties (s : Schema) :
    (s.toJson.get? "properties").bind asObject? = s.properties?.map toFields := by
  rw [get?_toJson]
  rcases s.rules with ⟨type, required, closed⟩
  cases type <;> cases required <;> cases closed <;> cases s.properties? <;>
    simp [Rules.front, Rules.back, List.lookup_cons, asObject?]

theorem toJson_additional (s : Schema) :
    s.toJson.get? "additionalProperties" = some (.bool false) ↔ s.rules.closed = true := by
  rw [get?_toJson]
  rcases s.rules with ⟨type, required, closed⟩
  cases type <;> cases required <;> cases closed <;> cases s.properties? <;>
    simp [Rules.front, Rules.back, List.lookup_cons]

theorem lookup_toFields (properties : List (String × Schema)) (name : String) :
    (toFields properties).lookup name = (properties.lookup name).map toJson := by
  induction properties with
  | nil => simp [toFields]
  | cons entry properties ih =>
    obtain ⟨key, s⟩ := entry
    cases hkey : name == key <;> simp [toFields, List.lookup_cons, hkey, ih]

end Schema

/-! ## What the check accepts -/

theorem lookup_eq_none_iff {fields : List (String × Json)} {name : String} :
    fields.lookup name = none ↔ name ∉ fields.map Prod.fst := by
  rw [List.lookup_eq_none_iff, List.mem_map]
  constructor
  · rintro h ⟨entry, hentry, rfl⟩
    exact absurd (h entry hentry) (by simp)
  · intro h entry hentry
    exact bne_iff_ne.mpr fun he => h ⟨entry, hentry, he.symm⟩

theorem fitsType_name (t : JsonType) (value : Json) :
    fitsType t.name value = true ↔
      t.Has value ∧ ¬ (t = .integer ∧ ∃ n, value = .num n ∧ ¬ (-2 ^ 63 ≤ n ∧ n < 2 ^ 64)) := by
  cases t <;> cases value <;>
    simp [fitsType, JsonType.name, JsonType.Has, asObject?, isNumber, isMachineInteger, isBoolean,
      Json.asArray?, Json.asStr?]

theorem checkType_ok {s : Schema} {value : Json} {path : String} :
    checkType s.toJson value path = .ok () ↔
      s.rules.TypeFits value ∧ ¬ (Place.mk s value).Outsized := by
  unfold checkType Rules.TypeFits Place.Outsized
  rw [s.toJson_type]
  cases htype : s.rules.type with
  | none => simp
  | some t =>
    have hfits := fitsType_name t value
    simp only [Option.map_some, Option.some.injEq, forall_eq']
    rw [← hfits]
    split <;> simp_all

theorem checkRequired_ok {s : Schema} {fields : List (String × Json)} {path : String} :
    checkRequired s.toJson fields path = .ok () ↔ s.rules.RequiredThere fields := by
  unfold checkRequired Rules.RequiredThere
  rw [s.toJson_required]
  cases hrequired : s.rules.required with
  | none => simp
  | some names =>
    simp only [Option.getD_some, Option.some.injEq, forall_eq']
    constructor
    · intro h name hname
      by_contra hmissing
      split at h
      · cases h
      · rename_i hfind
        have hall := List.find?_eq_none.mp hfind name hname
        rw [lookup_eq_none_iff.mpr hmissing] at hall
        exact hall rfl
    · intro h
      have hfind : names.find? (fun name => (fields.lookup name).isNone) = none := by
        refine List.find?_eq_none.mpr fun name hname hnone => ?_
        exact lookup_eq_none_iff.mp (Option.isNone_iff_eq_none.mp hnone) (h name hname)
      rw [hfind]

theorem validateFields_ok {s : Schema} {properties : List (String × Schema)}
    {fields : List (String × Json)} {path : String} :
    validateFields s.toJson (Schema.toFields properties) fields path = .ok () ↔
      ∀ entry ∈ fields, (s.rules.closed = true → (properties.lookup entry.1).isSome) ∧
        ∀ s', properties.lookup entry.1 = some s' →
          validateValue s'.toJson entry.2 (path ++ "." ++ entry.1) = .ok () := by
  induction fields with
  | nil => simp [validateFields]
  | cons entry fields ih =>
    obtain ⟨name, child⟩ := entry
    rw [validateFields, Schema.lookup_toFields, List.forall_mem_cons, ← ih]
    cases hlookup : properties.lookup name with
    | none =>
      simp only [Option.map_none, s.toJson_additional]
      cases hclosed : s.rules.closed with
      | true => simp [Bind.bind, Except.bind]
      | false => simp [Bind.bind, Except.bind]
    | some s' => simp [check_eq_ok]

/-- The check accepts a value if the keywords that it reads hold there and it accepts the members. -/
theorem validateValue_ok {s : Schema} {value : Json} {path : String} :
    validateValue s.toJson value path = .ok () ↔
      ((Place.mk s value).Shared ∧ ¬ (Place.mk s value).Outsized) ∧
        ∀ fields, value = .obj fields → ∀ entry ∈ fields, ∀ s', s.property? entry.1 = some s' →
          validateValue s'.toJson entry.2 (path ++ "." ++ entry.1) = .ok () := by
  cases value with
  | obj fields =>
    have hsteps : validateValue s.toJson (.obj fields) path = .ok () ↔
        checkType s.toJson (.obj fields) path = .ok () ∧
          checkRequired s.toJson fields path = .ok () ∧
            ∀ properties, s.properties? = some properties →
              validateFields s.toJson (Schema.toFields properties) fields path = .ok () := by
      rw [validateValue, s.toJson_properties]
      rw [check_eq_ok, check_eq_ok]
      cases s.properties? <;> simp
    rw [hsteps, checkType_ok, checkRequired_ok]
    constructor
    · rintro ⟨⟨htype, houtsized⟩, hrequired, hfields⟩
      refine ⟨⟨⟨htype, ?_, ?_⟩, houtsized⟩, ?_⟩
      · rintro fields' ⟨⟩
        exact hrequired
      · rintro fields' properties ⟨⟩ hproperties hclosed name hname
        obtain ⟨entry, hentry, rfl⟩ := List.mem_map.mp hname
        exact (validateFields_ok.mp (hfields properties hproperties) entry hentry).1 hclosed
      · rintro fields' ⟨⟩ entry hentry s' hs'
        obtain ⟨properties, hproperties, hlookup⟩ := Option.bind_eq_some_iff.mp hs'
        exact (validateFields_ok.mp (hfields properties hproperties) entry hentry).2 s' hlookup
    · rintro ⟨⟨hshared, houtsized⟩, hmembers⟩
      refine ⟨⟨hshared.type, houtsized⟩, hshared.required fields rfl, ?_⟩
      intro properties hproperties
      refine validateFields_ok.mpr fun entry hentry => ⟨fun hclosed => ?_, fun s' hlookup => ?_⟩
      · exact hshared.closed fields properties rfl hproperties hclosed entry.1
          (List.mem_map_of_mem hentry)
      · refine hmembers fields rfl entry hentry s' ?_
        rw [Schema.property?, hproperties]
        exact hlookup
  | _ =>
    rw [validateValue, checkType_ok]
    · constructor
      · rintro ⟨htype, houtsized⟩
        exact ⟨⟨⟨htype, nofun, nofun⟩, houtsized⟩, nofun⟩
      · rintro ⟨⟨hshared, houtsized⟩, -⟩
        exact ⟨hshared.type, houtsized⟩
    · nofun

/-! ## Everywhere below a place -/

theorem members_induction {P : Json → Prop}
    (h : ∀ value, (∀ fields, value = .obj fields → ∀ entry ∈ fields, P entry.2) → P value)
    (value : Json) : P value :=
  h value fun _ _ entry _ => members_induction h entry.2
  termination_by sizeOf value
  decreasing_by
    rename_i hvalue hentry
    subst hvalue
    have hlt := List.sizeOf_lt_of_mem hentry
    obtain ⟨name, child⟩ := entry
    simp only [Json.obj.sizeOf_spec, Prod.mk.sizeOf_spec] at hlt ⊢
    omega

/-- What holds everywhere holds at the place and everywhere below its members. -/
theorem everywhere_iff {P : Place → Prop} {p : Place} :
    (∀ q, Reaches p q → P q) ↔ P p ∧ ∀ q, Member p q → ∀ r, Reaches q r → P r := by
  constructor
  · intro h
    exact ⟨h p .refl, fun q hq r hr => h r (.head hq hr)⟩
  · rintro ⟨hp, hmembers⟩ q hq
    cases hq using ReflTransGen.head_induction_on with
    | refl => exact hp
    | head hmember hrest => exact hmembers _ hmember q hrest

theorem validateValue_iff {s : Schema} {value : Json} {path : String} :
    validateValue s.toJson value path = .ok () ↔
      ∀ p, Reaches ⟨s, value⟩ p → p.Shared ∧ ¬ p.Outsized := by
  induction value using members_induction generalizing s path with
  | h value ih =>
    rw [validateValue_ok, everywhere_iff]
    refine and_congr_right fun _ => ?_
    constructor
    · rintro hmembers ⟨s', child⟩ ⟨fields, name, hvalue, hentry, hs'⟩
      exact (ih fields hvalue (name, child) hentry).mp
        (hmembers fields hvalue (name, child) hentry s' hs')
    · intro hbelow fields hvalue entry hentry s' hs'
      exact (ih fields hvalue entry hentry).mpr
        (hbelow ⟨s', entry.2⟩ ⟨fields, entry.1, hvalue, hentry, hs'⟩)

theorem conforms_step {s : Schema} {value : Json} :
    Conforms s value ↔ ((Place.mk s value).Shared ∧ ¬ (Place.mk s value).Unlisted) ∧
      ∀ q, Member ⟨s, value⟩ q → Conforms q.schema q.value := by
  constructor
  · intro h
    cases h with
    | other other type =>
      have hobj : ∀ fields, value ≠ .obj fields := by
        rintro fields rfl
        cases other
      refine ⟨⟨⟨type, fun fields hv => absurd hv (hobj fields),
        fun fields _ hv => absurd hv (hobj fields)⟩, ?_⟩, ?_⟩
      · rintro ⟨-, -, fields, hv, -⟩
        exact hobj fields hv
      · rintro q ⟨fields, name, hv, -⟩
        exact absurd hv (hobj fields)
    | object type required closed members =>
      refine ⟨⟨⟨type, ?_, ?_⟩, ?_⟩, ?_⟩
      · rintro fields ⟨⟩
        exact required
      · rintro fields properties ⟨⟩ hproperties hclosed name hname
        have hthere := closed hclosed name hname
        rw [Schema.property?, hproperties] at hthere
        exact hthere
      · rintro ⟨hclosed, hproperties, fields, ⟨⟩, hne⟩
        obtain ⟨entry, hentry⟩ := List.exists_mem_of_ne_nil _ hne
        have hthere := closed hclosed entry.1 (List.mem_map_of_mem hentry)
        rw [Schema.property?, hproperties] at hthere
        cases hthere
      · rintro ⟨s', child⟩ ⟨fields, name, ⟨⟩, hentry, hs'⟩
        exact members name child s' hentry hs'
  · rintro ⟨⟨hshared, hunlisted⟩, hmembers⟩
    cases value with
    | obj fields =>
      refine .object hshared.type (hshared.required fields rfl) ?_ ?_
      · intro hclosed name hname
        cases hproperties : s.properties? with
        | none =>
          refine absurd ⟨hclosed, hproperties, fields, rfl, ?_⟩ hunlisted
          rintro rfl
          cases hname
        | some properties =>
          rw [Schema.property?, hproperties]
          exact hshared.closed fields properties rfl hproperties hclosed name hname
      · intro name child s' hentry hs'
        exact hmembers ⟨s', child⟩ ⟨fields, name, rfl, hentry, hs'⟩
    | _ => exact .other rfl hshared.type

theorem conforms_iff {s : Schema} {value : Json} :
    Conforms s value ↔ ∀ p, Reaches ⟨s, value⟩ p → p.Shared ∧ ¬ p.Unlisted := by
  induction value using members_induction generalizing s with
  | h value ih =>
    rw [conforms_step, everywhere_iff]
    refine and_congr_right fun _ => forall_congr' fun q => forall_congr' fun hq => ?_
    obtain ⟨fields, name, hvalue, hentry, -⟩ := hq
    exact ih fields hvalue (name, q.value) hentry

/-- Whether a value conforms is what the check says, if and only if, where nothing else is wrong
with it, it has an integer that is too large exactly if it has a member that is not listed. -/
theorem validateValue_iff_conforms (s : Schema) (value : Json) (path : String) :
    (validateValue s.toJson value path = .ok () ↔ Conforms s value) ↔
      ((∀ p, Reaches ⟨s, value⟩ p → p.Shared) →
        ((∃ p, Reaches ⟨s, value⟩ p ∧ p.Outsized) ↔ ∃ p, Reaches ⟨s, value⟩ p ∧ p.Unlisted)) := by
  have hsplit : ∀ P : Place → Prop, (∀ p, Reaches ⟨s, value⟩ p → p.Shared ∧ ¬ P p) ↔
      (∀ p, Reaches ⟨s, value⟩ p → p.Shared) ∧ ¬ ∃ p, Reaches ⟨s, value⟩ p ∧ P p := by
    intro P
    constructor
    · intro h
      exact ⟨fun p hp => (h p hp).1, fun ⟨p, hp, hP⟩ => (h p hp).2 hP⟩
    · rintro ⟨hshared, hnone⟩ p hp
      exact ⟨hshared p hp, fun hP => hnone ⟨p, hp, hP⟩⟩
  rw [validateValue_iff, conforms_iff, hsplit, hsplit, and_congr_right_iff, not_iff_not]

/-- Any object is taken for one that has no members. -/
theorem validateValue_unlisted :
    validateValue (Schema.plain ⟨some .object, none, true⟩).toJson (.obj [("extra", .num 1)])
        "$args" = .ok () ∧
      ¬ Conforms (.plain ⟨some .object, none, true⟩) (.obj [("extra", .num 1)]) := by
  refine ⟨by decide, fun h => ?_⟩
  cases h with
  | other other _ => cases other
  | object _ _ closed _ => exact absurd (closed rfl "extra" (by simp)) (by decide)

end AgentDaemon.Tools
