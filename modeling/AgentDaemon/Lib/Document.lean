import AgentDaemon.Lib.Json

/-!
JSON documents with fractional numbers, whose type is a parameter, and what `serde` makes of their
objects: the fields of a struct are found by name, or stand in their order in an array.
-/

namespace AgentDaemon

inductive Document (F : Type) where
  | null
  | bool (b : Bool)
  | int (n : Int)
  | float (x : F)
  | str (s : String)
  | arr (items : List (Document F))
  | obj (fields : List (String × Document F))

namespace Document

variable {F : Type}

mutual
/-- How deep arrays and objects are nested. -/
def depth : Document F → Nat
  | arr items => depthItems items + 1
  | obj fields => depthFields fields + 1
  | _ => 0

def depthItems : List (Document F) → Nat
  | [] => 0
  | d :: items => max d.depth (depthItems items)

def depthFields : List (String × Document F) → Nat
  | [] => 0
  | (_, d) :: fields => max d.depth (depthFields fields)
end

mutual
/-- The fractional numbers of a document. -/
def floats : Document F → List F
  | float x => [x]
  | arr items => floatsItems items
  | obj fields => floatsFields fields
  | _ => []

def floatsItems : List (Document F) → List F
  | [] => []
  | d :: items => d.floats ++ floatsItems items

def floatsFields : List (String × Document F) → List F
  | [] => []
  | (_, d) :: fields => d.floats ++ floatsFields fields
end

mutual
def mapFloat (f : F → F) : Document F → Document F
  | float x => float (f x)
  | arr items => arr (mapItems f items)
  | obj fields => obj (mapFields f fields)
  | null => null
  | bool b => bool b
  | int n => int n
  | str s => str s

def mapItems (f : F → F) : List (Document F) → List (Document F)
  | [] => []
  | d :: items => d.mapFloat f :: mapItems f items

def mapFields (f : F → F) : List (String × Document F) → List (String × Document F)
  | [] => []
  | (name, d) :: fields => (name, d.mapFloat f) :: mapFields f fields
end

mutual
/-- A document is as it was if its fractional numbers are. -/
theorem mapFloat_eq_self (f : F → F) :
    ∀ d : Document F, d.mapFloat f = d ↔ ∀ x ∈ d.floats, f x = x
  | null => by simp [mapFloat, floats]
  | bool _ => by simp [mapFloat, floats]
  | int _ => by simp [mapFloat, floats]
  | str _ => by simp [mapFloat, floats]
  | float _ => by simp [mapFloat, floats]
  | arr items => by
    rw [mapFloat, arr.injEq, floats]
    exact mapItems_eq_self f items
  | obj fields => by
    rw [mapFloat, obj.injEq, floats]
    exact mapFields_eq_self f fields

theorem mapItems_eq_self (f : F → F) : ∀ items : List (Document F),
    mapItems f items = items ↔ ∀ x ∈ floatsItems items, f x = x
  | [] => by simp [mapItems, floatsItems]
  | d :: items => by
    simp only [mapItems, floatsItems, List.cons.injEq, List.forall_mem_append]
    exact and_congr (mapFloat_eq_self f d) (mapItems_eq_self f items)

theorem mapFields_eq_self (f : F → F) : ∀ fields : List (String × Document F),
    mapFields f fields = fields ↔ ∀ x ∈ floatsFields fields, f x = x
  | [] => by simp [mapFields, floatsFields]
  | (name, d) :: fields => by
    simp only [mapFields, floatsFields, List.cons.injEq, Prod.mk.injEq, true_and,
      List.forall_mem_append]
    exact and_congr (mapFloat_eq_self f d) (mapFields_eq_self f fields)
end

/-- `Value::get`; a `Value` has no name twice. -/
def get? (name : String) : Document F → Option (Document F)
  | .obj fields => fields.lookup name
  | _ => none

/-- `document[name] = value`, for a name that is there. -/
def set (d : Document F) (name : String) (value : Document F) : Document F :=
  match d with
  | .obj fields => .obj (fields.map fun f => if f.1 = name then (name, value) else f)
  | d => d

theorem get?_set {name : String} {d : Document F} (h : (d.get? name).isSome) (value : Document F) :
    (d.set name value).get? name = some value := by
  cases d with
  | obj fields =>
    simp only [set, get?] at h ⊢
    induction fields with
    | nil => cases h
    | cons f fields ih =>
      rw [List.map_cons]
      by_cases hf : f.1 = name
      · rw [if_pos hf, List.lookup_cons_self]
      · have hname : (name == f.1) = false := beq_eq_false_iff_ne.mpr (Ne.symm hf)
        rw [if_neg hf, List.lookup_cons, hname]
        rw [List.lookup_cons, hname] at h
        exact ih h
  | _ => cases h

/-! ## Fields of a struct -/

/-- The fields of a struct with these names, the first `required` of which an array must have. -/
def fieldsOf (names : List String) (required : Nat) :
    Document F → Option (List (String × Document F))
  | obj fields => some fields
  | arr items =>
    if required ≤ items.length ∧ items.length ≤ names.length then some (names.zip items) else none
  | _ => none

/-- The value of a field, if it is there; a field that is there twice is an error. -/
def field (fields : List (String × Document F)) (name : String) : Option (Option (Document F)) :=
  match fields.filter (fun f => f.1 = name) with
  | [] => some none
  | [(_, d)] => some (some d)
  | _ => none

def requiredField (fields : List (String × Document F)) (name : String) : Option (Document F) :=
  (field fields name).join

/-- A field of type `Option<Value>`: `null` counts as missing. -/
def optionField (fields : List (String × Document F)) (name : String) : Option (Option (Document F)) :=
  (field fields name).map fun d => d.bind fun d => match d with
    | null => none
    | d => some d

def asStr? : Document F → Option String
  | str s => some s
  | _ => none

def asInt? : Document F → Option Int
  | int n => some n
  | _ => none

end Document

end AgentDaemon
