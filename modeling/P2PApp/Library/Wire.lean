import P2PApp.Library.JavaScript

/-!
# Values on the wire

What is left of a value when it is turned into JSON and back: arrays and objects are new ones, and a
number that JSON cannot express becomes `null`. Two values with the same shape differ in nothing but
the identities of their arrays and objects. Assignment to a property comes along, because programs
change a value before they pass it on.
-/

namespace P2PApp.JavaScript.Value

/-- A value without an identity. -/
def isAtomic : Value → Bool
  | array _ _ | object _ _ => false
  | _ => true

mutual

/-- The value with its numbers replaced and its identities forgotten. -/
def mapNumbers (f : Number → Value) : Value → Value
  | number value => f value
  | array _ items => array 0 (mapItems f items)
  | object _ fields => object 0 (mapFields f fields)
  | value => value

def mapItems (f : Number → Value) : List Value → List Value
  | [] => []
  | value :: rest => value.mapNumbers f :: mapItems f rest

def mapFields (f : Number → Value) : List (String × Value) → List (String × Value)
  | [] => []
  | (name, value) :: rest => (name, value.mapNumbers f) :: mapFields f rest

end

/-- The value up to identities. -/
def shape (value : Value) : Value := value.mapNumbers number

def jsonNumber : Number → Value
  | .finite value => number (.finite value)
  | _ => null

/-- What `JSON.stringify` writes, up to identities. A value that `JSON.parse` has produced has no
`undefined` in it. -/
def wire (value : Value) : Value := value.mapNumbers jsonNumber

section MapNumbers

variable {f : Number → Value}

theorem lookup_mapFields (fields : List (String × Value)) (name : String) :
    (mapFields f fields).lookup name = (fields.lookup name).map (mapNumbers f) := by
  induction fields with
  | nil => rfl
  | cons field rest ih =>
    obtain ⟨other, value⟩ := field
    rw [mapFields, List.lookup_cons, List.lookup_cons]
    split
    · rfl
    · exact ih

/-- Properties are replaced with the value, as long as numbers do not become objects. -/
theorem property_mapNumbers (hatomic : ∀ value, (f value).isAtomic = true) (value : Value)
    (name : String) : (value.mapNumbers f).property name = (value.property name).mapNumbers f := by
  cases value with
  | number value =>
    have h := hatomic value
    rw [mapNumbers]
    cases hvalue : f value <;> rw [hvalue] at h <;> first | rfl | cases h
  | object identity fields =>
    rw [mapNumbers, property, property, lookup_mapFields]
    cases fields.lookup name <;> rfl
  | _ => rfl

theorem isAtomic_mapNumbers (hatomic : ∀ value, (f value).isAtomic = true) (value : Value) :
    (value.mapNumbers f).isAtomic = value.isAtomic := by
  cases value with
  | number value => exact hatomic value
  | _ => rfl

end MapNumbers

theorem isAtomic_jsonNumber (value : Number) : (jsonNumber value).isAtomic = true := by
  cases value <;> rfl

theorem property_shape (value : Value) (name : String) :
    value.shape.property name = (value.property name).shape :=
  property_mapNumbers (fun _ ↦ rfl) value name

theorem property_wire (value : Value) (name : String) :
    value.wire.property name = (value.property name).wire :=
  property_mapNumbers isAtomic_jsonNumber value name

@[simp] theorem isAtomic_shape (value : Value) : value.shape.isAtomic = value.isAtomic :=
  isAtomic_mapNumbers (fun _ ↦ rfl) value

@[simp] theorem isAtomic_wire (value : Value) : value.wire.isAtomic = value.isAtomic :=
  isAtomic_mapNumbers isAtomic_jsonNumber value

theorem shape_of_isAtomic {value : Value} (h : value.isAtomic = true) : value.shape = value := by
  cases value with
  | array _ _ | object _ _ => cases h
  | _ => rfl

/-- A value without an identity is determined by its shape. -/
theorem eq_of_shape_eq {left right : Value} (hleft : left.isAtomic = true)
    (h : right.shape = left.shape) : right = left := by
  have hright : right.isAtomic = true := by rw [← isAtomic_shape, h, isAtomic_shape, hleft]
  rw [← shape_of_isAtomic hright, h, shape_of_isAtomic hleft]

theorem nullish_shape (value : Value) : value.shape.nullish = value.nullish := by
  cases value <;> rfl

mutual

/-- The text of a value does not depend on identities. -/
theorem text_shape (conversions : Conversions) (value : Value) :
    value.shape.text conversions = value.text conversions := by
  cases value with
  | array identity items => exact join_mapItems conversions items
  | _ => rfl

theorem join_mapItems (conversions : Conversions) (items : List Value) :
    join conversions (mapItems number items) = join conversions items := by
  cases items with
  | nil => rfl
  | cons value rest =>
    have hvalue := text_shape conversions value
    cases rest with
    | nil =>
      rw [mapItems, mapItems, join, join]
      rw [← shape, nullish_shape, hvalue]
    | cons second rest =>
      have hrest := join_mapItems conversions (second :: rest)
      calc join conversions (mapItems number (value :: second :: rest))
          = (if value.shape.nullish then "" else value.shape.text conversions) ++ "," ++
              join conversions (mapItems number (second :: rest)) := rfl
        _ = join conversions (value :: second :: rest) := by
          rw [nullish_shape, hvalue, hrest]
          rfl

end

/-- Nor does its number. -/
theorem asNumber_shape (conversions : Conversions) (value : Value) :
    value.shape.asNumber conversions = value.asNumber conversions := by
  cases value with
  | array identity items =>
    have htext := text_shape conversions (array identity items)
    exact congrArg conversions.textNumber htext
  | _ => rfl

/-! ## Identities -/

mutual

/-- The value with new identities, numbered from a counter on, and the counter afterwards. -/
def allocate (next : ℕ) : Value → Value × ℕ
  | array _ items =>
    let allocated := allocateItems (next + 1) items
    (array next allocated.1, allocated.2)
  | object _ fields =>
    let allocated := allocateFields (next + 1) fields
    (object next allocated.1, allocated.2)
  | value => (value, next)

def allocateItems (next : ℕ) : List Value → List Value × ℕ
  | [] => ([], next)
  | value :: rest =>
    let first := value.allocate next
    let others := allocateItems first.2 rest
    (first.1 :: others.1, others.2)

def allocateFields (next : ℕ) : List (String × Value) → List (String × Value) × ℕ
  | [] => ([], next)
  | (name, value) :: rest =>
    let first := value.allocate next
    let others := allocateFields first.2 rest
    ((name, first.1) :: others.1, others.2)

end

mutual

theorem shape_allocate (next : ℕ) (value : Value) :
    (value.allocate next).1.shape = value.shape := by
  cases value with
  | array identity items =>
    exact congrArg (array 0) (mapItems_allocateItems (next + 1) items)
  | object identity fields =>
    exact congrArg (object 0) (mapFields_allocateFields (next + 1) fields)
  | _ => rfl

theorem mapItems_allocateItems (next : ℕ) (items : List Value) :
    mapItems number (allocateItems next items).1 = mapItems number items := by
  cases items with
  | nil => rfl
  | cons value rest =>
    exact congrArg₂ List.cons (shape_allocate next value) (mapItems_allocateItems _ rest)

theorem mapFields_allocateFields (next : ℕ) (fields : List (String × Value)) :
    mapFields number (allocateFields next fields).1 = mapFields number fields := by
  cases fields with
  | nil => rfl
  | cons field rest =>
    exact congrArg₂ List.cons (congrArg (Prod.mk field.1) (shape_allocate next field.2))
      (mapFields_allocateFields _ rest)

end

mutual

/-- The same value up to identities. -/
def sameShape : Value → Value → Bool
  | array _ left, array _ right => sameItems left right
  | object _ left, object _ right => sameFields left right
  | left, right => left.isAtomic && right.isAtomic && decide (left.key = right.key)

def sameItems : List Value → List Value → Bool
  | [], [] => true
  | left :: lefts, right :: rights => left.sameShape right && sameItems lefts rights
  | _, _ => false

def sameFields : List (String × Value) → List (String × Value) → Bool
  | [], [] => true
  | (leftName, left) :: lefts, (rightName, right) :: rights =>
    decide (leftName = rightName) && left.sameShape right && sameFields lefts rights
  | _, _ => false

end

/-- Without identities, values of the same shape have the same key. -/
theorem key_eq_of_sameShape {left right : Value} (hleft : left.isAtomic = true)
    (h : left.sameShape right = true) : left.key = right.key := by
  cases left with
  | array _ _ | object _ _ => cases hleft
  | _ =>
    unfold sameShape at h
    simp only [Bool.and_eq_true, decide_eq_true_eq] at h
    exact h.2

/-! ## Assignment -/

def setField (name : String) (value : Value) : List (String × Value) → List (String × Value)
  | [] => [(name, value)]
  | (other, old) :: rest =>
    if other = name then (name, value) :: rest else (other, old) :: setField name value rest

/-- The object after `object[name] = assigned`. -/
def setProperty (value : Value) (name : String) (assigned : Value) : Value :=
  match value with
  | object identity fields => object identity (setField name assigned fields)
  | other => other

theorem lookup_setField (name other : String) (value : Value) (fields : List (String × Value)) :
    (setField name value fields).lookup other =
      if other = name then some value else fields.lookup other := by
  induction fields with
  | nil =>
    by_cases h : other = name
    · simp [setField, h]
    · simp [setField, List.lookup_cons, h, beq_false_of_ne h]
  | cons field rest ih =>
    obtain ⟨first, old⟩ := field
    by_cases hfirst : first = name
    · subst hfirst
      by_cases h : other = first
      · simp [setField, h]
      · simp [setField, List.lookup_cons, h, beq_false_of_ne h]
    · rw [setField, if_neg hfirst, List.lookup_cons, List.lookup_cons, ih]
      by_cases hother : other = first
      · subst hother
        simp [hfirst]
      · simp [beq_false_of_ne hother]

theorem property_setProperty_of_ne (value assigned : Value) {name other : String}
    (h : other ≠ name) :
    (value.setProperty name assigned).property other = value.property other := by
  cases value with
  | object identity fields => simp [setProperty, property, lookup_setField, h]
  | _ => rfl

theorem property_setProperty_self (identity : ℕ) (fields : List (String × Value)) (name : String)
    (assigned : Value) :
    ((object identity fields).setProperty name assigned).property name = assigned := by
  simp [setProperty, property, lookup_setField]

end P2PApp.JavaScript.Value
