import Mathlib.Data.Finset.Basic
import Mathlib.Data.Rat.Defs
import Mathlib.Algebra.Order.Ring.Rat

/-!
# Unchecked JavaScript values

The values that `JSON.parse` produces and what programs do with them when they do not check them:
reading a property, testing for truth, comparing, and converting to a string or a number. The
operations that can throw return an option, `none` standing for the exception.

Arrays and objects have an identity, which is what strict equality and the keys of maps and sets
compare. Numbers are exact, with the infinities and the number that is none. The conversions
between numerals and numbers, and the order of strings by code units, are parameters.
-/

namespace P2PApp.JavaScript

inductive Number
  | nan
  | negInfinity
  | finite (value : ℚ)
  | infinity
  deriving DecidableEq

namespace Number

/-- The relation `<`, which is false as soon as one side is no number. -/
def less : Number → Number → Bool
  | nan, _ | _, nan | infinity, _ | _, negInfinity => false
  | negInfinity, _ | _, infinity => true
  | finite left, finite right => decide (left < right)

/-- `Math.max`. -/
def max (left right : Number) : Number :=
  if left = nan ∨ right = nan then nan else if less left right then right else left

/-- Addition of a finite number. -/
def add (number : Number) (summand : ℚ) : Number :=
  match number with
  | finite value => finite (value + summand)
  | other => other

end Number

inductive Value
  | undefined
  | null
  | bool (value : Bool)
  | number (value : Number)
  | string (value : String)
  | array (identity : ℕ) (items : List Value)
  | object (identity : ℕ) (fields : List (String × Value))

/-- What distinguishes values in a map, in a set and under `===`, up to the number that is none. -/
inductive Key
  | undefined
  | null
  | bool (value : Bool)
  | number (value : Number)
  | string (value : String)
  | reference (identity : ℕ)
  deriving DecidableEq

/-- The conversions that the language specifies by its grammar of numerals and by UTF-16. -/
structure Conversions where
  numberText : Number → String
  textNumber : String → Number
  textLess : String → String → Bool

namespace Key

def truthy : Key → Bool
  | undefined | null | number .nan => false
  | bool value => value
  | number value => value ≠ .finite 0
  | string value => value ≠ ""
  | reference _ => true

end Key

namespace Value

def key : Value → Key
  | undefined => .undefined
  | null => .null
  | bool value => .bool value
  | number value => .number value
  | string value => .string value
  | array identity _ | object identity _ => .reference identity

def truthy (value : Value) : Bool := value.key.truthy

/-- Reading any property of these throws. -/
def nullish : Value → Bool
  | undefined | null => true
  | _ => false

/-- The property of a value under a name that no built-in prototype defines. -/
def property (value : Value) (name : String) : Value :=
  match value with
  | object _ fields => (fields.lookup name).getD undefined
  | _ => undefined

/-- The relation `===`. -/
def same (left right : Value) : Bool := left.key = right.key ∧ left.key ≠ .number .nan

mutual

/-- The value has no conversion to a primitive one: an object whose own `toString` hides the
inherited one and, coming from JSON, is no function, or an array that would have to print one. -/
def unprintable : Value → Bool
  | undefined | null | bool _ | number _ | string _ => false
  | array _ items => anyUnprintable items
  | object _ fields => (fields.lookup "toString").isSome

def anyUnprintable : List Value → Bool
  | [] => false
  | value :: rest => value.unprintable || anyUnprintable rest

end

mutual

/-- `String(value)` where it does not throw. -/
def text (conversions : Conversions) : Value → String
  | undefined => "undefined"
  | null => "null"
  | bool value => if value then "true" else "false"
  | number value => conversions.numberText value
  | string value => value
  | array _ items => join conversions items
  | object _ _ => "[object Object]"

/-- `items.join(',')`, in which the missing values are empty. -/
def join (conversions : Conversions) : List Value → String
  | [] => ""
  | [value] => if value.nullish then "" else value.text conversions
  | value :: rest =>
    (if value.nullish then "" else value.text conversions) ++ "," ++ join conversions rest

end

/-- Arrays and objects are converted to strings before they are compared or calculated with. -/
def primitive (conversions : Conversions) : Value → Value
  | array identity items => string ((array identity items).text conversions)
  | object identity fields => string ((object identity fields).text conversions)
  | value => value

/-- `Number(value)` where it does not throw. -/
def asNumber (conversions : Conversions) (value : Value) : Number :=
  match value.primitive conversions with
  | null => .finite 0
  | bool value => .finite (if value then 1 else 0)
  | number value => value
  | string value => conversions.textNumber value
  | _ => .nan

/-- The relation `<` where it does not throw: strings are compared as such, all else as numbers. -/
def less (conversions : Conversions) (left right : Value) : Bool :=
  match left.primitive conversions, right.primitive conversions with
  | string left, string right => conversions.textLess left right
  | left, right => (left.asNumber conversions).less (right.asNumber conversions)

/-! ## The operations that can throw -/

def toText (conversions : Conversions) (value : Value) : Option String :=
  if value.unprintable then none else some (value.text conversions)

def toNumber (conversions : Conversions) (value : Value) : Option Number :=
  if value.unprintable then none else some (value.asNumber conversions)

def lessThan (conversions : Conversions) (left right : Value) : Option Bool :=
  if left.unprintable || right.unprintable then none else some (left.less conversions right)

/-- A conversion succeeds. -/
def Printable (value : Value) : Prop := value.unprintable = false

instance : DecidablePred Printable := fun value ↦
  inferInstanceAs (Decidable (value.unprintable = false))

@[simp] theorem isSome_toText (conversions : Conversions) (value : Value) :
    (value.toText conversions).isSome = true ↔ value.Printable := by
  cases h : value.unprintable <;> simp [toText, Printable, h]

@[simp] theorem isSome_toNumber (conversions : Conversions) (value : Value) :
    (value.toNumber conversions).isSome = true ↔ value.Printable := by
  cases h : value.unprintable <;> simp [toNumber, Printable, h]

theorem isSome_lessThan {conversions : Conversions} {left right : Value} :
    (left.lessThan conversions right).isSome = true ↔ left.Printable ∧ right.Printable := by
  cases hleft : left.unprintable <;> cases hright : right.unprintable <;>
    simp [lessThan, Printable, hleft, hright]

theorem eq_string_of_key {value : Value} {text : String} (h : value.key = .string text) :
    value = .string text := by
  cases value with
  | string other =>
    cases h
    rfl
  | _ => cases h

/-- Only arrays and objects can fail to be printed, and these are true. -/
theorem printable_of_not_truthy {value : Value} (h : value.truthy = false) : value.Printable := by
  cases value with
  | undefined | null | bool _ | number _ | string _ => rfl
  | array _ _ | object _ _ => cases h

end Value

end P2PApp.JavaScript
