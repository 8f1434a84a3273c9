import BrokeredRpc.Table

/-!
# Data trees

The tree in which properties and settings are written down. Integers are exact
and of any size; a number that is not written as an integer (with a fraction,
an exponent, or as minus zero) is kept as its literal, because no value of this
library is one. A key that an object holds twice has its last value, which
`fields` states: it is the table of an object's values.
-/
namespace BrokeredRpc

inductive Json
  | null
  | bool (value : Bool)
  | integer (value : Int)
  | fractional (literal : String)
  | text (value : String)
  | array (items : List Json)
  | object (members : List (String × Json))
  deriving Inhabited

namespace Json

/-- The values of an object by key, `none` for any other tree. -/
def fields : Json → Option (Table Json)
  | .object members => some (Table.ofList members)
  | _ => none

def items : Json → Option (List Json)
  | .array items => some items
  | _ => none

def text? : Json → Option String
  | .text value => some value
  | _ => none

/-- A whole number from zero up to, and without, `bound`. -/
def natBelow? (bound : Nat) : Json → Option Nat
  | .integer value => if 0 ≤ value ∧ value.toNat < bound then some value.toNat else none
  | _ => none

/-- An optional text: `null` stands for none. -/
def optionalText? : Json → Option (Option String)
  | .null => some none
  | .text value => some (some value)
  | _ => none

/-- A text, or `null` for none. -/
def ofOptionalText : Option String → Json
  | none => .null
  | some value => .text value

/-- A table of texts, written as an object. -/
def ofTexts (texts : Table String) : Json := .object (texts.mapValues .text).toList

/-- The texts of an object, if all its values are texts. -/
def texts? (tree : Json) : Option (Table String) := do
  let fields ← tree.fields
  let entries ← fields.toList.mapM fun e => e.2.text?.map (e.1, ·)
  return Table.ofList entries

@[simp] theorem optionalText?_ofOptionalText (value : Option String) :
    optionalText? (ofOptionalText value) = some value := by cases value <;> rfl

end Json

end BrokeredRpc
