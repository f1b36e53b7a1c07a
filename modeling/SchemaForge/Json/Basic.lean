import SchemaForge.Entries
import SchemaForge.Number.Shortest
import SchemaForge.Text.Quoted

/-! # JSON values

Values as a document holds them: members keep their order, and integers, which have any size, are
kept apart from binary64 numbers. The equality of values forgets both distinctions.
-/

namespace SchemaForge

open Number

/-- A JSON value. The keys of an object are distinct in every value that is read from text. -/
inductive Json where
  | null
  | bool (value : Bool)
  | int (value : Int)
  | float (value : Binary64)
  | str (text : String)
  | arr (items : List Json)
  | obj (members : List (String × Json))
deriving Inhabited

namespace Json

/-- A number for comparison: what a numeral stands for, however it is written. -/
inductive Amount where
  | nan
  | infinite (negative : Bool)
  | units (value : Int)
deriving DecidableEq

/-- The amount of a numeric value; truth values count as one and zero. -/
def amount? : Json → Option Amount
  | .bool value => some (.units (if value then Binary64.unitsPerOne else 0))
  | .int value => some (.units (value * Binary64.unitsPerOne))
  | .float .nan => some .nan
  | .float (.infinite negative) => some (.infinite negative)
  | .float (.finite negative units) => some (.units (Binary64.signedUnits negative units))
  | .null | .str _ | .arr _ | .obj _ => none

mutual

/-- Equality of values. Numbers are compared exactly and across their kinds, with truth values
among them, and objects regardless of the order of their members. -/
def same : Json → Json → Bool
  | .null, .null => true
  | .str a, .str b => a == b
  | .arr as, .arr bs => sameItems as bs
  | .obj as, .obj bs => as.length == bs.length && sameMembers as bs
  | .bool a, b => amount? (.bool a) == amount? b
  | .int a, b => amount? (.int a) == amount? b
  | .float a, b => amount? (.float a) == amount? b
  | .null, _ | .str _, _ | .arr _, _ | .obj _, _ => false

/-- Equality of lists of values, in order. -/
def sameItems : List Json → List Json → Bool
  | [], [] => true
  | a :: as, b :: bs => same a b && sameItems as bs
  | [], _ :: _ | _ :: _, [] => false

/-- Every one of the members has an equal counterpart under its key. -/
def sameMembers : List (String × Json) → List (String × Json) → Bool
  | [], _ => true
  | (key, a) :: as, bs =>
    (match Entries.get? bs key with
      | some b => same a b
      | none => false) && sameMembers as bs

end

/-- A value counts as on unless it is null, false, zero or empty. -/
def isOn : Json → Bool
  | .null => false
  | .bool value => value
  | .int value => value != 0
  | .float (.finite _ units) => units != 0
  | .float _ => true
  | .str text => !text.isEmpty
  | .arr items => !items.isEmpty
  | .obj members => !members.isEmpty

/-- Tells whether a value is made of other values. -/
def isContainer : Json → Bool
  | .arr _ | .obj _ => true
  | .null | .bool _ | .int _ | .float _ | .str _ => false

/-- The name of a value's kind in messages. -/
def kindName : Json → String
  | .null => "NoneType"
  | .bool _ => "bool"
  | .int _ => "int"
  | .float _ => "float"
  | .str _ => "str"
  | .arr _ => "list"
  | .obj _ => "dict"

/-- Writes pieces between brackets, separated by a comma and a space. -/
def bracketed (opening closing : String) (pieces : List String) : String :=
  opening ++ ", ".intercalate pieces ++ closing

mutual

/-- The form in which messages show a value: constants by name, texts in quotes. -/
def shown : Json → String
  | .null => "None"
  | .bool true => "True"
  | .bool false => "False"
  | .int value => toString value
  | .float value => value.text
  | .str text => Text.quote text
  | .arr items => bracketed "[" "]" (shownItems items)
  | .obj members => bracketed "\x7b" "\x7d" (shownMembers members)

/-- The items of a list as messages show them. -/
def shownItems : List Json → List String
  | [] => []
  | item :: rest => shown item :: shownItems rest

/-- The members of an object as messages show them. -/
def shownMembers : List (String × Json) → List String
  | [] => []
  | (key, value) :: rest => (Text.quote key ++ ": " ++ shown value) :: shownMembers rest

end

/-- The text that a value puts into other text: texts as they are, other values as shown. -/
def spelled : Json → String
  | .str text => text
  | value => shown value

/-- The texts that a value lists: the items of a list, the characters of a text and the keys of
an object; other values list nothing, which is an error and not an empty list. -/
def listed? : Json → Option (List Json)
  | .arr items => some items
  | .str text => some (text.toList.map fun c => .str (String.singleton c))
  | .obj members => some (members.map fun member => .str member.1)
  | .null | .bool _ | .int _ | .float _ => none

end Json

end SchemaForge
