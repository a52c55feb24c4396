import ContractHost.Json.Number
import ContractHost.Json.Text
import ContractHost.Number.Shortest

/-!
JSON values.

`Value.read?` reads any JSON text. It keeps the members of an object in the order of their keys, one
member for each key, the last of several. A text with a number that is worth nothing has no value.
`Value.render` is the compact text of a value.
-/

namespace ContractHost.Json

/-- A JSON value. -/
inductive Value where
  | null
  | bool (b : Bool)
  | number (n : Number)
  | string (s : String)
  | array (items : List Value)
  | object (members : List (String × Value))

/-- An integer. -/
@[match_pattern] abbrev Value.int (n : Int) : Value := .number (.int n)

/-! ## Reading -/

/-- Puts a member in its place among members in the order of their keys, instead of the one with
its key if there is one. -/
def insertMember (key : String) (item : Value) : List (String × Value) → List (String × Value)
  | [] => [(key, item)]
  | (k, v) :: rest =>
    if key < k then (key, item) :: (k, v) :: rest
    else if key = k then (key, item) :: rest
    else (k, v) :: insertMember key item rest

/-- The value of a tree whose arrays and objects are nested at most `depth` deep. -/
def Value.ofTree? : (depth : Nat) → Tree → Option Value
  | _, .null => some .null
  | _, .bool b => some (.bool b)
  | _, .number n => n.value?.map .number
  | _, .string ps => (text? ps).map .string
  | 0, .array _ => none
  | 0, .object _ => none
  | depth + 1, .array items => (items.mapM (ofTree? depth)).map .array
  | depth + 1, .object members => do
    let members ← members.mapM fun (key, item) => do
      return ((← text? key), (← ofTree? depth item))
    return .object (members.foldl (fun ms (key, item) => insertMember key item ms) [])

/-- How deep arrays and objects may be nested. -/
def Value.maxDepth : Nat := 127

/-- The value that a text spells. -/
def Value.read? (bs : Bytes) : Option Value := (Tree.read? bs).bind (ofTree? maxDepth)

/-! ## Looking inside -/

/-- The member of an object with a given key. -/
def Value.get? (key : String) : Value → Option Value
  | .object members => members.lookup key
  | _ => none

/-! ## Writing -/

/-- The text of a number. A floating-point number always has a point or an exponent. -/
def Number.render : Number → List Char
  | .int n => Decimal.integer n
  | .float true units => '-' :: Binary64.render units
  | .float false units => Binary64.render units

mutual

/-- The compact text of a value. -/
def Value.render : Value → List Char
  | .null => "null".toList
  | .bool true => "true".toList
  | .bool false => "false".toList
  | .number n => n.render
  | .string s => quoted s
  | .array items => '[' :: (renderItems items ++ [']'])
  | .object members => '\x7b' :: (renderMembers members ++ ['\x7d'])

/-- The texts of items with commas between them. -/
def Value.renderItems : List Value → List Char
  | [] => []
  | [item] => item.render
  | item :: items => item.render ++ ',' :: renderItems items

/-- The texts of members with commas between them. -/
def Value.renderMembers : List (String × Value) → List Char
  | [] => []
  | [(key, item)] => quoted key ++ ':' :: item.render
  | (key, item) :: members => quoted key ++ ':' :: (item.render ++ ',' :: renderMembers members)

end

/-- The compact text of a value as bytes. -/
def Value.bytes (v : Value) : Bytes := Utf8.encode v.render

end ContractHost.Json
