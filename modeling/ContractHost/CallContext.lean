import ContractHost.Json.Value

/-!
What a contract is told about the call it serves: the chain's block, the transaction, the contract
itself, the sender and the funds sent along. Each type has its JSON form, written by `toJson` and
read by `ofTree?`.

A record is read from an object, whose members may come in any order and among others, or from an
array of exactly its fields in order. A field may not come twice, and only the transaction may be
missing.
-/

namespace ContractHost

open Json (Tree Piece)

/-! ## Reading fields -/

namespace Json.Tree

/-- A string as a text. -/
def text? : Tree → Option String
  | .string ps => Json.text? ps
  | _ => none

/-- A number below `bound`, written as digits only. -/
def natural? (bound : Nat) : Tree → Option Nat
  | .number n =>
    if n.isWhole && !n.negative && magnitude n.whole < bound then some (magnitude n.whole) else none
  | _ => none

/-- Members with the texts of their keys. -/
def named? (members : List (List Piece × Tree)) : Option (List (String × Tree)) :=
  members.mapM fun (key, item) => (Json.text? key).map fun key => (key, item)

/-- The member with a given key: none, one, or a failure if there are several. -/
def only? (members : List (String × Tree)) (key : String) : Option (Option Tree) :=
  match members.filter fun m => m.1 == key with
  | [] => some none
  | [(_, item)] => some (some item)
  | _ => none

/-- The fields of a record in the order of their names, none for one that is missing. -/
def fields? (names : List String) : Tree → Option (List (Option Tree))
  | .object members => do
    let members ← named? members
    names.mapM (only? members)
  | .array items => if items.length = names.length then some (items.map some) else none
  | _ => none

/-- Reads a whole text as one value, as `read?` has it. -/
def readAs? {α : Type} (read? : Tree → Option α) (bs : Bytes) : Option α :=
  (Tree.read? bs).bind read?

/-- The items of an array, each read in the same way. -/
def list? {α : Type} (read? : Tree → Option α) : Tree → Option (List α)
  | .array items => items.mapM read?
  | _ => none

end Json.Tree

/-! ## Time -/

/-- Nanoseconds since the beginning of 1970. -/
structure Timestamp where
  nanos : UInt64
  deriving DecidableEq, Repr

namespace Timestamp

/-- The time of a number of seconds, or the last one that there is. -/
def ofSeconds (seconds : UInt64) : Timestamp :=
  ⟨UInt64.ofNat (min (seconds.toNat * 1000000000) (UInt64.size - 1))⟩

/-- A timestamp is written as a string of digits. -/
def toJson (t : Timestamp) : Json.Value := .string (String.ofList (Decimal.digits t.nanos.toNat))

/-- Reads a string of digits, which may start with a plus sign and with zeros. -/
def ofTree? (tree : Tree) : Option Timestamp := do
  let text ← tree.text?
  let nanos ← Decimal.read? UInt64.size text.toList
  return ⟨UInt64.ofNat nanos⟩

end Timestamp

/-! ## Funds -/

/-- An amount of some denomination. The amount is a decimal text, so that it may exceed what a JSON
number carries. -/
structure Coin where
  denom : String
  amount : String
  deriving DecidableEq, Repr

namespace Coin

/-- The coin of an amount. -/
def ofAmount (amount : Nat) (denom : String) : Coin :=
  ⟨denom, String.ofList (Decimal.digits amount)⟩

/-- The JSON form of a coin. -/
def toJson (c : Coin) : Json.Value :=
  .object [("denom", .string c.denom), ("amount", .string c.amount)]

/-- Reads the JSON form of a coin. -/
def ofTree? (tree : Tree) : Option Coin := do
  match ← tree.fields? ["denom", "amount"] with
  | [some denom, some amount] => return ⟨← denom.text?, ← amount.text?⟩
  | _ => none

end Coin

/-! ## The chain's side of a call -/

/-- The block that a call is part of. -/
structure BlockInfo where
  height : UInt64
  time : Timestamp
  chainId : String
  deriving DecidableEq, Repr

namespace BlockInfo

/-- The JSON form of a block. -/
def toJson (b : BlockInfo) : Json.Value :=
  .object
    [("height", .int b.height.toNat), ("time", b.time.toJson), ("chain_id", .string b.chainId)]

/-- Reads the JSON form of a block. -/
def ofTree? (tree : Tree) : Option BlockInfo := do
  match ← tree.fields? ["height", "time", "chain_id"] with
  | [some height, some time, some chainId] =>
    return ⟨UInt64.ofNat (← height.natural? UInt64.size), ← Timestamp.ofTree? time, ← chainId.text?⟩
  | _ => none

end BlockInfo

/-- The transaction that a call is part of. -/
structure TransactionInfo where
  /-- Its place in the block. -/
  index : UInt32
  deriving DecidableEq, Repr

namespace TransactionInfo

/-- The JSON form of a transaction. -/
def toJson (t : TransactionInfo) : Json.Value := .object [("index", .int t.index.toNat)]

/-- Reads the JSON form of a transaction. -/
def ofTree? (tree : Tree) : Option TransactionInfo := do
  match ← tree.fields? ["index"] with
  | [some index] => return ⟨UInt32.ofNat (← index.natural? UInt32.size)⟩
  | _ => none

end TransactionInfo

/-- The contract that is called. -/
structure ContractInfo where
  address : String
  deriving DecidableEq, Repr

namespace ContractInfo

/-- The JSON form of a contract. -/
def toJson (c : ContractInfo) : Json.Value := .object [("address", .string c.address)]

/-- Reads the JSON form of a contract. -/
def ofTree? (tree : Tree) : Option ContractInfo := do
  match ← tree.fields? ["address"] with
  | [some address] => return ⟨← address.text?⟩
  | _ => none

end ContractInfo

/-- The environment of a call. There is no transaction when the contract is asked outside of one. -/
structure Env where
  block : BlockInfo
  transaction : Option TransactionInfo := none
  contract : ContractInfo
  deriving DecidableEq, Repr

namespace Env

/-- A transaction that is not there is not written. -/
def toJson (e : Env) : Json.Value :=
  let transaction := match e.transaction with
    | some t => [("transaction", t.toJson)]
    | none => []
  .object (("block", e.block.toJson) :: transaction ++ [("contract", e.contract.toJson)])

/-- Reads a transaction, which may be missing or null. -/
def transaction? : Option Tree → Option (Option TransactionInfo)
  | none => some none
  | some .null => some none
  | some tree => (TransactionInfo.ofTree? tree).map some

/-- Reads the JSON form of an environment. -/
def ofTree? (tree : Tree) : Option Env := do
  match ← tree.fields? ["block", "transaction", "contract"] with
  | [some block, transaction, some contract] =>
    return ⟨← BlockInfo.ofTree? block, ← transaction? transaction, ← ContractInfo.ofTree? contract⟩
  | _ => none

end Env

/-- Who calls, and the funds sent along. -/
structure MessageInfo where
  sender : String
  funds : List Coin
  deriving DecidableEq, Repr

namespace MessageInfo

/-- The JSON form of a caller and funds. -/
def toJson (m : MessageInfo) : Json.Value :=
  .object [("sender", .string m.sender), ("funds", .array (m.funds.map Coin.toJson))]

/-- Reads the JSON form of a caller and funds. -/
def ofTree? (tree : Tree) : Option MessageInfo := do
  match ← tree.fields? ["sender", "funds"] with
  | [some sender, some funds] => return ⟨← sender.text?, ← funds.list? Coin.ofTree?⟩
  | _ => none

end MessageInfo

end ContractHost
