import ContractHost.Guest.Value

/-!
The functions that a host offers to its guests, with their names and types.
-/

namespace ContractHost

open Guest (ValueType Signature)

/-- A host function. -/
inductive HostFunction where
  | dbRead
  | dbWrite
  | dbRemove
  | dbScan
  | dbNext
  | addrHumanize
  | addrCanonicalize
  | addrValidate
  | secp256k1Verify
  | secp256k1RecoverPubkey
  | ed25519Verify
  | ed25519BatchVerify
  | debug
  | queryChain
  | abort
  deriving DecidableEq, Repr

namespace HostFunction

/-- The host functions in the order of the import table. -/
def all : List HostFunction :=
  [.dbRead, .dbWrite, .dbRemove, .dbScan, .dbNext, .addrHumanize, .addrCanonicalize, .addrValidate,
    .secp256k1Verify, .secp256k1RecoverPubkey, .ed25519Verify, .ed25519BatchVerify, .debug,
    .queryChain, .abort]

/-- The module under which host functions are imported. -/
def moduleName : String := "env"

/-- The name under which a host function is imported. -/
def name : HostFunction → String
  | .dbRead => "db_read"
  | .dbWrite => "db_write"
  | .dbRemove => "db_remove"
  | .dbScan => "db_scan"
  | .dbNext => "db_next"
  | .addrHumanize => "addr_humanize"
  | .addrCanonicalize => "addr_canonicalize"
  | .addrValidate => "addr_validate"
  | .secp256k1Verify => "secp256k1_verify"
  | .secp256k1RecoverPubkey => "secp256k1_recover_pubkey"
  | .ed25519Verify => "ed25519_verify"
  | .ed25519BatchVerify => "ed25519_batch_verify"
  | .debug => "debug"
  | .queryChain => "query_chain"
  | .abort => "abort"

/-- Words in, and one kind of result or none out. -/
def words (params : Nat) (results : List ValueType) : Signature :=
  ⟨List.replicate params .i32, results⟩

/-- The type of a host function. -/
def signature : HostFunction → Signature
  | .dbRead => words 1 [.i32]
  | .dbWrite => words 2 []
  | .dbRemove => words 1 []
  | .dbScan => words 3 [.i32]
  | .dbNext => words 1 [.i32]
  | .addrHumanize => words 2 [.i32]
  | .addrCanonicalize => words 2 [.i32]
  | .addrValidate => words 1 [.i32]
  | .secp256k1Verify => words 3 [.i32]
  | .secp256k1RecoverPubkey => words 3 [.i64]
  | .ed25519Verify => words 3 [.i32]
  | .ed25519BatchVerify => words 3 [.i32]
  | .debug => words 1 []
  | .queryChain => words 1 [.i32]
  | .abort => words 1 []

/-- The host function with a given name. -/
def ofName? (name : String) : Option HostFunction := all.find? fun f => f.name == name

end HostFunction

end ContractHost
