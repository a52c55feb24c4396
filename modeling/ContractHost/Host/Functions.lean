import ContractHost.Host.Checks
import ContractHost.Host.Database
import ContractHost.World

/-!
The host functions.

Each reads its arguments out of the guest's regions, in their order and before anything else, and
copies its answer into a region that the guest hands out. They are said of any access to the guest,
so nothing about its allocator is taken for granted. A pointer zero in an answer says that there is
nothing.
-/

namespace ContractHost.Service

open World (onHost observe)
open Guest (Value)

variable (g : Access World)

/-! ## Regions -/

/-- The bytes of the region behind a pointer. -/
def bytesAt (ptr : UInt32) : ServiceM Bytes := do g.read (← g.region ptr)

/-- The bytes of the region behind a pointer, none behind zero. -/
def bytesAt? (ptr : UInt32) : ServiceM (Option Bytes) := do
  match ← g.region? ptr with
  | none => return none
  | some r => return some (← g.read r)

/-- The text of the region behind a pointer. What is not UTF-8 is replaced, as messages are for
reading only. -/
def textAt (ptr : UInt32) : ServiceM String := do
  return String.ofList (Utf8.decodeLossy (← bytesAt g ptr))

/-- The pointer to a new region that holds the given bytes. -/
def answer (data : Bytes) : ServiceM UInt32 := return (← g.newBytes data).ptr

/-- Fills the region that the guest set aside for an answer. -/
def fill (ptr : UInt32) (data : Bytes) : ServiceM Unit := do
  let r ← g.region ptr
  discard <| g.write r data

/-! ## Storage -/

/-- The value of a key in a new region, or zero if it has none. -/
def dbRead (key : UInt32) : ServiceM UInt32 := do
  let key ← bytesAt g key
  match ← onHost (Database.read key) with
  | some value => answer g value
  | none => return 0

/-- Gives a key a value. -/
def dbWrite (key value : UInt32) : ServiceM Unit := do
  let key ← bytesAt g key
  let value ← bytesAt g value
  onHost (Database.write key value)

/-- Takes a key out. -/
def dbRemove (key : UInt32) : ServiceM Unit := do
  let key ← bytesAt g key
  onHost (Database.remove key)

/-- Opens an iterator over a range; a bound at the pointer zero is none. -/
def dbScan (start stop order : UInt32) : ServiceM UInt32 := do
  let start ← bytesAt? g start
  let stop ← bytesAt? g stop
  let name ← onHost (Database.scan start stop order.toInt32)
  answer g name

/-- Takes the next record of an iterator. -/
def dbNext (name : UInt32) : ServiceM UInt32 := do
  let name ← bytesAt g name
  let record ← onHost (Database.next name)
  answer g record

/-! ## Addresses -/

/-- Fills the destination with an answer. Input that the backend refuses is told in a new region
instead; any other failure ends the call. -/
def deliver (destination : UInt32) (result : Except HostFault Bytes) : ServiceM UInt32 :=
  match result with
  | .ok data => do
    fill g destination data
    return 0
  | .error (.backend (.user text)) => answer g (Utf8.encode text.toList)
  | .error e => throw e

/-- Writes the human-readable form of an address to the destination. -/
def addrHumanize (source destination : UInt32) : ServiceM UInt32 := do
  let source ← bytesAt g source
  let human ← observe (onHost (Addresses.humanize source))
  deliver g destination (human.map Utf8.encode)

/-- Writes the canonical form of an address to the destination. -/
def addrCanonicalize (source destination : UInt32) : ServiceM UInt32 := do
  let source ← bytesAt g source
  let canonical ← observe (onHost (Addresses.canonicalize source))
  deliver g destination canonical

/-- Checks that an address is normalized. -/
def addrValidate (source : UInt32) : ServiceM UInt32 := do
  let source ← bytesAt g source
  let hrp := (← get).host.backend.addresses.hrp
  onHost (Addresses.validate hrp source)
  return 0

/-! ## Signatures -/

/-- Checks an ECDSA signature. -/
def secp256k1Verify (digest signature key : UInt32) : ServiceM UInt32 := do
  let digest ← bytesAt g digest
  let signature ← bytesAt g signature
  let key ← bytesAt g key
  return Signatures.code (Secp256k1.verify digest signature key)

/-- The key that signed a digest, in a new region. -/
def secp256k1RecoverPubkey (digest signature param : UInt32) : ServiceM UInt64 := do
  let digest ← bytesAt g digest
  let signature ← bytesAt g signature
  let key ← onHost (Signatures.recover digest signature param)
  return (← answer g key).toUInt64

/-- Checks an Ed25519 signature. -/
def ed25519Verify (message signature key : UInt32) : ServiceM UInt32 := do
  let message ← bytesAt g message
  let signature ← bytesAt g signature
  let key ← bytesAt g key
  return Signatures.code (Ed25519.verify message signature key)

/-- Checks a packed batch of Ed25519 signatures. -/
def ed25519BatchVerify (messages signatures keys : UInt32) : ServiceM UInt32 := do
  let messages ← bytesAt g messages
  let signatures ← bytesAt g signatures
  let keys ← bytesAt g keys
  return Signatures.code (← onHost (Signatures.batchVerify messages signatures keys))

/-! ## Messages, queries, and the end of a call -/

/-- Logs a debug message, if the configuration asks for that. -/
def logDebug (text : String) : ServiceM Unit := do
  if (← get).host.config.debugToLog then World.note (.logged text)

/-- Keeps a debug message, and logs it before. -/
def debug (message : UInt32) : ServiceM Unit := do
  let text ← textAt g message
  logDebug text
  World.note (.debugged text)
  onHost <| modify fun h => { h with messages := h.messages ++ [text] }

/-- Passes a request on to the chain and answers its response. -/
def queryChain (request : UInt32) : ServiceM UInt32 := do
  let request ← bytesAt g request
  let host := (← get).host
  let response ← onHost (Host.ofBackend (host.backend.querier request host.config.queryGasLimit))
  answer g response

/-- Ends the call. -/
def abort (message : UInt32) : ServiceM Unit := do
  let text ← textAt g message
  World.note (.aborting text)
  throw (.aborted text)

/-! ## The table -/

/-- One word as the results of a function. -/
def one (x : ServiceM UInt32) : ServiceM (List Value) := return [.i32 (← x)]

/-- No results. -/
def nothing (x : ServiceM Unit) : ServiceM (List Value) := do
  x
  return []

/-- Runs a host function on arguments of its type. -/
def run : HostFunction → List Value → ServiceM (List Value)
  | .dbRead, [.i32 key] => one (dbRead g key)
  | .dbWrite, [.i32 key, .i32 value] => nothing (dbWrite g key value)
  | .dbRemove, [.i32 key] => nothing (dbRemove g key)
  | .dbScan, [.i32 start, .i32 stop, .i32 order] => one (dbScan g start stop order)
  | .dbNext, [.i32 name] => one (dbNext g name)
  | .addrHumanize, [.i32 source, .i32 destination] => one (addrHumanize g source destination)
  | .addrCanonicalize, [.i32 source, .i32 destination] =>
    one (addrCanonicalize g source destination)
  | .addrValidate, [.i32 source] => one (addrValidate g source)
  | .secp256k1Verify, [.i32 digest, .i32 signature, .i32 key] =>
    one (secp256k1Verify g digest signature key)
  | .secp256k1RecoverPubkey, [.i32 digest, .i32 signature, .i32 param] =>
    return [.i64 (← secp256k1RecoverPubkey g digest signature param)]
  | .ed25519Verify, [.i32 message, .i32 signature, .i32 key] =>
    one (ed25519Verify g message signature key)
  | .ed25519BatchVerify, [.i32 messages, .i32 signatures, .i32 keys] =>
    one (ed25519BatchVerify g messages signatures keys)
  | .debug, [.i32 message] => nothing (debug g message)
  | .queryChain, [.i32 request] => one (queryChain g request)
  | .abort, [.i32 message] => nothing (abort g message)
  | _, _ => throw (.memory .incompatibleExport)

/-- Runs a host function for the guest and keeps in the journal that it did. -/
def serve (f : HostFunction) (args : List Value) : ServiceM (List Value) := do
  World.note (.entered f)
  match ← observe (run g f args) with
  | .ok results =>
    World.note (.returned f)
    return results
  | .error e =>
    World.note (.failed f e)
    throw e

end ContractHost.Service
