import ContractHost.Crypto.Ed25519
import ContractHost.Sections

/-!
Batches of Ed25519 signatures.

A batch has a message, a signature and a key for each of its members; a lone message or a lone key
stands for all of them. The three lists may come packed into one byte string each.
-/

namespace ContractHost.Batch

/-- The three lists of a batch, of one length once they are aligned. -/
structure Lists where
  messages : List Bytes
  signatures : List Bytes
  keys : List Bytes
  deriving DecidableEq, Repr

/-- The lengths of three lists that make no batch. -/
structure Mismatch where
  messages : Nat
  signatures : Nat
  keys : Nat
  deriving DecidableEq, Repr

/-- The wording of a mismatch. -/
def Mismatch.message (_ : Mismatch) : String :=
  "Lengths of messages, signatures and public keys do not match."

/-- Repeats a lone message or a lone key, if that makes the three lists equally long. -/
def align (b : Lists) : Except Mismatch Lists :=
  let m := b.messages.length
  let s := b.signatures.length
  let k := b.keys.length
  if m = s ∧ m = k then .ok b
  else if m = 1 ∧ s = k then .ok { b with messages := List.replicate s (b.messages.headD []) }
  else if k = 1 ∧ m = s then .ok { b with keys := List.replicate m (b.keys.headD []) }
  else .error ⟨m, s, k⟩

/-- Is every signature of aligned lists good? -/
def Lists.allGood (b : Lists) : Bool :=
  ((b.messages.zip b.signatures).zip b.keys).all fun ((m, s), k) => Ed25519.verify m s k

/-- Why a batch cannot be checked. -/
inductive Fault where
  | sections (e : Sections.Malformed)
  | mismatch (e : Mismatch)
  deriving DecidableEq, Repr

/-- Unpacks one list of a batch. -/
def unpack (data : Bytes) : Except Fault (List Bytes) := (Sections.decode data).mapError .sections

/-- Is every signature of a packed batch good? The first list that cannot be unpacked is the one
complained about. -/
def verify (messages signatures keys : Bytes) : Except Fault Bool := do
  let messages ← unpack messages
  let signatures ← unpack signatures
  let keys ← unpack keys
  let batch ← (align ⟨messages, signatures, keys⟩).mapError .mismatch
  return batch.allGood

end ContractHost.Batch
