import ContractHost.Bytes
import ContractHost.Backend.Error
import ContractHost.Text.Utf8

/-!
Queries to the chain: a querier answers a serialized request under a gas limit.
-/

namespace ContractHost

/-- Answers a request under a gas limit. -/
abbrev Querier := Bytes → UInt64 → Except BackendError Bytes

namespace Querier

/-- Answers every request with itself. -/
def echo : Querier := fun request _ => .ok request

/-- Answers every request with the same bytes. -/
def fixed (response : Bytes) : Querier := fun _ _ => .ok response

/-- Answers with the length of the request in words. -/
def length : Querier := fun request _ =>
  let text := s!"{request.length} bytes"
  .ok (Utf8.encode text.toList)

/-- Answers with the gas limit in decimal. -/
def gasLimit : Querier := fun _ gas => .ok (Utf8.encode (toString gas).toList)

/-- Refuses every request. -/
def refusing (e : BackendError) : Querier := fun _ _ => .error e

end Querier

end ContractHost
