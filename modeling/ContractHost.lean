import ContractHost.Guest.Blueprint
import ContractHost.Proofs.Sections
import ContractHost.Proofs.Sections.Malformed
import ContractHost.Proofs.Batch
import ContractHost.Proofs.Address
import ContractHost.Proofs.Store.Snapshot
import ContractHost.Proofs.Database.Drain
import ContractHost.Proofs.Database.LastWrite
import ContractHost.Proofs.Vm.Lifecycle
import ContractHost.Proofs.Bech32.Reading
import ContractHost.Proofs.Canonical
import ContractHost.Proofs.Guest.Runs
import ContractHost.Proofs.Guest.Services
import ContractHost.Proofs.Vm.Entry
import ContractHost.Proofs.Vm.Persistence
import ContractHost.Proofs.Guest.Unwinding
import ContractHost.Proofs.Vm.Faults
import ContractHost.Proofs.Guest.Metering
import ContractHost.Proofs.Vm.Budget
import ContractHost.Proofs.Vm.Exhaustion
import ContractHost.Proofs.Guest.Tolls
import ContractHost.Proofs.Vm.Leftovers
import ContractHost.Proofs.Host.Answers
import ContractHost.Proofs.Guest.Aftermath
import ContractHost.Proofs.Vm.Arguments
import ContractHost.Proofs.Vm.Context
import ContractHost.Proofs.Vm.Messages
import ContractHost.Proofs.Host.Regions
import ContractHost.Proofs.Host.Allocation
import ContractHost.Proofs.Host.Conversion
import ContractHost.Proofs.Secp256k1.Addition
import ContractHost.Proofs.Secp256k1.Primes
import ContractHost.Proofs.Secp256k1.Group
import ContractHost.Proofs.Secp256k1.Recovery
import ContractHost.Proofs.Vm.Shortage
import ContractHost.Proofs.Json.Strings
import ContractHost.Proofs.Timestamp
import ContractHost.Proofs.Guest.Muted
