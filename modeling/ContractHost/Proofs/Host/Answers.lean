import ContractHost.Proofs.Guest.Services
import ContractHost.Proofs.Host.Access
import Mathlib.Logic.Unique

/-!
# What the answers of host functions tell a guest

An answer that is a pointer was handed out by the guest's own allocator and then loaded as a region,
so an answer that is zero never comes from the guest: it is the host's own word. To `dbRead` it says
that the key is not there, and to the two functions that map addresses that the destination is
filled; all other answers with data are never zero (`tells_of_run`). The allocator may do and answer
what it likes.

Both functions that map addresses hear the backend about a source that passed the check (`Replies`),
before anything is written (`run_addrHumanize`, `run_addrCanonicalize`).
-/

namespace ContractHost

open World (onHost observe)
open Guest (Memory Region Value)

/-! ## What the host finds out -/

namespace Host

variable {α : Type} {a : α} {h h' : Host}

/-- A check that is passed leaves the host as it is. -/
theorem run_ofCheck_eq_ok {result : Except ValidationFault α} :
    (ofCheck result).run h = .ok a h' ↔ result = .ok a ∧ h = h' := by
  cases result with
  | ok b =>
    rw [Except.ok.injEq]
    exact run_pure_eq_ok
  | error e => exact iff_of_false run_throw_ne_ok nofun

end Host

/-- What a storage answers of a key, its data has. -/
theorem Storage.eq_get?_of_get {s : Storage} {key : Bytes} {value : Option Bytes}
    {t : Storage} (h : (Storage.get key).run s = .ok value t) : s.store.get? key = value := by
  obtain ⟨e, hrun⟩ | hrun := s.run_unlessOut_cases Outages.get fun s => .ok (s.get? key) s
  · cases hrun.symm.trans h
  · cases hrun.symm.trans h
    rfl

/-- A key is looked up in the data that is there. -/
theorem Database.eq_get?_of_read {key : Bytes} {value : Option Bytes} {h h' : Host}
    (hread : (read key).run h = .ok value h') : h.store.get? key = value := by
  obtain ⟨_, _, hcheck, hread⟩ := run_bind_eq_ok hread
  obtain ⟨-, rfl⟩ := Host.run_ofCheck_eq_ok.mp hcheck
  obtain ⟨found, _, hfound, hread⟩ := run_bind_eq_ok hread
  have hvalue : found = value := by
    cases found with
    | none =>
      obtain ⟨_, _, -, hpure⟩ := run_bind_eq_ok hread
      exact (run_pure_eq_ok.mp hpure).1
    | some bs => exact (run_pure_eq_ok.mp hread).1
  rw [← hvalue]
  cases hget : (Storage.get key).run h.backend.storage with
  | error e s =>
    rw [Host.run_onStorage_of_error hget] at hfound
    cases hfound
  | ok value s =>
    rw [Host.run_onStorage_of_ok hget] at hfound
    cases hfound
    exact Storage.eq_get?_of_get hget

/-- The failure of an operation of the host is observed with all that it did. -/
theorem run_observe_onHost {α : Type} (x : HostM α) (w : World) :
    (observe (onHost x) : ServiceM _).run w = match x.run w.host with
      | .ok a host => .ok (.ok a) { w with host }
      | .error e host => .ok (.error e) { w with host } := by
  simp only [EStateM.run, observe, onHost]
  cases x w.host with
  | ok a host => rfl
  | error e host => rfl

namespace Addresses

variable {α β : Type}

/-- What a check says of an address, and then the backend. -/
def checked (check : Except Address.Fault α) (ask : α → Except BackendError β) :
    Except HostFault β :=
  match check with
  | .error e => .error (.validation (.address e))
  | .ok a =>
    match ask a with
    | .error e => .error (.backend e)
    | .ok b => .ok b

variable {check : Except Address.Fault α} {ask : α → Except BackendError β} {b : β}
  {e : BackendError}

/-- What is checked first is asked only if the check is passed. -/
theorem checked_eq_ok : checked check ask = .ok b ↔ ∃ a, check = .ok a ∧ ask a = .ok b := by
  cases check with
  | error e => simp only [checked, reduceCtorEq, false_and, exists_false]
  | ok a =>
    simp only [checked, Except.ok.injEq, exists_eq_left']
    cases ask a with
    | error e => simp only [reduceCtorEq]
    | ok b' => simp only [Except.ok.injEq]

/-- The backend is heard of only if an address passed its check. -/
theorem checked_eq_backend : checked check ask = .error (.backend e) ↔
    ∃ a, check = .ok a ∧ ask a = .error e := by
  cases check with
  | error e => simp only [checked, Except.error.injEq, reduceCtorEq, false_and, exists_false]
  | ok a =>
    simp only [checked, Except.ok.injEq, exists_eq_left']
    cases ask a with
    | error e' => simp only [Except.error.injEq, HostFault.backend.injEq]
    | ok b' => simp only [reduceCtorEq]

theorem map_checked {γ : Type} (f : β → γ) :
    (checked check ask).map f = checked check fun a => (ask a).map f := by
  cases check with
  | error e => rfl
  | ok a =>
    simp only [checked]
    cases ask a with
    | error e => rfl
    | ok b => rfl

/-- A host that has an address checked and mapped stays as it is. -/
theorem run_observe_checked (check : Except Address.Fault α)
    (ask : Host → α → Except BackendError β) (w : World) :
    (observe (onHost (ofCheck check >>= fun a => get >>= fun h =>
        Host.ofBackend (ask h a))) : ServiceM _).run w = .ok (checked check (ask w.host)) w := by
  rw [run_observe_onHost]
  cases check with
  | error e => rfl
  | ok a =>
    have hrun : (ofCheck (.ok a) >>= fun a => get >>= fun h => Host.ofBackend (ask h a)).run
        w.host = (Host.ofBackend (ask w.host a)).run w.host := rfl
    rw [hrun, checked]
    cases ask w.host a with
    | ok b => rfl
    | error e => rfl

end Addresses

namespace Service

variable {g : Access World} {w u : World}

/-! ## Storage and queries -/

/-- The answer of `dbRead` is zero exactly if the key is not there when it is looked up. An empty
value is there. -/
theorem zero_iff_of_dbRead {key p : UInt32} (h : (dbRead g key).run w = .ok p u) :
    ∃ k, (bytesAt g key).run w = .ok k w ∧ (p = 0 ↔ w.host.store.get? k = none) := by
  obtain ⟨k, v, hkey, hrun⟩ := run_bind_eq_ok h
  obtain rfl := (Guest.reads_bytesAt key).of_ok hkey
  obtain ⟨value, v, hread, hrun⟩ := run_bind_eq_ok hrun
  obtain ⟨h, hread, -⟩ := Guest.run_onHost_eq_ok.mp hread
  refine ⟨k, hkey, ?_⟩
  -- what was found decides which of the two answers it is
  rw [Database.eq_get?_of_read hread]
  cases value with
  | none =>
    cases hrun
    exact iff_of_true rfl rfl
  | some bs => exact iff_of_false (ne_zero_of_answer hrun) nofun

/-- An iterator is never answered by the pointer zero, which would say that there is none. -/
theorem ne_zero_of_dbScan {start stop order p : UInt32}
    (h : (dbScan g start stop order).run w = .ok p u) : p ≠ 0 := by
  obtain ⟨_, _, -, h⟩ := run_bind_eq_ok h
  obtain ⟨_, _, -, h⟩ := run_bind_eq_ok h
  obtain ⟨_, _, -, hanswer⟩ := run_bind_eq_ok h
  exact ne_zero_of_answer hanswer

theorem ne_zero_of_dbNext {name p : UInt32} (h : (dbNext g name).run w = .ok p u) : p ≠ 0 := by
  obtain ⟨_, _, -, h⟩ := run_bind_eq_ok h
  obtain ⟨_, _, -, hanswer⟩ := run_bind_eq_ok h
  exact ne_zero_of_answer hanswer

theorem ne_zero_of_queryChain {request p : UInt32}
    (h : (queryChain g request).run w = .ok p u) : p ≠ 0 := by
  obtain ⟨_, _, -, h⟩ := run_bind_eq_ok h
  obtain ⟨_, _, -, h⟩ := run_bind_eq_ok h
  obtain ⟨_, _, -, hanswer⟩ := run_bind_eq_ok h
  exact ne_zero_of_answer hanswer

/-- The key that signed is answered as a pointer, in the low half of a word of 64 bits. -/
theorem pointer_of_secp256k1RecoverPubkey {digest signature param : UInt32} {q : UInt64}
    (h : (secp256k1RecoverPubkey g digest signature param).run w = .ok q u) :
    ∃ p : UInt32, p ≠ 0 ∧ q = p.toUInt64 := by
  obtain ⟨_, _, -, h⟩ := run_bind_eq_ok h
  obtain ⟨_, _, -, h⟩ := run_bind_eq_ok h
  obtain ⟨_, _, -, h⟩ := run_bind_eq_ok h
  obtain ⟨p, _, hanswer, hpure⟩ := run_bind_eq_ok h
  cases hpure
  exact ⟨p, ne_zero_of_answer hanswer, rfl⟩

/-! ## Addresses -/

/-- What a backend replies to a host function that maps addresses, about a source that passed the
check. -/
def Replies (api : AddressApi) : HostFunction → Bytes → Except BackendError Bytes → Prop
  | .addrHumanize, s, reply =>
    Address.checkCanonical s = .ok () ∧ (api.human s).map Utf8.encode = reply
  | .addrCanonicalize, s, reply =>
    ∃ human, Address.humanText s = .ok human ∧ api.canonical human = reply
  | _, _, _ => False

/-- A backend has one reply. -/
theorem Replies.unique {api : AddressApi} {f : HostFunction} {s : Bytes}
    {reply reply' : Except BackendError Bytes} (h : Replies api f s reply)
    (h' : Replies api f s reply') : reply = reply' := by
  unfold Replies at h h'
  split at h
  · exact h.2.symm.trans h'.2
  · obtain ⟨human, hhuman, hreply⟩ := h
    obtain ⟨human', hhuman', hreply'⟩ := h'
    cases hhuman.symm.trans hhuman'
    exact hreply.symm.trans hreply'
  · exact h.elim

/-- What comes of a source before the destination is looked at. -/
def converted (api : AddressApi) : HostFunction → Bytes → Except HostFault Bytes
  | .addrHumanize, s =>
    Addresses.checked (Address.checkCanonical s) fun _ => (api.human s).map Utf8.encode
  | .addrCanonicalize, s => Addresses.checked (Address.humanText s) api.canonical
  | _, _ => .error (.memory .incompatibleExport)

section
variable {api : AddressApi} {f : HostFunction} {s : Bytes}
  (hf : f = .addrHumanize ∨ f = .addrCanonicalize)
include hf

/-- Both directions answer what the table of replies says. -/
theorem converted_eq_ok {data : Bytes} :
    converted api f s = .ok data ↔ Replies api f s (.ok data) := by
  rcases hf with rfl | rfl
  · exact Addresses.checked_eq_ok.trans Unique.exists_iff
  · exact Addresses.checked_eq_ok

/-- An error of the backend is the backend's reply; what the check refuses is none. -/
theorem converted_eq_backend {e : BackendError} :
    converted api f s = .error (.backend e) ↔ Replies api f s (.error e) := by
  rcases hf with rfl | rfl
  · exact Addresses.checked_eq_backend.trans Unique.exists_iff
  · exact Addresses.checked_eq_backend

end

/-- The region behind a pointer was filled with bytes, and nothing else was done. -/
def Filled (g : Access World) (ptr : UInt32) (data : Bytes) (w u : World) : Prop :=
  ∃ m r m', g.memory w = .ok m ∧ Region.load m ptr = .ok r ∧ r.Filled m data m' ∧
    g.setMemory m' w = u

/-- A region that was filled holds what it was filled with. -/
theorem filled_of_fill {ptr : UInt32} {data : Bytes} (h : (fill g ptr data).run w = .ok () u) :
    Filled g ptr data w u := by
  obtain ⟨m, r, r', ⟨hm, hload⟩, hwrite⟩ := run_fill_eq_ok.mp h
  obtain ⟨m₁, m', hm₁, hrun, hu⟩ := Access.run_write_eq_ok.mp hwrite
  rw [hm] at hm₁
  cases hm₁
  exact ⟨m, r, m', hm, hload, Region.filled_of_write hrun, hu⟩

/-- What is delivered is in the destination, or it is the backend's refusal. -/
theorem deliver_cases {destination p : UInt32} {result : Except HostFault Bytes}
    (h : (deliver g destination result).run w = .ok p u) :
    (p = 0 ∧ ∃ data, result = .ok data ∧ Filled g destination data w u) ∨
    (p ≠ 0 ∧ ∃ text, result = .error (.backend (.user text)) ∧
      (answer g (Utf8.encode text.toList)).run w = .ok p u) := by
  unfold deliver at h
  split at h
  · rename_i data
    obtain ⟨_, _, hfill, hpure⟩ := run_bind_eq_ok h
    cases hpure
    exact .inl ⟨rfl, data, rfl, filled_of_fill hfill⟩
  · rename_i text
    exact .inr ⟨ne_zero_of_answer h, text, rfl, h⟩
  · exact absurd h run_throw_ne_ok

section
variable {source destination : UInt32}

/-- Converting an address is reading it and delivering what the backend makes of it. -/
theorem run_addrHumanize : (addrHumanize g source destination).run w =
    (bytesAt g source >>= fun s =>
      deliver g destination (converted w.host.backend.addresses .addrHumanize s)).run w := by
  show (bytesAt g source >>= fun s => observe (onHost (Addresses.humanize s)) >>= fun human =>
    deliver g destination (human.map Utf8.encode)).run w = _
  rw [EStateM.run_bind, EStateM.run_bind]
  cases hs : (bytesAt g source).run w with
  | error e u => rfl
  | ok s u =>
    obtain rfl := (Guest.reads_bytesAt source).of_ok hs
    dsimp only
    rw [converted, ← Addresses.map_checked]
    exact run_bind_of_ok (Addresses.run_observe_checked (Address.checkCanonical s)
      (fun h _ => h.backend.addresses.human s) w)

/-- The other direction is the same with another table. -/
theorem run_addrCanonicalize : (addrCanonicalize g source destination).run w =
    (bytesAt g source >>= fun s =>
      deliver g destination (converted w.host.backend.addresses .addrCanonicalize s)).run w := by
  show (bytesAt g source >>= fun s => observe (onHost (Addresses.canonicalize s)) >>= fun result =>
    deliver g destination result).run w = _
  rw [EStateM.run_bind, EStateM.run_bind]
  cases hs : (bytesAt g source).run w with
  | error e u => rfl
  | ok s u =>
    obtain rfl := (Guest.reads_bytesAt source).of_ok hs
    exact run_bind_of_ok (Addresses.run_observe_checked (Address.humanText s)
      (fun h human => h.backend.addresses.canonical human) w)

/-- The answer of `addrHumanize` is zero only if the backend has a form of the address, which is in
the destination, and otherwise leads to the backend's refusal. -/
theorem tells_of_addrHumanize {p : UInt32}
    (h : (addrHumanize g source destination).run w = .ok p u) :
    ∃ s, (bytesAt g source).run w = .ok s w ∧
      (p = 0 → ∃ human, w.host.backend.addresses.human s = .ok human ∧
        Filled g destination (Utf8.encode human) w u) ∧
      (p ≠ 0 → ∃ text, w.host.backend.addresses.human s = .error (.user text) ∧
        (answer g (Utf8.encode text.toList)).run w = .ok p u) := by
  rw [run_addrHumanize] at h
  obtain ⟨s, v, hsource, hdeliver⟩ := run_bind_eq_ok h
  obtain rfl := (Guest.reads_bytesAt source).of_ok hsource
  refine ⟨s, hsource, ?_⟩
  -- zero is answered for a destination that was filled, and is no pointer to a message
  obtain ⟨rfl, data, hdata, hfilled⟩ | ⟨hp, text, htext, hanswer⟩ := deliver_cases hdeliver
  · obtain ⟨-, hreply⟩ := (converted_eq_ok (.inl rfl)).mp hdata
    refine ⟨fun _ => ?_, fun h => absurd rfl h⟩
    cases hhuman : w.host.backend.addresses.human s with
    | error e =>
      rw [hhuman] at hreply
      cases hreply
    | ok human =>
      rw [hhuman] at hreply
      cases hreply
      exact ⟨human, rfl, hfilled⟩
  · obtain ⟨-, hreply⟩ := (converted_eq_backend (.inl rfl)).mp htext
    refine ⟨fun h => absurd h hp, fun _ => ?_⟩
    cases hhuman : w.host.backend.addresses.human s with
    | error e =>
      rw [hhuman] at hreply
      cases hreply
      exact ⟨text, rfl, hanswer⟩
    | ok human =>
      rw [hhuman] at hreply
      cases hreply

/-- The answer of `addrCanonicalize` tells of the other direction in the same way. -/
theorem tells_of_addrCanonicalize {p : UInt32}
    (h : (addrCanonicalize g source destination).run w = .ok p u) :
    ∃ s human, (bytesAt g source).run w = .ok s w ∧ Address.humanText s = .ok human ∧
      (p = 0 → ∃ canonical, w.host.backend.addresses.canonical human = .ok canonical ∧
        Filled g destination canonical w u) ∧
      (p ≠ 0 → ∃ text, w.host.backend.addresses.canonical human = .error (.user text) ∧
        (answer g (Utf8.encode text.toList)).run w = .ok p u) := by
  rw [run_addrCanonicalize] at h
  obtain ⟨s, v, hsource, hdeliver⟩ := run_bind_eq_ok h
  obtain rfl := (Guest.reads_bytesAt source).of_ok hsource
  obtain ⟨rfl, data, hdata, hfilled⟩ | ⟨hp, text, htext, hanswer⟩ := deliver_cases hdeliver
  · obtain ⟨human, hhuman, hreply⟩ := (converted_eq_ok (.inr rfl)).mp hdata
    exact ⟨s, human, hsource, hhuman, fun _ => ⟨data, hreply, hfilled⟩, fun h => absurd rfl h⟩
  · obtain ⟨human, hhuman, hreply⟩ := (converted_eq_backend (.inr rfl)).mp htext
    exact ⟨s, human, hsource, hhuman, fun h => absurd h hp, fun _ => ⟨text, hreply, hanswer⟩⟩

end

/-! ## All answers -/

/-- What the results of a host function tell of the world in which it began, and of what it did. -/
def Tells (g : Access World) (args results : List Value) (w u : World) : HostFunction → Prop
  | .dbRead => ∃ key p k, args = [.i32 key] ∧ results = [.i32 p] ∧
      (bytesAt g key).run w = .ok k w ∧ (p = 0 ↔ w.host.store.get? k = none)
  | .dbScan | .dbNext | .queryChain => ∃ p, results = [.i32 p] ∧ p ≠ 0
  | .secp256k1RecoverPubkey => ∃ q, results = [.i64 q] ∧ q ≠ 0 ∧ q.toNat < UInt32.size
  | .addrHumanize => ∃ source destination p s, args = [.i32 source, .i32 destination] ∧
      results = [.i32 p] ∧ (bytesAt g source).run w = .ok s w ∧
      (p = 0 → ∃ human, w.host.backend.addresses.human s = .ok human ∧
        Filled g destination (Utf8.encode human) w u) ∧
      (p ≠ 0 → ∃ text, w.host.backend.addresses.human s = .error (.user text) ∧
        (answer g (Utf8.encode text.toList)).run w = .ok p u)
  | .addrCanonicalize => ∃ source destination p s human,
      args = [.i32 source, .i32 destination] ∧ results = [.i32 p] ∧
      (bytesAt g source).run w = .ok s w ∧ Address.humanText s = .ok human ∧
      (p = 0 → ∃ canonical, w.host.backend.addresses.canonical human = .ok canonical ∧
        Filled g destination canonical w u) ∧
      (p ≠ 0 → ∃ text, w.host.backend.addresses.canonical human = .error (.user text) ∧
        (answer g (Utf8.encode text.toList)).run w = .ok p u)
  | _ => True

/-- The results of every host function that succeeds tell what they are said to, whatever the guest
has in its memory and whatever pointers its allocator answers. -/
theorem tells_of_run {f : HostFunction} {args results : List Value}
    (h : (run g f args).run w = .ok results u) : Tells g args results w u f := by
  unfold run at h
  split at h
  case h_1 key =>
    obtain ⟨p, hresults, hrun⟩ := run_one_eq_ok.mp h
    obtain ⟨k, hkey, hzero⟩ := zero_iff_of_dbRead hrun
    exact ⟨key, p, k, rfl, hresults, hkey, hzero⟩
  case h_4 =>
    obtain ⟨p, hresults, hrun⟩ := run_one_eq_ok.mp h
    exact ⟨p, hresults, ne_zero_of_dbScan hrun⟩
  case h_5 =>
    obtain ⟨p, hresults, hrun⟩ := run_one_eq_ok.mp h
    exact ⟨p, hresults, ne_zero_of_dbNext hrun⟩
  case h_6 source destination =>
    obtain ⟨p, hresults, hrun⟩ := run_one_eq_ok.mp h
    obtain ⟨s, hsource, htells⟩ := tells_of_addrHumanize hrun
    exact ⟨source, destination, p, s, rfl, hresults, hsource, htells⟩
  case h_7 source destination =>
    obtain ⟨p, hresults, hrun⟩ := run_one_eq_ok.mp h
    obtain ⟨s, human, hsource, hhuman, htells⟩ := tells_of_addrCanonicalize hrun
    exact ⟨source, destination, p, s, human, rfl, hresults, hsource, hhuman, htells⟩
  case h_10 =>
    obtain ⟨q, _, hrun, hpure⟩ := run_bind_eq_ok h
    cases hpure
    obtain ⟨p, hp, rfl⟩ := pointer_of_secp256k1RecoverPubkey hrun
    refine ⟨p.toUInt64, rfl, ?_, ?_⟩
    · -- widening a pointer loses nothing of it
      intro hzero
      apply hp
      rw [← UInt32.toUInt32_toUInt64 p, hzero]
      rfl
    · rw [UInt32.toNat_toUInt64]
      exact p.toNat_lt_size
  case h_14 =>
    obtain ⟨p, hresults, hrun⟩ := run_one_eq_ok.mp h
    exact ⟨p, hresults, ne_zero_of_queryChain hrun⟩
  case h_16 => exact absurd h run_throw_ne_ok
  all_goals exact trivial

/-- A guest with the key `k` in the region at 16, and whose allocator answers 64 whatever it is
asked for. -/
def stubborn : Access World where
  memory w := .ok w.guest.memory
  setMemory := World.setMemory
  allocate _ := pure 64
  deallocate _ := pure ()

/-- The memory of such a guest. -/
def stubbornMemory : Memory where
  pages := 1
  addressable := Guest.addressable_one
  written :=
    Memory.put 16 (Region.descriptor { ptr := 16, offset := 32, capacity := 1, length := 1 }) <|
    Memory.put 32 [107] <|
    Memory.put 64 (Region.descriptor { ptr := 64, offset := 96 }) ∅

/-- The world of such a guest over a store. -/
def stubbornWorld (store : Store) : World where
  host := { backend := { storage := { store } } }
  guest := { memory := stubbornMemory, globals := [], meter := { points := 0 } }

/-- A key that is not there is told by zero, and an empty value by the pointer to its region. -/
theorem tells_of_absent_and_empty :
    (∃ u, (run stubborn .dbRead [.i32 16]).run (stubbornWorld .empty) = .ok [.i32 0] u ∧
      Tells stubborn [.i32 16] [.i32 0] (stubbornWorld .empty) u .dbRead) ∧
    (∃ u, (run stubborn .dbRead [.i32 16]).run (stubbornWorld (Store.empty.insert [107] [])) =
        .ok [.i32 64] u ∧
      Tells stubborn [.i32 16] [.i32 64] (stubbornWorld (Store.empty.insert [107] [])) u
        .dbRead) := by
  have hanswers :
      answered? ((run stubborn .dbRead [.i32 16]).run (stubbornWorld .empty)) = some [.i32 0] ∧
      answered? ((run stubborn .dbRead [.i32 16]).run
        (stubbornWorld (Store.empty.insert [107] []))) = some [.i32 64] := by decide +kernel
  obtain ⟨habsent, hempty⟩ := hanswers
  have habsent := eq_ok_of_answered? habsent
  have hempty := eq_ok_of_answered? hempty
  exact ⟨⟨_, habsent, tells_of_run habsent⟩, _, hempty, tells_of_run hempty⟩

end Service

end ContractHost
