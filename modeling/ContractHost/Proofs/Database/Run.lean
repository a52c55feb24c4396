import ContractHost.Host.Database
import ContractHost.Proofs.Store.Trace

/-!
# Runs of the database operations

A database operation checks what it is given and then asks the store for one thing at most, which is
its `effect`. So a run of database operations leaves the store where the run of their effects does
(`store_run`), and what holds of every run of a store holds here too.

All of this is about a host whose storage is in order: `InOrder`.
-/

namespace ContractHost

namespace Host

/-- The store that a host works on. -/
def store (h : Host) : Store := h.backend.storage.store

/-- No operation of the storage is out of order. -/
def InOrder (h : Host) : Prop := h.backend.storage.outages = {}

/-- Puts another store in the place of the host's. -/
def setStore (h : Host) (s : Store) : Host :=
  { h with backend := { h.backend with storage := { h.backend.storage with store := s } } }

variable {h : Host}

@[simp] theorem store_setStore (s : Store) : (h.setStore s).store = s := rfl

/-- What the store is asked for is done if nothing is out of order, and the host goes on with the
store that it leaves. -/
theorem run_onStorage {h : Host} {α : Type} (outage : Outages → Option BackendError)
    (hs : h.InOrder) (hout : outage {} = none) (x : StoreM α) :
    (onStorage (Storage.unlessOut outage x)).run h =
      match x.run h.store with
      | .ok a s => .ok a (h.setStore s)
      | .error e s => .error (.backend e) (h.setStore s) := by
  have hout : outage h.backend.storage.outages = none := by rw [hs, hout]
  simp only [EStateM.run, onStorage, Storage.unlessOut, hout, store]
  cases x h.backend.storage.store with
  | ok a s => rfl
  | error e s => rfl

end Host

namespace Database

/-! ## What each operation does -/

section
variable {h : Host} (hs : h.InOrder)
include hs

/-- A key within its bound has the value that the store has for it. -/
theorem run_read {key : Bytes} (hkey : key.length ≤ Limits.key) :
    ∃ h', (read key).run h = .ok (h.store.get? key) h' := by
  have hcheck : checkKey key = .ok () := if_neg (Nat.not_lt.mpr hkey)
  have hget : (Host.onStorage (Storage.get key)).run h = .ok (h.store.get? key) h :=
    Host.run_onStorage _ hs rfl _
  simp only [read, EStateM.run_bind, hcheck, Host.run_ofCheck_ok, hget]
  cases h.store.get? key with
  | none => exact ⟨h.noting (.keyNotFound key), rfl⟩
  | some value => exact ⟨h, rfl⟩

/-- A value that is too long is refused first, then a key; neither reaches the store. -/
theorem run_write (key value : Bytes) :
    (write key value).run h =
      if Limits.value < value.length then .error (.validation (.valueTooLong value.length)) h
      else if Limits.key < key.length then .error (.validation (.keyTooLong key.length)) h
      else .ok () ((h.setStore (h.store.insert key value)).noting (.wrote key value)) := by
  -- both checks fail for a key and a value that are too long, and the value's comes first
  by_cases hv : Limits.value < value.length
  · simp [write, checkValue, hv]
  · by_cases hk : Limits.key < key.length
    · simp [write, checkValue, checkKey, hv, hk]
    · have hset : (Host.onStorage (Storage.set key value)).run h =
          .ok () (h.setStore (h.store.insert key value)) := Host.run_onStorage _ hs rfl _
      simp [write, checkValue, checkKey, hv, hk, hset]

theorem run_remove (key : Bytes) :
    (remove key).run h = .ok () ((h.setStore (h.store.erase key)).noting (.removed key)) := by
  have hremove : (Host.onStorage (Storage.remove key)).run h =
      .ok () (h.setStore (h.store.erase key)) := Host.run_onStorage _ hs rfl _
  simp [remove, hremove]

/-- A number that stands for no order is refused before the store is asked. -/
theorem run_scan (start stop : Option Bytes) (code : Int32) :
    (scan start stop code).run h =
      match Order.ofCode code with
      | .error e => .error (.validation (.order e)) h
      | .ok order =>
        match (Store.scan start stop order).run h.store with
        | .error e s => .error (.backend e) (h.setStore s)
        | .ok name s => .ok name (h.setStore s) := by
  cases hcode : Order.ofCode code with
  | error e =>
    rw [scan, hcode]
    rfl
  | ok order =>
    -- a number that stands for an order passes the check, and the store is in order
    have horder : Host.ofCheck ((Order.ofCode code).mapError .order) = pure order := by
      rw [hcode]
      rfl
    have hscan := Host.run_onStorage Outages.scan hs rfl (Store.scan start stop order)
    rw [scan, horder, pure_bind, Storage.scan, hscan]
    dsimp only
    cases (Store.scan start stop order).run h.store with
    | error e s => rfl
    | ok name s => rfl

theorem run_next (name : Bytes) :
    (next name).run h =
      match (Store.next name).run h.store with
      | .error e s => .error (.backend e) (h.setStore s)
      | .ok (some r) s => .ok (encodeRecord r) (h.setStore s)
      | .ok none s => .ok exhaustedRecord ((h.setStore s).noting (.iteratorExhausted name)) := by
  have hnext := Host.run_onStorage Outages.next hs rfl (Store.next name)
  rw [next, EStateM.run_bind, Storage.next, hnext]
  cases (Store.next name).run h.store with
  | error e s => rfl
  | ok record s =>
    cases record with
    | some r => rfl
    | none => rfl

end

/-! ## Runs -/

/-- A database operation that may change the store. -/
inductive Op where
  | write (key value : Bytes)
  | remove (key : Bytes)
  | scan (start stop : Option Bytes) (code : Int32)
  | next (name : Bytes)
  deriving DecidableEq, Repr

/-- The host that an operation leaves behind, whether it failed or not. -/
def leaves {α : Type} : EStateM.Result HostFault Host α → Host
  | .ok _ h => h
  | .error _ h => h

/-- The host after an operation. -/
def after (h : Host) : Op → Host
  | .write key value => leaves ((write key value).run h)
  | .remove key => leaves ((remove key).run h)
  | .scan start stop code => leaves ((scan start stop code).run h)
  | .next name => leaves ((next name).run h)

/-- The host after a run. -/
def run (h : Host) : List Op → Host
  | [] => h
  | op :: ops => run (after h op) ops

/-- What an operation asks of the store: nothing if it is refused before. -/
def Op.effect : Op → List Store.Op
  | .write key value =>
    if value.length ≤ Limits.value ∧ key.length ≤ Limits.key then [.insert key value] else []
  | .remove key => [.erase key]
  | .scan start stop code =>
    match Order.ofCode code with
    | .ok order => [.scan start stop order]
    | .error _ => []
  | .next name => [.next name]

/-- An operation changes the store as its effect does, and leaves the storage in order. -/
theorem after_spec {h : Host} (hs : h.InOrder) (op : Op) :
    (after h op).store = h.store.run op.effect ∧ (after h op).InOrder := by
  cases op with
  | write key value =>
    rw [after, run_write hs, Op.effect]
    by_cases hv : Limits.value < value.length
    · rw [if_pos hv, if_neg (by omega)]
      exact ⟨rfl, hs⟩
    · by_cases hk : Limits.key < key.length
      · rw [if_neg hv, if_pos hk, if_neg (by omega)]
        exact ⟨rfl, hs⟩
      · rw [if_neg hv, if_neg hk, if_pos ⟨by omega, by omega⟩]
        exact ⟨rfl, hs⟩
  | remove key =>
    rw [after, run_remove hs]
    exact ⟨rfl, hs⟩
  | scan start stop code =>
    rw [after, run_scan hs, Op.effect]
    cases Order.ofCode code with
    | error e => exact ⟨rfl, hs⟩
    | ok order =>
      -- a scan that is refused for want of numbers is still one of the effects
      simp only [Store.run, Store.step]
      cases (Store.scan start stop order).run h.store with
      | error e s => exact ⟨rfl, hs⟩
      | ok name s => exact ⟨rfl, hs⟩
  | next name =>
    rw [after, run_next hs]
    simp only [Op.effect, Store.run, Store.step]
    cases (Store.next name).run h.store with
    | error e s => exact ⟨rfl, hs⟩
    | ok record s =>
      cases record with
      | none => exact ⟨rfl, hs⟩
      | some r => exact ⟨rfl, hs⟩

theorem inOrder_run {h : Host} (hs : h.InOrder) (ops : List Op) : (run h ops).InOrder := by
  induction ops generalizing h with
  | nil => exact hs
  | cons op ops ih => exact ih (after_spec hs op).2

/-- A run changes the store as the run of its effects does. -/
theorem store_run {h : Host} (hs : h.InOrder) (ops : List Op) :
    (run h ops).store = h.store.run (ops.flatMap Op.effect) := by
  induction ops generalizing h with
  | nil => rfl
  | cons op ops ih =>
    obtain ⟨hstore, hs'⟩ := after_spec hs op
    rw [run, ih hs', hstore, List.flatMap_cons, Store.run_append]

end Database

end ContractHost
