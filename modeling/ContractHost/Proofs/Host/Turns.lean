import ContractHost.Host.Checks
import ContractHost.Host.Database
import ContractHost.Proofs.Database.Run
import ContractHost.Proofs.Frames

/-!
# What operations of the host do to a host

Most operations of the host change nothing of it, and what they enter into the journal is a remark
on their own work (`Host.Remarks`). Iterators are opened and stepped besides, which leaves the data
and the guest's messages alone (`Host.Turns`). The other two operations of the database change one
key of the data if they succeed and nothing if they fail (`run_write_cases`, `run_remove_cases`).
-/

namespace ContractHost

/-! ## Turns -/

/-- A remark of the host on its own work. No other event tells of it. -/
def Event.IsRemark : Event → Prop
  | .keyNotFound _ | .iteratorExhausted _ | .addressRefused _ _ | .batchRefused _ | .logged _
  | .aborting _ => True
  | _ => False

/-- Is an event the logging of a debug message? -/
def Event.isLogged : Event → Bool
  | .logged _ => true
  | _ => false

namespace Host

/-- A host goes on with the same data, the same configuration and the same messages of the guest,
and what was entered into its journal are remarks. -/
structure Turns (h h' : Host) : Prop where
  data : h'.store.data = h.store.data
  config : h'.config = h.config
  messages : h'.messages = h.messages
  journal : ∃ es : Journal, h'.journal = es ++ h.journal ∧ ∀ e ∈ es, e.IsRemark

namespace Turns

protected theorem refl (h : Host) : h.Turns h := ⟨rfl, rfl, rfl, [], rfl, List.forall_mem_nil _⟩

protected theorem trans {h₁ h₂ h₃ : Host} (h : h₁.Turns h₂) (h' : h₂.Turns h₃) : h₁.Turns h₃ := by
  obtain ⟨es, hes, hremarks⟩ := h.journal
  obtain ⟨fs, hfs, hremarks'⟩ := h'.journal
  refine ⟨h'.data.trans h.data, h'.config.trans h.config, h'.messages.trans h.messages, fs ++ es,
    ?_, ?_⟩
  · rw [hfs, hes, List.append_assoc]
  · intro e he
    obtain he | he := List.mem_append.mp he
    · exact hremarks' e he
    · exact hremarks e he

instance : IsPreorder Host Turns where
  refl := Turns.refl
  trans _ _ _ := Turns.trans

end Turns

/-- Nothing of a host changes but its journal, and what is entered there are remarks. -/
def Remarks (h h' : Host) : Prop :=
  ∃ es : Journal, h' = { h with journal := es ++ h.journal } ∧ ∀ e ∈ es, e.IsRemark

namespace Remarks

protected theorem refl (h : Host) : h.Remarks h := ⟨[], rfl, List.forall_mem_nil _⟩

protected theorem trans {h₁ h₂ h₃ : Host} (h : h₁.Remarks h₂) (h' : h₂.Remarks h₃) :
    h₁.Remarks h₃ := by
  obtain ⟨es, rfl, hes⟩ := h
  obtain ⟨fs, rfl, hfs⟩ := h'
  refine ⟨fs ++ es, ?_, List.forall_mem_append.mpr ⟨hfs, hes⟩⟩
  rw [List.append_assoc]

instance isPreorder : IsPreorder Host Remarks where
  refl := Remarks.refl
  trans _ _ _ := Remarks.trans

/-- Remarks are turns in which no iterator moves. -/
theorem turns {h h' : Host} (h₁ : h.Remarks h') : h.Turns h' := by
  obtain ⟨es, rfl, hes⟩ := h₁
  exact ⟨rfl, rfl, rfl, es, rfl, hes⟩

end Remarks

/-- What only remarks only takes turns. -/
theorem turns_of_remarks {ε α : Type} {x : EStateM ε Host α} (hx : Moves Remarks x) :
    Moves Turns x :=
  Moves.iff_obeys.mpr ((Moves.iff_obeys.mp hx).mono Remarks.turns)

theorem remarks_noting (h : Host) {e : Event} (he : e.IsRemark) : h.Remarks (h.noting e) :=
  ⟨[e], rfl, List.forall_mem_singleton.mpr he⟩

theorem remarks_note (e : Event) (he : e.IsRemark) : Moves Remarks (note e) :=
  fun h => h.remarks_noting he

/-- A property of operations of the host that all have that do no more than remark on their work:
they look up a key, ask the backend, fail, and enter remarks into the journal. That a debug message
was logged is no remark of theirs. -/
structure RemarkClosed (D : (α : Type) → HostM α → Prop) : Prop extends Compositional D where
  fault {α : Type} (e : HostFault) : D α (throw e)
  remark {e : Event} (he : e.IsRemark) (hlogged : e.isLogged = false) : D Unit (note e)
  lookup (key : Bytes) : D (Option Bytes) (onStorage (Storage.get key))
  asking {α : Type} (ask : Backend → Except BackendError α) :
    D α (get >>= fun h => ofBackend (ask h.backend))

section
variable {D : (α : Type) → HostM α → Prop} (hD : RemarkClosed D)
include hD

/-- A result of the backend is one that it was asked for. -/
theorem closed_ofBackend {α : Type} (result : Except BackendError α) : D α (ofBackend result) :=
  hD.asking fun _ => result

/-- A check of the guest's data is passed, or it is a failure. -/
theorem closed_ofCheck {α : Type} (result : Except ValidationFault α) : D α (ofCheck result) := by
  cases result with
  | ok a => exact hD.pure a
  | error e => exact hD.fault _

end

/-- Another storage is no matter if it has the same data. -/
theorem turns_setStorage {h : Host} {s : Storage} (hs : h.store.data = s.store.data) :
    h.Turns { h with backend := { h.backend with storage := s } } :=
  ⟨hs.symm, rfl, rfl, [], rfl, List.forall_mem_nil _⟩

end Host

/-! ## Storage -/

/-- Two stores hold the same data. -/
abbrev Store.SameData : Store → Store → Prop := InvImage Eq Store.data

namespace Store

/-- A scan leaves the data alone, whether it is refused or not. -/
theorem sameData_scan (start stop : Option Bytes) (order : Order) :
    Moves SameData (scan start stop order) := by
  intro s
  obtain ⟨-, hscan⟩ | ⟨-, s', hscan, hdata, -⟩ := s.scan_cases start stop order
  · rw [hscan]
    rfl
  · rw [hscan]
    exact hdata.symm

/-- A step of an iterator leaves the data alone, whether it is refused or not. -/
theorem sameData_next (name : Bytes) : Moves SameData (next name) := by
  intro s
  cases hnext : (next name).run s with
  | error e s' =>
    obtain ⟨rfl, -⟩ := next_of_error hnext
    rfl
  | ok record s' =>
    obtain ⟨-, -, hdata, -⟩ := next_of_ok hnext
    exact hdata.symm

end Store

namespace Storage

variable {α : Type} {outage : Outages → Option BackendError}

/-- An operation is out of order, which leaves everything as it is, or it is carried out on the
store. -/
theorem run_unlessOut_cases (outage : Outages → Option BackendError) (x : StoreM α) (s : Storage) :
    (∃ e, (unlessOut outage x).run s = .error e s) ∨
    (unlessOut outage x).run s = match x.run s.store with
      | .ok a store => .ok a { s with store }
      | .error e store => .error e { s with store } := by
  simp only [EStateM.run, unlessOut]
  cases outage s.outages with
  | some e => exact .inl ⟨e, rfl⟩
  | none => exact .inr rfl

/-- What an operation of the store keeps is kept also if it is out of order. -/
theorem moves_unlessOut {R : Store → Store → Prop} [IsPreorder Store R] {x : StoreM α}
    (hx : Moves R x) : Moves (InvImage R store) (unlessOut outage x) := by
  intro s
  obtain ⟨e, hrun⟩ | hrun := s.run_unlessOut_cases outage x
  · rw [hrun]
    exact Std.Refl.refl s.store
  · rw [hrun]
    cases hstore : x.run s.store with
    | ok a t => exact hx.of_ok hstore
    | error e t => exact hx.of_error hstore

/-- If an operation of the store does nothing when it fails, then so it is with the storage. -/
theorem eq_of_unlessOut_eq_error {x : StoreM α}
    (hx : ∀ {s e s'}, x.run s = .error e s' → s' = s) {s t : Storage} {e : BackendError}
    (h : (unlessOut outage x).run s = .error e t) : t = s := by
  obtain ⟨e', hrun⟩ | hrun := s.run_unlessOut_cases outage x
  · cases hrun.symm.trans h
    rfl
  · rw [h] at hrun
    cases hstore : x.run s.store with
    | ok a s' =>
      rw [hstore] at hrun
      cases hrun
    | error e' s' =>
      rw [hstore, hx hstore] at hrun
      cases hrun
      rfl

/-- A storage that is out of order does not open iterators, and keeps its data all the same. -/
theorem sameData_scan (start stop : Option Bytes) (order : Order) :
    Moves (InvImage Store.SameData store) (scan start stop order) :=
  moves_unlessOut (Store.sameData_scan start stop order)

theorem sameData_next (name : Bytes) : Moves (InvImage Store.SameData store) (next name) :=
  moves_unlessOut (Store.sameData_next name)

end Storage

namespace Host

variable {α : Type}

/-- The host goes on with the storage that an operation leaves. -/
theorem run_onStorage_of_ok {x : StorageM α} {h : Host} {a : α} {s : Storage}
    (hx : x.run h.backend.storage = .ok a s) :
    (onStorage x).run h = .ok a { h with backend := { h.backend with storage := s } } := by
  simp only [EStateM.run] at hx
  simp only [EStateM.run, onStorage, hx]

/-- The host goes on with the storage that an operation leaves, also if it failed. -/
theorem run_onStorage_of_error {x : StorageM α} {h : Host} {e : BackendError} {s : Storage}
    (hx : x.run h.backend.storage = .error e s) :
    (onStorage x).run h =
      .error (.backend e) { h with backend := { h.backend with storage := s } } := by
  simp only [EStateM.run] at hx
  simp only [EStateM.run, onStorage, hx]

/-- An operation of the storage is a turn if it leaves the data alone. -/
theorem turns_onStorage {x : StorageM α} (hx : Moves (InvImage Store.SameData Storage.store) x) :
    Moves Turns (onStorage x) := by
  intro h
  cases hrun : x.run h.backend.storage with
  | ok a s =>
    rw [run_onStorage_of_ok hrun]
    exact turns_setStorage (hx.of_ok hrun)
  | error e s =>
    rw [run_onStorage_of_error hrun]
    exact turns_setStorage (hx.of_error hrun)

/-- An operation that always succeeds on the store fails on the host without doing anything, or it
does to the store of the host what it does. -/
theorem run_onStorage_unlessOut_cases (outage : Outages → Option BackendError) {x : StoreM α}
    {h : Host} {a : α} {s : Store} (hx : x.run h.store = .ok a s) :
    (∃ e, (onStorage (Storage.unlessOut outage x)).run h = .error e h) ∨
    (onStorage (Storage.unlessOut outage x)).run h = .ok a (h.setStore s) := by
  obtain ⟨e, hrun⟩ | hrun := h.backend.storage.run_unlessOut_cases outage x
  · exact .inl ⟨.backend e, run_onStorage_of_error hrun⟩
  · have hstore : x.run h.backend.storage.store = .ok a s := hx
    rw [hstore] at hrun
    exact .inr (run_onStorage_of_ok hrun)

/-- To do no more than remark is a property of that sort. -/
theorem remarkClosed_remarks : RemarkClosed (Moving Remarks) where
  toCompositional := Moves.compositional
  fault := Moves.throw
  remark he _ := remarks_note _ he
  lookup key h := by
    obtain ⟨e, hrun⟩ | hrun := run_onStorage_unlessOut_cases Outages.get
      (x := fun s => .ok (s.get? key) s) (h := h) rfl
    · rw [Storage.get, hrun]
      exact Remarks.refl h
    · rw [Storage.get, hrun]
      exact Remarks.refl h
  asking ask h := by
    simp only [EStateM.run_bind, EStateM.run_get]
    cases ask h.backend with
    | ok a => exact Remarks.refl h
    | error e => exact Remarks.refl h

end Host

namespace Database

open Host (Turns Remarks turns_onStorage)

/-- A key is looked up, and that it is not there is remarked. -/
theorem closed_read {D : (α : Type) → HostM α → Prop} (hD : Host.RemarkClosed D) (key : Bytes) :
    D _ (read key) := by
  refine hD.bind (Host.closed_ofCheck hD _) fun _ => hD.bind (hD.lookup key) fun v => ?_
  cases v with
  | none => exact hD.bind (hD.remark (e := .keyNotFound key) trivial rfl) fun _ => hD.pure _
  | some value => exact hD.pure _

/-- Opening an iterator is a turn, whether the order that is asked for is one or not. -/
theorem turns_scan (start stop : Option Bytes) (code : Int32) :
    Moves Turns (scan start stop code) :=
  (Host.turns_of_remarks (Host.closed_ofCheck Host.remarkClosed_remarks _)).bind fun order =>
    turns_onStorage (Storage.sameData_scan start stop order)

/-- A step of an iterator is a turn, at its end with a remark. -/
theorem turns_next (name : Bytes) : Moves Turns (next name) := by
  refine (turns_onStorage (Storage.sameData_next name)).bind fun record => ?_
  cases record with
  | some r => exact Moves.pure _
  | none =>
    have hnote : Moves Remarks (Host.note (.iteratorExhausted name)) :=
      Host.remarks_note _ trivial
    exact (Host.turns_of_remarks hnote).bind fun _ => Moves.pure _

/-- A write that fails does nothing, whatever it fails for. -/
theorem run_write_cases (key value : Bytes) (h : Host) :
    (∃ e, (write key value).run h = .error e h) ∨ (write key value).run h =
      .ok () ((h.setStore (h.store.insert key value)).noting (.wrote key value)) := by
  unfold write
  cases hvalue : checkValue value with
  | error e => exact .inl ⟨.validation e, rfl⟩
  | ok _ =>
    cases hkey : checkKey key with
    | error e => exact .inl ⟨.validation e, rfl⟩
    | ok _ =>
      simp only [EStateM.run_bind, Host.run_ofCheck_ok, Storage.set]
      obtain ⟨e, hset⟩ | hset := Host.run_onStorage_unlessOut_cases Outages.set
        (x := fun s => .ok () (s.insert key value)) (h := h) rfl
      · rw [hset]
        exact .inl ⟨e, rfl⟩
      · rw [hset]
        exact .inr rfl

/-- A removal that fails does nothing. -/
theorem run_remove_cases (key : Bytes) (h : Host) :
    (∃ e, (remove key).run h = .error e h) ∨
    (remove key).run h = .ok () ((h.setStore (h.store.erase key)).noting (.removed key)) := by
  unfold remove
  simp only [EStateM.run_bind, Storage.remove]
  obtain ⟨e, hremove⟩ | hremove := Host.run_onStorage_unlessOut_cases Outages.remove
    (x := fun s => .ok () (s.erase key)) (h := h) rfl
  · rw [hremove]
    exact .inl ⟨e, rfl⟩
  · rw [hremove]
    exact .inr rfl

end Database

/-! ## Addresses and signatures -/

section
variable {D : (α : Type) → HostM α → Prop} (hD : Host.RemarkClosed D)
include hD

namespace Addresses

theorem closed_ofCheck {α : Type} (result : Except Address.Fault α) : D α (ofCheck result) :=
  Host.closed_ofCheck hD _

/-- The text of an address is checked before the backend is asked. -/
theorem closed_canonicalize (source : Bytes) : D _ (canonicalize source) :=
  hD.bind (closed_ofCheck hD _) fun human => hD.asking fun b => b.addresses.canonical human

/-- The length of a canonical address is checked before the backend is asked. -/
theorem closed_humanize (source : Bytes) : D _ (humanize source) :=
  hD.bind (closed_ofCheck hD _) fun _ => hD.asking fun b => b.addresses.human source

/-- Of an address that is not normalized it is remarked why. -/
theorem closed_validate (hrp : List Char) (source : Bytes) : D _ (validate hrp source) := by
  unfold validate
  cases Address.validate hrp source with
  | ok _ => exact closed_ofCheck hD _
  | error e =>
    cases e with
    | invalid human reason =>
      exact hD.bind (hD.remark (e := .addressRefused human reason) trivial rfl) fun _ =>
        closed_ofCheck hD _
    | _ => exact closed_ofCheck hD _

end Addresses

namespace Signatures

/-- Of lists that make no batch it is remarked how long they are. -/
theorem closed_batchVerify (messages signatures keys : Bytes) :
    D _ (batchVerify messages signatures keys) := by
  unfold batchVerify ofBatch
  cases Batch.verify messages signatures keys with
  | ok good => exact Host.closed_ofCheck hD _
  | error e =>
    cases e with
    | mismatch e =>
      exact hD.bind (hD.remark (e := .batchRefused e) trivial rfl) fun _ =>
        Host.closed_ofCheck hD _
    | _ => exact Host.closed_ofCheck hD _

/-- Recovering a key touches nothing of the host. -/
theorem closed_recover (digest signature : Bytes) (param : UInt32) :
    D _ (recover digest signature param) := Host.closed_ofCheck hD _

end Signatures

end

end ContractHost
