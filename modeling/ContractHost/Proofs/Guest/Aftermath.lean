import ContractHost.Proofs.Guest.Services
import ContractHost.Proofs.Host.Access

/-!
# What a host function that failed leaves behind

Arguments are read before anything is done, and what is done last is handing out the answer. So of
the host functions only those that change the storage and answer something can fail with the change
made: `dbScan` has opened its iterator and `dbNext` has taken its record when the guest's allocator
comes to fail. Those steps are not taken back. All other failures leave the backend as it was
(`aftermath_of_error`), provided that the allocator does.

An allocator keeps a part of the host if no function that it comes to call changes that part
(`lawfulAccess_keeps`).
-/

namespace ContractHost

open World (onHost)

/-! ## The steps of iterators -/

namespace Database

/-- A scan that fails does nothing, and one that does not makes one step on the storage. -/
theorem run_scan_cases (start stop : Option Bytes) (code : Int32) (h : Host) :
    (∃ e, (scan start stop code).run h = .error e h) ∨
    ∃ name h', (scan start stop code).run h = .ok name h' ∧
      ∃ order storage, Order.ofCode code = .ok order ∧
        (Storage.scan start stop order).run h.backend.storage = .ok name storage ∧
        h'.backend = { h.backend with storage } := by
  unfold scan
  cases hcode : Order.ofCode code with
  | error e => exact .inl ⟨.validation (.order e), rfl⟩
  | ok order =>
    have horder : Host.ofCheck ((Except.ok order).mapError ValidationFault.order) =
        pure order := rfl
    rw [horder, pure_bind]
    cases hscan : (Storage.scan start stop order).run h.backend.storage with
    | error e storage =>
      rw [Host.run_onStorage_of_error hscan,
        Storage.eq_of_unlessOut_eq_error Store.scan_of_error hscan]
      exact .inl ⟨.backend e, rfl⟩
    | ok name storage =>
      rw [Host.run_onStorage_of_ok hscan]
      exact .inr ⟨name, _, rfl, order, storage, rfl, hscan, rfl⟩

/-- A step of an iterator that fails does nothing, and one that does not is made on the storage. -/
theorem run_next_cases (name : Bytes) (h : Host) :
    (∃ e, (next name).run h = .error e h) ∨
    ∃ data h', (next name).run h = .ok data h' ∧
      ∃ record storage, (Storage.next name).run h.backend.storage = .ok record storage ∧
        h'.backend = { h.backend with storage } := by
  simp only [next, EStateM.run_bind]
  cases hnext : (Storage.next name).run h.backend.storage with
  | error e storage =>
    have hsame : storage = h.backend.storage :=
      Storage.eq_of_unlessOut_eq_error (fun hstore => (Store.next_of_error hstore).1) hnext
    rw [Host.run_onStorage_of_error hnext, hsame]
    exact .inl ⟨.backend e, rfl⟩
  | ok record storage =>
    rw [Host.run_onStorage_of_ok hnext]
    cases record with
    | some r => exact .inr ⟨_, _, rfl, _, storage, rfl, rfl⟩
    | none => exact .inr ⟨_, _, rfl, _, storage, rfl, rfl⟩

end Database

namespace Guest

open Service (run_one_eq_error run_nothing_eq_error)

/-! ## Parts of the host that are kept -/

variable {ε τ : Type} {p : Host → τ}

/-- A part of the host is the same in the end, however it ended. -/
def Keeps (p : Host → τ) (w : World) (_ : Option ε) (u : World) : Prop := p u.host = p w.host

/-- The journal is not in a part of the host. -/
class Unjournaled (p : Host → τ) : Prop where
  journal (h : Host) (journal : Journal) : p { h with journal } = p h

instance unjournaled_backend : Unjournaled Host.backend := ⟨fun _ _ => rfl⟩

instance unjournaled_messages : Unjournaled Host.messages := ⟨fun _ _ => rfl⟩

instance sequential_keeps : Sequential (Keeps p : World → Option ε → World → Prop) where
  done _ := rfl
  trans h h' := Eq.trans h' h

instance guestLaw_keeps : GuestLaw (Keeps p) where
  memory _ _ := rfl
  globals _ _ := rfl
  trap _ _ _ := rfl

instance hostLaw_keeps : HostLaw (Keeps p) where
  memory _ _ := rfl
  fault _ _ := rfl

/-- A trap of the guest undoes nothing. -/
theorem passes_keeps : Passes (Keeps p) (Keeps p) where
  ok h := h
  trap _ h := h

instance remarkLaw_keeps [Unjournaled p] : RemarkLaw (Keeps p) where
  remark remarks := by
    obtain ⟨es, rfl, -⟩ := remarks
    exact Unjournaled.journal _ _

instance serviceLaw_keeps_messages : ServiceLaw (Keeps Host.messages) where
  turn turn := turn.messages

/-! ## Allocators that keep a part of the host -/

/-- Every call in the code is of a function in a set. -/
def Code.CallsIn (S : Nat → Prop) : Code → Prop
  | .done | .br _ | .ret => True
  | .op _ rest | .charge _ rest | .brIf _ rest => rest.CallsIn S
  | .call f rest => S f ∧ rest.CallsIn S
  | .block body rest | .loop body rest => body.CallsIn S ∧ rest.CallsIn S
  | .choose yes no rest => yes.CallsIn S ∧ no.CallsIn S ∧ rest.CallsIn S

/-- The functions of a module in a set, of which those of the host are of a kind, call no others. -/
structure Linked.Closed (l : Linked) (S : Nat → Prop) (A : HostFunction → Prop) : Prop where
  allocator {f : Nat} (h : l.module.exportedFunction? Module.allocateName = some f) : S f
  service {f : Nat} {h : HostFunction} (hf : S f) (hcallee : l.callee? f = some (.service h)) : A h
  function {f : Nat} {g : Function} (hf : S f) (hcallee : l.callee? f = some (.function g)) :
    g.body.CallsIn S

/-- The host functions of a kind keep a part of the host if the allocator does. -/
def Keepers (p : Host → τ) (A : HostFunction → Prop) : Prop :=
  ∀ {g : Access World}, LawfulAccess (Keeps p) g → ∀ {f}, A f → ∀ args,
    Obeys (Keeps p) (Service.run g f args)

section
variable [Unjournaled p]

/-- What is entered into the journal is no matter to such a part of the host. -/
theorem keeps_noting (e : Event) (w : World) : p (w.noting e).host = p w.host :=
  Unjournaled.journal _ _

theorem keeps_pay (cost : Nat) : Obeys (Keeps p) (pay cost) := by
  intro w
  obtain ⟨m, -, hrun⟩ | ⟨-, hrun⟩ := run_pay cost w
  · rw [hrun]
    exact keeps_noting (.charged cost) _
  · rw [hrun]
    exact keeps_noting (.exhausted cost) _

/-- Code that calls functions of a set only keeps what these keep. -/
theorem codeLaw_keeps {S : Nat → Prop} {arity : Nat → Option Nat} {call : Caller}
    (hcall : ∀ f, S f → ∀ args, Obeys (Keeps p) (call f args)) :
    CodeLaw (Obeying (Keeps p)) arity call (Code.CallsIn S) where
  op h := h
  call h := ⟨hcall _ h.1, h.2⟩
  charge h hrest f := (keeps_pay _).bind fun _ => hrest h f
  block h := h
  loop h := h
  choose h := h
  brIf h := h

/-- The events that frame a host function are no matter to such a part of the host. -/
theorem keeps_serve {g : Access World} {f : HostFunction} {args : List Value}
    (h : Obeys (Keeps p) (Service.run g f args)) : Obeys (Keeps p) (Service.serve g f args) := by
  intro w
  rw [run_serve]
  have hentered := keeps_noting (p := p) (.entered f) w
  cases hrun : (Service.run g f args).run (w.noting (.entered f)) with
  | ok results v => exact (keeps_noting (.returned f) v).trans ((h.of_ok hrun).trans hentered)
  | error e v => exact (keeps_noting (.failed f e) v).trans ((h.of_error hrun).trans hentered)

variable {l : Linked} {attached : Bool} {S : Nat → Prop} {A : HostFunction → Prop}

/-- Out of a closed set no call leads, so a part of the host is kept that its host functions keep.
The induction is on the fuel, as a host function has the allocator run, which is in the set. -/
theorem keeps_invoke (hA : Keepers p A) (hclosed : l.Closed S A) (fuel : Nat) {f : Nat} (hf : S f)
    (args : List Value) : Obeys (Keeps p) (invoke l attached fuel f args) := by
  induction fuel generalizing f args with
  | zero => exact obeys_stuck
  | succ fuel ih =>
    -- the access that a host function has if it is called from here
    have hg : LawfulAccess (Keeps p) (access l attached (invoke l attached fuel)) :=
      lawfulAccess_access passes_keeps fun f h => ih (hclosed.allocator h)
    unfold invoke
    split
    · exact obeys_stuck
    · rename_i h hcallee
      exact (keeps_serve (hA hg (hclosed.service hf hcallee) args)).adaptExcept id id
    · rename_i g hcallee
      exact obeys_functionExec (codeLaw_keeps fun f => ih) (hclosed.function hf hcallee) args

/-- The access to a guest keeps a part of the host if its allocator comes to call no function that
does not. -/
theorem lawfulAccess_keeps (hA : Keepers p A) (hclosed : l.Closed S A) (fuel : Nat) :
    LawfulAccess (Keeps p) (access l attached (invoke l attached fuel)) :=
  lawfulAccess_access passes_keeps fun _ h => keeps_invoke hA hclosed fuel (hclosed.allocator h)

/-- A debug message is none of the backend. -/
theorem keeps_debug {g : Access World} (message : UInt32) :
    Obeys (Keeps Host.backend) (Service.debug g message) :=
  (obeys_textAt message).bind fun text => (obeys_logDebug text).bind fun _ =>
    Obeys.bind (fun w => keeps_noting _ w) fun _ _ => rfl

end

/-- All host functions keep the backend but those that change the storage. -/
theorem keepers_backend :
    Keepers Host.backend fun f => f.onlyRemarks = true ∨ f = .debug := by
  intro g hg f hf args
  by_cases hremarks : f.onlyRemarks = true
  · exact obeys_run hg hremarks args
  -- of the others, those that change the storage are not of the kind
  unfold Service.run
  split
  case h_13 message => exact closed_nothing Obeys.compositional (keeps_debug message)
  case h_16 => exact obeys_fault _
  all_goals exact absurd (hf.resolve_right nofun) hremarks

/-- All host functions keep the guest's messages but the one that adds to them. -/
theorem keepers_messages : Keepers Host.messages fun f => f ≠ .debug := by
  intro g hg f hf args w
  have hserves := serves_run hg f args w
  cases hrun : (Service.run g f args).run w with
  | error e u =>
    rw [hrun] at hserves
    exact hserves
  | ok results u =>
    rw [hrun] at hserves
    obtain ⟨v, h, hv, heffect, rfl⟩ := hserves
    have hmessages : h.messages = v.host.messages := by
      cases heffect with
      | wrote | removed | none => rfl
      | said => exact absurd rfl hf
    exact hmessages.trans hv

/-! ## Failures -/

section
variable {g : Access World} {w u : World} {e : HostFault}

/-- How a host function that failed has left the backend: as it was, or with the step of an iterator
made whose answer could not be handed out. -/
inductive Aftermath (g : Access World) (w : World) (e : HostFault) (u : World) :
    HostFunction → List Value → Prop where
  | untouched {f : HostFunction} {args : List Value} (backend : u.host.backend = w.host.backend) :
    Aftermath g w e u f args
  | scanned {start stop order : UInt32} {from? to? : Option Bytes} {o : Order} {name : Bytes}
    {storage : Storage} {h : Host}
    (start_read : (Service.bytesAt? g start).run w = .ok from? w)
    (stop_read : (Service.bytesAt? g stop).run w = .ok to? w)
    (order_read : Order.ofCode order.toInt32 = .ok o)
    (step : (Storage.scan from? to? o).run w.host.backend.storage = .ok name storage)
    (host : (Database.scan from? to? order.toInt32).run w.host = .ok name h)
    (unanswered : (Service.answer g name).run { w with host := h } = .error e u)
    (backend : u.host.backend = { w.host.backend with storage }) :
    Aftermath g w e u .dbScan [.i32 start, .i32 stop, .i32 order]
  | stepped {ptr : UInt32} {name data : Bytes} {record : Option Record} {storage : Storage}
    {h : Host} (name_read : (Service.bytesAt g ptr).run w = .ok name w)
    (step : (Storage.next name).run w.host.backend.storage = .ok record storage)
    (host : (Database.next name).run w.host = .ok data h)
    (unanswered : (Service.answer g data).run { w with host := h } = .error e u)
    (backend : u.host.backend = { w.host.backend with storage }) :
    Aftermath g w e u .dbNext [.i32 ptr]

/-- The data are not what an iterator's step changes. -/
theorem Aftermath.data {f : HostFunction} {args : List Value} (h : Aftermath g w e u f args) :
    u.host.store.data = w.host.store.data := by
  cases h with
  | untouched backend => exact congrArg (fun b => b.storage.store.data) backend
  | scanned _ _ _ step _ _ backend =>
    have hdata := congrArg (fun b => b.storage.store.data) backend
    exact hdata.trans ((Storage.sameData_scan _ _ _).of_ok step).symm
  | stepped _ step _ _ backend =>
    have hdata := congrArg (fun b => b.storage.store.data) backend
    exact hdata.trans ((Storage.sameData_next _).of_ok step).symm

/-- A debug message that cannot be read is not kept. -/
theorem eq_of_debug_eq_error {message : UInt32}
    (h : (Service.debug g message).run w = .error e u) : u = w := by
  obtain htext | ⟨text, v, -, hrest⟩ := run_bind_eq_error.mp h
  · obtain hbytes | ⟨_, _, -, hpure⟩ := run_bind_eq_error.mp htext
    · exact ((reads_bytesAt message).of_error hbytes).symm
    · cases hpure
  · -- nothing fails once the text is there
    rw [EStateM.run_bind, Service.run_logDebug] at hrest
    cases hrest

variable (hg : LawfulAccess (Keeps Host.backend) g)
include hg

/-- An operation of the host that does nothing if it fails, and whose answer is handed out last. -/
theorem run_onHost_answer_eq_error {x : HostM Bytes} {Q : Bytes → Host → Prop}
    (hx : (∃ e, x.run w.host = .error e w.host) ∨ ∃ data h, x.run w.host = .ok data h ∧ Q data h)
    (h : (onHost x >>= Service.answer g).run w = .error e u) :
    u = w ∨ ∃ data h, x.run w.host = .ok data h ∧ Q data h ∧
      (Service.answer g data).run { w with host := h } = .error e u ∧
      u.host.backend = h.backend := by
  obtain ⟨e', hrun⟩ | ⟨data, h', hrun, hQ⟩ := hx
  · rw [run_bind_eq_error, run_onHost_eq_error, hrun] at h
    obtain ⟨_, herror, rfl⟩ | ⟨_, _, hok, -⟩ := h
    · cases herror
      exact .inl rfl
    · obtain ⟨_, hok, -⟩ := run_onHost_eq_ok.mp hok
      cases hrun.symm.trans hok
  · -- it is done, so what failed is the answer
    have hok := run_onHost_eq_ok.mpr ⟨h', hrun, rfl⟩
    rw [run_bind_of_ok hok] at h
    exact .inr ⟨data, h', hrun, hQ, h, (obeys_answer hg data).of_error h⟩

/-- A scan that failed was refused, and did nothing, or its answer was not handed out. -/
theorem aftermath_of_dbScan {start stop order : UInt32}
    (h : (Service.dbScan g start stop order).run w = .error e u) :
    Aftermath g w e u .dbScan [.i32 start, .i32 stop, .i32 order] := by
  obtain hstart | ⟨from?, _, hstart, h⟩ := run_bind_eq_error.mp h
  · obtain rfl := (reads_optionalBytesAt start).of_error hstart
    exact .untouched rfl
  obtain rfl := (reads_optionalBytesAt start).of_ok hstart
  obtain hstop | ⟨to?, _, hstop, h⟩ := run_bind_eq_error.mp h
  · obtain rfl := (reads_optionalBytesAt stop).of_error hstop
    exact .untouched rfl
  obtain rfl := (reads_optionalBytesAt stop).of_ok hstop
  obtain rfl | ⟨name, h', hrun, ⟨o, storage, horder, hstep, hbackend⟩, hanswer, hkept⟩ :=
    run_onHost_answer_eq_error hg (Database.run_scan_cases from? to? order.toInt32 _) h
  · exact .untouched rfl
  · exact .scanned hstart hstop horder hstep hrun hanswer (hkept.trans hbackend)

/-- A step of an iterator that failed was refused, or its record is lost. -/
theorem aftermath_of_dbNext {ptr : UInt32} (h : (Service.dbNext g ptr).run w = .error e u) :
    Aftermath g w e u .dbNext [.i32 ptr] := by
  obtain hname | ⟨name, _, hname, h⟩ := run_bind_eq_error.mp h
  · obtain rfl := (reads_bytesAt ptr).of_error hname
    exact .untouched rfl
  obtain rfl := (reads_bytesAt ptr).of_ok hname
  obtain rfl | ⟨data, h', hrun, ⟨record, storage, hstep, hbackend⟩, hanswer, hkept⟩ :=
    run_onHost_answer_eq_error hg (Database.run_next_cases name _) h
  · exact .untouched rfl
  · exact .stepped hname hstep hrun hanswer (hkept.trans hbackend)

/-- A host function that fails leaves the backend as it was, but for the step of an iterator whose
answer could not be handed out. It leaves the data as they were in any case, and the debug log too
if the allocator does. -/
theorem aftermath_of_error {f : HostFunction} {args : List Value}
    (h : (Service.run g f args).run w = .error e u) :
    Aftermath g w e u f args ∧ u.host.store.data = w.host.store.data ∧
      (LawfulAccess (Keeps Host.messages) g → u.host.messages = w.host.messages) := by
  have haftermath : Aftermath g w e u f args := by
    by_cases hf : f.onlyRemarks = true
    · exact .untouched ((obeys_run hg hf args).of_error h)
    -- a change of the data comes last and answers nothing, so it fails only without effect
    unfold Service.run at h
    split at h
    case h_2 key value =>
      obtain ⟨_, hrun⟩ | ⟨_, _, -, -, hrun⟩ := dbWrite_cases g key value w
      · cases hrun.symm.trans (run_nothing_eq_error.mp h)
        exact .untouched rfl
      · cases hrun.symm.trans (run_nothing_eq_error.mp h)
    case h_3 key =>
      obtain ⟨_, hrun⟩ | ⟨_, -, hrun⟩ := dbRemove_cases g key w
      · cases hrun.symm.trans (run_nothing_eq_error.mp h)
        exact .untouched rfl
      · cases hrun.symm.trans (run_nothing_eq_error.mp h)
    case h_4 => exact aftermath_of_dbScan hg (run_one_eq_error.mp h)
    case h_5 => exact aftermath_of_dbNext hg (run_one_eq_error.mp h)
    case h_13 =>
      cases eq_of_debug_eq_error (run_nothing_eq_error.mp h)
      exact .untouched rfl
    case h_16 =>
      cases h
      exact .untouched rfl
    all_goals exact absurd rfl hf
  refine ⟨haftermath, haftermath.data, fun hmessages => ?_⟩
  have hserves := serves_run hmessages f args w
  rw [h] at hserves
  exact hserves

end

/-! ## A record that is lost -/

/-- A guest whose allocator ends every run. -/
def cutOff : Linked where
  module :=
    { functions := [⟨Module.allocateSignature, [], .op .unreachable .done⟩]
      exports := [(Module.allocateName, .function 0)] }
  services := []

/-- The access to such a guest. -/
def cutOffAccess : Access World := access cutOff true (invoke cutOff true 2)

theorem closed_cutOff (A : HostFunction → Prop) : cutOff.Closed (· = 0) A where
  allocator h := (Option.some.inj h).symm
  service hf hcallee := by
    subst hf
    cases hcallee
  function hf hcallee := by
    subst hf
    cases hcallee
    trivial

/-- A world in which an iterator has one record still to come, and whose guest has the name of the
iterator in the region at 16. -/
def pendingWorld : World where
  host :=
    { backend :=
        { storage :=
            { store :=
                { iterators := Std.TreeMap.empty.insert 0 [⟨[107], [118]⟩]
                  opened := 1 } } } }
  guest :=
    { memory :=
        { pages := 1
          addressable := addressable_one
          written := Memory.put 16
            (Region.descriptor { ptr := 16, offset := 32, capacity := 4, length := 4 }) ∅ }
      globals := [], meter := { points := 0 } }

/-- A `dbNext` whose answer the allocator cuts off takes the record, and the next one does not
deliver it. -/
theorem record_lost :
    LawfulAccess (Keeps Host.backend) cutOffAccess ∧ ∃ e u,
      (Service.run cutOffAccess .dbNext [.i32 16]).run pendingWorld = .error e u ∧
      pendingWorld.host.store.iterators[0]? = some [⟨[107], [118]⟩] ∧
      u.host.store.iterators[0]? = some [] ∧
      ∃ h, (Database.next [0, 0, 0, 0]).run u.host = .ok Database.exhaustedRecord h := by
  refine ⟨lawfulAccess_keeps keepers_backend (closed_cutOff _) 2, ?_⟩
  have hrun : failed? ((Service.run cutOffAccess .dbNext [.i32 16]).run pendingWorld) =
        some (.runtime ["fail to allocate linear memory: RuntimeError: unreachable"]) ∧
      pendingWorld.host.store.iterators[0]? = some [⟨[107], [118]⟩] ∧
      (left ((Service.run cutOffAccess .dbNext [.i32 16]).run
        pendingWorld)).host.store.iterators[0]? = some [] ∧
      answered? ((Database.next [0, 0, 0, 0]).run
        (left ((Service.run cutOffAccess .dbNext [.i32 16]).run pendingWorld)).host) =
          some Database.exhaustedRecord := by decide +kernel
  obtain ⟨hfailed, hbefore, hafter, hnext⟩ := hrun
  exact ⟨_, _, eq_error_of_failed? hfailed, hbefore, hafter, _, eq_ok_of_answered? hnext⟩

/-- What is left behind such a `dbNext` is the store after the iterator's step. -/
theorem aftermath_of_cutOff :
    LawfulAccess (Keeps Host.backend) cutOffAccess ∧ ∃ e u,
      (Service.run cutOffAccess .dbNext [.i32 16]).run pendingWorld = .error e u ∧
      Aftermath cutOffAccess pendingWorld e u .dbNext [.i32 16] ∧
      u.host.messages = pendingWorld.host.messages := by
  have hbackend : LawfulAccess (Keeps Host.backend) cutOffAccess :=
    lawfulAccess_keeps keepers_backend (closed_cutOff _) 2
  have hmessages : LawfulAccess (Keeps Host.messages) cutOffAccess :=
    lawfulAccess_keeps keepers_messages (closed_cutOff _) 2
  have hfailed : failed? ((Service.run cutOffAccess .dbNext [.i32 16]).run pendingWorld) =
      some (.runtime ["fail to allocate linear memory: RuntimeError: unreachable"]) := by
    decide +kernel
  have hrun := eq_error_of_failed? hfailed
  obtain ⟨haftermath, -, hsame⟩ := aftermath_of_error hbackend hrun
  exact ⟨hbackend, _, _, hrun, haftermath, hsame hmessages⟩

end Guest

end ContractHost
