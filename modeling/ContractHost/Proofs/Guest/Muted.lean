import ContractHost.Proofs.Guest.Services

/-!
# Logging debug messages changes nothing else

The configuration tells a host whether to log the guest's debug messages, and the host asks it in
one place: when a guest has `debug` called. There the run of a host that logs and the run of one
that does not part, and they come together again right behind it, but for the event that the first
one entered into its journal.

`Host.muted` takes the switch and these events away. That everything that guests and their host do
commutes with it says that two such runs go on side by side, whatever the guest is: each operation
of the host and each host function answers alike, fails alike, and leaves worlds that differ as they
did before. Calls of the guest commute by induction on how deep they are nested
(`Guest.commutes_invoke`), as the host has the guest's allocator run.
-/

namespace ContractHost

namespace Host

/-- The host with the switch off, and without the events that it entered while the switch was on. -/
def muted (h : Host) : Host :=
  { h with
    config := { h.config with debugToLog := false }
    journal := h.journal.filter fun e => !e.isLogged }

/-- An event that logs nothing is entered by a muted host as by any other. -/
theorem muted_noting (h : Host) {e : Event} (he : e.isLogged = false) :
    (h.noting e).muted = h.muted.noting e := by
  simp only [muted, noting, List.filter_cons, he, Bool.not_false, if_true]

/-- What a host logs is taken away again when it is muted. -/
theorem muted_noting_logged (h : Host) (text : String) :
    (h.noting (.logged text)).muted = h.muted := by
  simp only [muted, noting, List.filter_cons, Event.isLogged, Bool.not_true, Bool.false_eq_true,
    if_false]

/-! ## Operations of the host -/

/-- The host enters into its journal whatever it would enter if it logged. -/
theorem commutes_note (e : Event) (he : e.isLogged = false) : Commutes muted (note e) :=
  Commutes.modify fun h => (h.muted_noting he).symm

/-- The backend knows nothing of the switch. -/
theorem commutes_onStorage {α : Type} (x : StorageM α) : Commutes muted (onStorage x) := by
  intro h
  have hbackend : h.muted.backend = h.backend := rfl
  simp only [EStateM.run, onStorage, hbackend]
  cases x h.backend.storage with
  | ok a storage => rfl
  | error e storage => rfl

/-- No remark of the host on its work depends on the switch. -/
theorem remarkClosed_commutes : RemarkClosed (Commuting muted) where
  toCompositional := Commutes.compositional
  fault := Commutes.throw
  remark _ hlogged := commutes_note _ hlogged
  lookup _ := commutes_onStorage _
  asking ask := Commutes.get_bind (fun _ => rfl) fun h => by
    cases ask h.backend with
    | ok a => exact Commutes.pure a
    | error e => exact Commutes.throw _

end Host

namespace Database

open Host (muted commutes_note commutes_onStorage remarkClosed_commutes)

/-- The guest's data are checked without asking for the switch. -/
theorem commutes_ofCheck {α : Type} (result : Except ValidationFault α) :
    Commutes muted (Host.ofCheck result) := Host.closed_ofCheck remarkClosed_commutes result

/-- A key is given its value by both, or refused to both. -/
theorem commutes_write (key value : Bytes) : Commutes muted (write key value) :=
  (commutes_ofCheck _).bind fun _ => (commutes_ofCheck _).bind fun _ =>
    (commutes_onStorage _).bind fun _ => commutes_note _ rfl

/-- A key is taken out by both. -/
theorem commutes_remove (key : Bytes) : Commutes muted (remove key) :=
  (commutes_onStorage _).bind fun _ => commutes_note _ rfl

/-- The iterators that both open have the same names. -/
theorem commutes_scan (start stop : Option Bytes) (code : Int32) :
    Commutes muted (scan start stop code) :=
  (commutes_ofCheck _).bind fun _ => commutes_onStorage _

/-- Both take the same record, or remark that there is none. -/
theorem commutes_next (name : Bytes) : Commutes muted (next name) := by
  refine (commutes_onStorage _).bind fun record => ?_
  cases record with
  | some r => exact Commutes.pure _
  | none => exact (commutes_note _ rfl).bind fun _ => Commutes.pure _

end Database

/-! ## Worlds -/

namespace World

/-- The world with its host muted. Of the guest nothing is taken away. -/
def muted (w : World) : World := { w with host := w.host.muted }

theorem muted_noting (w : World) {e : Event} (he : e.isLogged = false) :
    (w.noting e).muted = w.muted.noting e :=
  congrArg (fun host => { w with host }) (w.host.muted_noting he)

/-- A host with the switch off logs nothing. -/
theorem logging_muted (w : World) (text : String) : w.muted.logging text = w.muted := if_neg nofun

/-- What a host logs is taken away again. -/
theorem muted_logging (w : World) (text : String) : (w.logging text).muted = w.muted := by
  unfold logging
  split
  · exact congrArg (fun host => { w with host }) (w.host.muted_noting_logged text)
  · rfl

theorem commutes_note {ε : Type} (e : Event) (he : e.isLogged = false) :
    Commutes muted (note e : EStateM ε World Unit) :=
  Commutes.modify fun w => (w.muted_noting he).symm

/-- What the host does alone, it does for a guest. -/
theorem commutes_onHost {ε α : Type} {x : EStateM ε Host α} (hx : Commutes Host.muted x) :
    Commutes muted (onHost x) := by
  intro w
  have hw : x w.host.muted = endingIn Host.muted (x w.host) := hx w.host
  have hhost : w.muted.host = w.host.muted := rfl
  simp only [EStateM.run, onHost, hhost, hw]
  cases x w.host with
  | ok a h => rfl
  | error e h => rfl

/-- A failure that is observed is the same for both. -/
theorem commutes_observe {ε ε' α : Type} {x : EStateM ε World α} (hx : Commutes muted x) :
    Commutes muted (observe x : EStateM ε' World (Except ε α)) := by
  intro w
  have hw : x w.muted = endingIn muted (x w) := hx w
  simp only [EStateM.run, observe, hw]
  cases x w with
  | ok a v => rfl
  | error e v => rfl

end World

/-! ## Host functions -/

namespace Guest

open World (commutes_onHost commutes_observe)

/-- An access to a guest by which the switch of the host cannot be told. -/
structure Oblivious (g : Access World) : Prop where
  memory (w : World) : g.memory w.muted = g.memory w
  setMemory (m : Memory) (w : World) : g.setMemory m w.muted = (g.setMemory m w).muted
  allocate (size : UInt32) : Commutes World.muted (g.allocate size)

/-- Failing and going on commute, as they do with any map. -/
theorem hostClosed_commutes : HostClosed (Commuting World.muted) where
  toCompositional := Commutes.compositional
  fault := Commutes.throw

section
variable {g : Access World} (hg : Oblivious g)
include hg

/-- What commutes for the host, commutes for a guest that is served through such an access. -/
theorem Oblivious.serving : Serving (Commuting World.muted) (Commuting Host.muted) g where
  toHostClosed := hostClosed_commutes
  view := by
    refine Commutes.get_bind (fun w => ?_) fun w => closed_ofMemory hostClosed_commutes _
    rw [hg.memory]
  setMemory m := Commutes.modify (hg.setMemory m)
  allocate := hg.allocate
  onHost := commutes_onHost
  observe hx := commutes_observe (commutes_onHost hx)
  backend hk := Commutes.get_bind (fun _ => rfl) fun _ => hk _ _

omit hg in
/-- Here the two runs part, and meet again: the one that logs enters an event that the other one
does not. -/
theorem commutes_logDebug (text : String) : Commutes World.muted (Service.logDebug text) := by
  intro w
  rw [Service.run_logDebug, Service.run_logDebug, w.logging_muted]
  exact congrArg (EStateM.Result.ok ()) (w.muted_logging text).symm

/-- The message is kept whether it was logged or not. -/
theorem commutes_debug (message : UInt32) : Commutes World.muted (Service.debug g message) :=
  (closed_textAt hg.serving.toReads message).bind fun text =>
    (commutes_logDebug text).bind fun _ => (World.commutes_note (.debugged text) rfl).bind fun _ =>
      commutes_onHost (Commutes.modify fun _ => rfl)

/-- No host function does anything else if debug messages are logged, whatever it is called on. -/
theorem commutes_run (f : HostFunction) (args : List Value) :
    Commutes World.muted (Service.run g f args) := by
  have hread (ptr : UInt32) : Commutes World.muted (Service.bytesAt g ptr) :=
    closed_bytesAt hg.serving.toReads ptr
  by_cases hf : f.onlyRemarks = true
  · exact closed_run hg.serving Host.remarkClosed_commutes hf args
  -- left are those that write, remove, open and step iterators, and `debug`
  unfold Service.run
  split
  case h_2 key value =>
    refine closed_nothing Commutes.compositional ((hread key).bind fun key => ?_)
    exact (hread value).bind fun value => commutes_onHost (Database.commutes_write key value)
  case h_3 key =>
    refine closed_nothing Commutes.compositional ((hread key).bind fun key => ?_)
    exact commutes_onHost (Database.commutes_remove key)
  case h_4 start stop order =>
    exact closed_one Commutes.compositional
      (closed_dbScan hg.serving Database.commutes_scan start stop order)
  case h_5 name =>
    exact closed_one Commutes.compositional (closed_dbNext hg.serving Database.commutes_next name)
  case h_13 message => exact closed_nothing Commutes.compositional (commutes_debug hg message)
  case h_16 => exact Commutes.throw _
  all_goals exact absurd rfl hf

/-- Nor does the frame of a host function that is called. -/
theorem commutes_serve (f : HostFunction) (args : List Value) :
    Commutes World.muted (Service.serve g f args) := by
  refine (World.commutes_note (.entered f) rfl).bind fun _ => ?_
  refine (commutes_observe (commutes_run hg f args)).bind fun result => ?_
  cases result with
  | ok results => exact (World.commutes_note (.returned f) rfl).bind fun _ => Commutes.pure _
  | error e => exact (World.commutes_note (.failed f e) rfl).bind fun _ => Commutes.throw _

end

/-! ## Calls -/

/-- The switch is no matter to the guest's own code, which does not reach the host. -/
theorem guestClosed_commutes : GuestClosed (Commuting World.muted) where
  toCompositional := Commutes.compositional
  trap _ := Commutes.throw _
  state := Commutes.get_bind (fun _ => rfl) fun _ => Commutes.pure _
  memory _ := Commutes.modify fun _ => rfl
  global _ _ := Commutes.modify fun _ => rfl

/-- Points are paid, or found missing, by both. -/
theorem commutes_pay (cost : Nat) : Commutes World.muted (pay cost) := by
  have hmeter (m : Meter) : Commutes World.muted (setMeter m) := Commutes.modify fun _ => rfl
  refine guestClosed_commutes.state.bind fun g => ?_
  dsimp only
  cases g.meter.pay? cost with
  | some m => exact (hmeter m).bind fun _ => World.commutes_note (.charged cost) rfl
  | none =>
    exact (hmeter _).bind fun _ => (World.commutes_note (.exhausted cost) rfl).bind fun _ =>
      Commutes.throw _

variable {l : Linked} {attached : Bool} {call : Caller}

/-- A trap of the guest is told alike as the failure of a host function. -/
theorem passing_commutes : Passing (Commuting World.muted) (Commuting World.muted) :=
  fun _ _ _ hx => hx.adaptExcept _

/-- The access to a running guest does not tell the switch if the calls of its functions do not. -/
theorem oblivious_access (hcall : ∀ f args, Commutes World.muted (call f args)) :
    Oblivious (access l attached call) where
  memory _ := rfl
  setMemory _ _ := rfl
  allocate := closed_allocate hostClosed_commutes passing_commutes fun f _ => hcall f

/-- Regions are taken back alike. -/
theorem commutes_deallocate (hcall : ∀ f args, Commutes World.muted (call f args))
    (ptr : UInt32) : Commutes World.muted ((access l attached call).deallocate ptr) :=
  closed_deallocate hostClosed_commutes passing_commutes (fun f _ => hcall f) ptr

/-- Calls do the same whether debug messages are logged, however deep they are nested. The induction
is on the fuel, as in `conforms_invoke`: a host function is given the access to the guest that calls
one level down make. -/
theorem commutes_invoke (fuel f : Nat) (args : List Value) :
    Commutes World.muted (invoke l attached fuel f args) := by
  induction fuel generalizing f args with
  | zero => exact closed_stuck guestClosed_commutes
  | succ fuel ih =>
    unfold invoke
    split
    · exact closed_stuck guestClosed_commutes
    · exact (commutes_serve (oblivious_access ih) _ args).adaptExcept _
    · have hcode : CodeLaw (Commuting World.muted) l.arity (invoke l attached fuel) fun _ => True :=
        codeLaw_of_pay guestClosed_commutes commutes_pay ih
      exact closed_functionExec guestClosed_commutes hcode trivial args

/-- A guest whose function is called from outside, be it an entry point or a start function, does
the same for both. -/
theorem commutes_call (f : Nat) (args : List Value) :
    Commutes World.muted (Guest.run l attached f args) :=
  guestClosed_commutes.state.bind fun _ => commutes_invoke _ f args

end Guest

end ContractHost
