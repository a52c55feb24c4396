import ContractHost.Proofs.Guest.Muted
import ContractHost.Proofs.Host.Access
import ContractHost.Proofs.Vm.Operations

/-!
# Logging is observation only

Of two machines one logs the debug messages of its guest and the other does not. Whatever guest is
built on them and whatever is done with it, they answer every operation alike, and what they are
afterwards differs in the switch and in what was logged alone: each operation commutes with taking
the two away (`commutes_perform`), and so does a run by induction on its operations (`run_muted`,
`answers_muted`). Of their logs one is the other without the lines of debug messages (`log_muted`).
-/

namespace ContractHost

/-! ## Entry points -/

namespace Entry

open World (muted)

variable {l : Guest.Linked} {α : Type}

/-- Failures are told to the embedder alike. -/
theorem commutes_serve {x : ServiceM α} (hx : Commutes muted x) : Commutes muted (serve x) :=
  hx.adaptExcept _

/-- That no points are left is told alike, as the meter is part of the guest. -/
theorem commutes_orExhausted {x : EmbedM α} (hx : Commutes muted x) :
    Commutes muted (orExhausted x) := by
  intro w
  have hw : x w.muted = endingIn muted (x w) := hx w
  simp only [EStateM.run, orExhausted, hw]
  cases x w with
  | ok a u => rfl
  | error e u => rfl

/-- Who has a guest at hand cannot tell the switch by it. -/
theorem oblivious_access (l : Guest.Linked) : Guest.Oblivious l.access :=
  Guest.oblivious_access Guest.commutes_call

/-- Arguments are placed alike, as the guest hands out the same regions. -/
theorem commutes_place (arg : Bytes) : Commutes muted (place l arg) :=
  commutes_orExhausted <| commutes_serve <|
    (Guest.closed_newBytes (oblivious_access l).serving.toHandles arg).bind fun _ => Commutes.pure _

/-- Entry points are called on the same pointers, and answer alike. -/
theorem commutes_call (name : String) (args : List Bytes) : Commutes muted (call l name args) := by
  refine closed_call Commutes.compositional commutes_place ?_ ?_ ?_ ?_ args
  · exact fun pointers => World.commutes_note _ rfl
  · intro f _ pointers
    have hrun : Commutes muted (runOn l f pointers) :=
      closed_runOn Guest.guestClosed_commutes (Guest.commutes_call f) pointers
    exact commutes_orExhausted (hrun.adaptExcept _)
  · exact Commutes.throw _
  · exact fun t => Commutes.throw _

end Entry

namespace Vm

open Guest (Linked)

/-- The machine with the switch off, and without what it logged while it was on. -/
def muted (vm : Vm) : Vm := { vm with host := vm.host.muted }

variable {α : Type}

/-! ## Operations -/

/-- What is done with a guest is done on either machine, or refused by both. -/
theorem commutes_onReady {x : Linked → Entry.EmbedM α} (hx : ∀ l, Commutes World.muted (x l)) :
    Commutes muted (onReady x) := by
  intro vm
  cases hi : vm.instance? with
  | none =>
    have hmuted : vm.muted.instance? = none := hi
    rw [(onGuest_onReady x).refused vm hi, (onGuest_onReady x).refused vm.muted hmuted]
    rfl
  | some i =>
    have hmuted : vm.muted.instance? = some i := hi
    have hrun : (x i.linked).run ⟨vm.muted.host, i.guest⟩ =
        endingIn World.muted ((x i.linked).run ⟨vm.host, i.guest⟩) := hx i.linked ⟨vm.host, i.guest⟩
    rw [run_onReady hi, run_onReady hmuted, hrun]
    cases (x i.linked).run ⟨vm.host, i.guest⟩ with
    | ok a w => rfl
    | error e w => rfl

/-- What is done to the host of a machine. -/
theorem commutes_onHost {x : EStateM VmError Host α} (hx : Commutes Host.muted x) :
    Commutes muted (onHost x) := by
  intro vm
  have hrun : x vm.muted.host = endingIn Host.muted (x vm.host) := hx vm.host
  simp only [EStateM.run, onHost, hrun]
  cases x vm.host with
  | ok a h => rfl
  | error e h => rfl

/-- A start function runs before the guest can be reached, and is no exception. -/
theorem commutes_start (l : Linked) (guest : Guest.State) :
    Commutes Host.muted (start l guest) := by
  unfold start
  split
  · exact Commutes.pure _
  · rename_i f _
    intro host
    have hrun : Guest.run l false f [] ⟨host.muted, guest⟩ =
        endingIn World.muted (Guest.run l false f [] ⟨host, guest⟩) :=
      Guest.commutes_call f [] ⟨host, guest⟩
    simp only [EStateM.run, onGuest, hrun]
    cases Guest.run l false f [] ⟨host, guest⟩ with
    | ok results w => rfl
    | error t w => rfl

/-- A module is bound, started and found fit on either machine, or on none. -/
theorem commutes_instantiate (m : Guest.Module) (gas : UInt64) :
    Commutes Host.muted (instantiate m gas) := by
  have hlast (linked : Linked) (guest : Guest.State) : Commutes Host.muted (do
      if !allocatorFits m then throw .environment
      return { linked, guest } : EStateM InstantiationFault Host Instance) := by
    split
    · exact Commutes.throw _
    · exact Commutes.pure _
  unfold instantiate
  cases m.link with
  | error e => exact Commutes.throw _
  | ok linked =>
    cases startState m gas with
    | none => exact Commutes.throw _
    | some guest =>
      exact ((commutes_start linked guest).adaptExcept _).bind fun guest => hlast linked _

/-- Of the configuration a build reads the limit of the gas alone. -/
theorem commutes_makeReady (m : Guest.Module) : Commutes muted (makeReady m) := by
  unfold makeReady
  cases m.missingExport? with
  | some name => exact Commutes.throw _
  | none =>
    refine Commutes.get_bind (fun _ => rfl) fun vm => ?_
    refine (commutes_onHost ((commutes_instantiate m _).adaptExcept _)).bind fun i => ?_
    have hbuilt (h : Host) : (h.noting (.built i.guest.meter.remaining)).muted =
        h.muted.noting (.built i.guest.meter.remaining) := h.muted_noting rfl
    refine (commutes_onHost (Commutes.modify fun h => (hbuilt h).symm)).bind fun _ => ?_
    exact Commutes.bind (Commutes.modify fun _ => rfl) fun _ => Commutes.modify fun _ => rfl

/-- A build is refused by both, or fails on both, or succeeds on both. -/
theorem commutes_build (compiled : Except String Guest.Module) :
    Commutes muted (build compiled) := by
  intro vm
  have hphase : vm.muted.phase = vm.phase := rfl
  rw [run_build, run_build, hphase]
  split
  · cases compiled with
    | error text => rfl
    | ok m => exact commutes_makeReady m { vm with phase := .built }
  · rfl

/-- Entry-point calls and the host's work on a guest commute, as guests and host functions do. -/
theorem working_commutes :
    Working (Commuting muted) fun _ => Commuting World.muted where
  toCompositional := Commutes.compositional
  fault := Commutes.throw
  call e args := commutes_onReady fun _ => Entry.commutes_call e.name args
  serve hx := commutes_onReady fun l => Entry.commutes_serve (hx l)
  handles l := (Entry.oblivious_access l).serving.toHandles
  deallocate _ := Guest.commutes_deallocate Guest.commutes_call

/-- No operation answers or does anything else if debug messages are logged. -/
theorem commutes_perform (op : Op) : Commutes muted op.perform := by
  by_cases hworks : op.Works
  · exact closed_perform working_commutes hworks
  cases op with
  | build compiled => exact commutes_build compiled
  | setRemainingGas gas =>
    show Commutes muted (setRemainingGas gas)
    refine commutes_onReady fun _ => ?_
    refine Commutes.bind (Commutes.modify fun _ => rfl) fun _ => ?_
    exact World.commutes_note (.refilled gas) rfl
  | clearDebugMessages => exact Commutes.modify fun _ => rfl
  | changeBackend f => exact Commutes.modify fun _ => rfl
  | _ => exact absurd trivial hworks

/-! ## Runs -/

/-- The operations of a run with their answers. -/
def answers (vm : Vm) : List Op → List ((op : Op) × Except VmError op.Answer)
  | [] => []
  | op :: ops => ⟨op, outcome (op.perform.run vm)⟩ :: answers (after vm op) ops

/-- An operation leaves machines that differ as before. -/
theorem after_muted (vm : Vm) (op : Op) : after vm.muted op = (after vm op).muted := by
  rw [after_eq_leaves_perform, after_eq_leaves_perform, commutes_perform op vm]
  cases op.perform.run vm with
  | ok a vm' => rfl
  | error e vm' => rfl

/-- An operation answers alike whether messages are logged or not. -/
theorem outcome_muted (vm : Vm) (op : Op) :
    outcome (op.perform.run vm.muted) = outcome (op.perform.run vm) := by
  rw [commutes_perform op vm]
  cases op.perform.run vm with
  | ok a vm' => rfl
  | error e vm' => rfl

/-- Two machines go on side by side. -/
theorem run_muted (vm : Vm) (ops : List Op) : run vm.muted ops = (run vm ops).muted := by
  induction ops generalizing vm with
  | nil => rfl
  | cons op ops ih => rw [run, run, after_muted, ih]

/-- They answer all operations alike. -/
theorem answers_muted (vm : Vm) (ops : List Op) : answers vm.muted ops = answers vm ops := by
  induction ops generalizing vm with
  | nil => rfl
  | cons op ops ih => rw [answers, answers, outcome_muted, after_muted, ih]

/-- A machine without a module has logged nothing yet. -/
theorem muted_new (config : Config) (backend : Backend) :
    (new config backend).muted = new { config with debugToLog := false } backend := rfl

end Vm

/-! ## The log -/

/-- Is a log line that of a debug message? The line of an abort has the same target at another
level. -/
def LogLine.isDebugMessage (line : LogLine) : Bool :=
  line.level == .debug && line.target == "contract_vm::guest"

/-- The events of logged messages leave the lines of debug messages, and no others do. -/
theorem Event.line?_filter (e : Event) :
    (e.line?.filter fun line => !line.isDebugMessage) = if !e.isLogged then e.line? else none := by
  cases e <;> simp [Event.line?, Event.isLogged, LogLine.isDebugMessage, Option.filter]

/-- Without the events of logged messages the log lacks the lines of debug messages. -/
theorem Journal.lines_filter (journal : Journal) :
    Journal.lines (journal.filter fun e => !e.isLogged) =
      journal.lines.filter fun line => !line.isDebugMessage := by
  have hline : (fun e : Event => e.line?.filter fun line => !line.isDebugMessage) =
      fun e => if !e.isLogged then e.line? else none := funext Event.line?_filter
  rw [lines, lines, ← List.filter_reverse, List.filterMap_filter, List.filter_filterMap, hline]

/-- A machine that logs no debug messages has all other lines. -/
theorem Vm.log_muted (vm : Vm) : vm.muted.log = vm.log.filter fun line => !line.isDebugMessage :=
  Journal.lines_filter vm.host.journal

end ContractHost
