import ContractHost.Proofs.Guest.Runs
import ContractHost.Proofs.Guest.Work

/-!
# Host functions at work, and calls between host and guest

The host reaches into a guest through its memory and its allocator, so its work obeys a law of
memory and failures if the allocator it is given does (`HostLaw`, `LawfulAccess`). Host functions
make remarks besides (`RemarkLaw`), and those that open or step iterators take turns of the host
(`ServiceLaw`). All but five do nothing else than reading, remarking and answering (`obeys_run`);
`dbWrite`, `dbRemove` and `debug` end with one effect if they succeed (`serves_run`).

The access to a running guest is lawful if the calls of its allocator are. That all calls conform
and the access does are tied together by induction on how deep calls are nested (`conforms_invoke`).
So every run of a guest is one in the sense of `Runs`, whoever begins it (`conforms_run`).
-/

namespace ContractHost

/-- The world in which a debug message was logged, if the configuration asks for that. -/
def World.logging (w : World) (text : String) : World :=
  if w.host.config.debugToLog then w.noting (.logged text) else w

/-- Logging a debug message never fails. -/
theorem Service.run_logDebug (text : String) (w : World) :
    (logDebug text).run w = .ok () (w.logging text) := by
  simp only [logDebug, World.logging, EStateM.run_bind, EStateM.run_get]
  split
  · rfl
  · rfl

namespace Guest

open World (onHost observe)
open Host (Turns Remarks)

/-! ## Laws of the host's work -/

/-- A law that the host obeys where it reaches into a guest: it puts another memory in place, or it
fails. -/
class HostLaw (P : World → Option HostFault → World → Prop) : Prop extends Sequential P where
  memory (w : World) (m : Memory) : P w none (w.setMemory m)
  fault (w : World) (e : HostFault) : P w (some e) w

/-- A law that the host obeys where it also remarks on its work. -/
class RemarkLaw (P : World → Option HostFault → World → Prop) : Prop extends HostLaw P where
  remark {w : World} {h : Host} (remarks : w.host.Remarks h) : P w none { w with host := h }

/-- A law that host functions obey in all but their effects: they take turns of the host, too. -/
class ServiceLaw (P : World → Option HostFault → World → Prop) : Prop extends HostLaw P where
  turn {w : World} {h : Host} (turn : w.host.Turns h) : P w none { w with host := h }

variable {P : World → Option HostFault → World → Prop} {α : Type}

section
variable [HostLaw P]

/-- Failing is allowed by every law of the host. -/
theorem obeys_fault (e : HostFault) : Obeys P (throw e : ServiceM α) :=
  fun w => HostLaw.fault w e

theorem obeys_replaceMemory (m : Memory) :
    Obeys P (modify (World.setMemory m) : ServiceM PUnit) := fun w => HostLaw.memory w m

/-- Reading obeys, as it leaves the world as it is. -/
theorem obeys_of_reads {x : ServiceM α} (hx : Moves Eq x) : Obeys P x := by
  intro w
  cases hrun : x.run w with
  | ok a u =>
    cases hx.of_ok hrun
    exact Sequential.done w
  | error e u =>
    cases hx.of_error hrun
    exact HostLaw.fault w e

end

/-- An operation of the host leaves the guest alone. -/
theorem run_onHost {ε : Type} (x : EStateM ε Host α) (w : World) :
    (onHost x).run w = match x.run w.host with
      | .ok a host => .ok a { w with host }
      | .error e host => .error e { w with host } := by
  simp only [EStateM.run, onHost]
  cases x w.host with
  | ok a host => rfl
  | error e host => rfl

/-- An operation of the host succeeds in a world exactly if it does on the host there. -/
theorem run_onHost_eq_ok {ε : Type} {x : EStateM ε Host α} {w u : World} {a : α} :
    (onHost x).run w = .ok a u ↔ ∃ h, x.run w.host = .ok a h ∧ { w with host := h } = u := by
  rw [run_onHost]
  cases x.run w.host with
  | ok b h =>
    rw [EStateM.Result.ok.injEq]
    constructor
    · rintro ⟨rfl, hu⟩
      exact ⟨h, rfl, hu⟩
    · rintro ⟨_, hrun, hu⟩
      cases hrun
      exact ⟨rfl, hu⟩
  | error e h => exact iff_of_false nofun fun ⟨_, hrun, _⟩ => nomatch hrun

/-- An operation of the host fails in a world exactly if it does on the host there. -/
theorem run_onHost_eq_error {ε : Type} {x : EStateM ε Host α} {w u : World} {e : ε} :
    (onHost x).run w = .error e u ↔ ∃ h, x.run w.host = .error e h ∧ { w with host := h } = u := by
  rw [run_onHost]
  cases x.run w.host with
  | error e' h =>
    rw [EStateM.Result.error.injEq]
    constructor
    · rintro ⟨rfl, hu⟩
      exact ⟨h, rfl, hu⟩
    · rintro ⟨_, hrun, hu⟩
      cases hrun
      exact ⟨rfl, hu⟩
  | ok a h => exact iff_of_false nofun fun ⟨_, hrun, _⟩ => nomatch hrun

section
variable [HostLaw P] {R : Host → Host → Prop}
  (hR : ∀ {w : World} {h : Host}, R w.host h → P w none { w with host := h })
include hR

/-- An operation of the host obeys a law of the worlds if what it does to the host does. -/
theorem obeys_onHost {x : HostM α} (hx : Moves R x) : Obeys P (onHost x) := by
  intro w
  rw [run_onHost]
  cases hrun : x.run w.host with
  | ok a h => exact hR (hx.of_ok hrun)
  -- what was done is not taken back by the failure behind it
  | error e h => exact Sequential.trans (hR (hx.of_error hrun)) (HostLaw.fault _ e)

omit [HostLaw P] in
/-- A failure that is observed is none. -/
theorem obeys_observe {x : HostM α} (hx : Moves R x) :
    Obeys P (observe (onHost x) : ServiceM _) := by
  intro w
  simp only [EStateM.run, observe, onHost]
  cases hrun : x w.host with
  | ok a h => exact hR (hx.of_ok hrun)
  | error e h => exact hR (hx.of_error hrun)

end

/-- Remarks are turns. -/
instance remarkLaw_of_serviceLaw [ServiceLaw P] : RemarkLaw P where
  remark remarks := ServiceLaw.turn remarks.turns

/-- To log a debug message is a remark, or nothing. -/
theorem obeys_logDebug [RemarkLaw P] (text : String) : Obeys P (Service.logDebug text) := by
  refine Obeys.get.bind fun w => ?_
  split
  · exact fun w => RemarkLaw.remark (w.host.remarks_noting (e := .logged text) trivial)
  · exact Obeys.pure _

/-! ## Reaching into a guest -/

/-- An access to a guest that changes nothing but its memory, and whose allocator obeys a law. -/
structure LawfulAccess (P : World → Option HostFault → World → Prop) (g : Access World) : Prop where
  setMemory : g.setMemory = World.setMemory
  allocate : ∀ size, Obeys P (g.allocate size)

section
variable {g : Access World}

/-- Looking at the guest's memory changes nothing. -/
theorem reads_eq : Reads (Moving Eq) g where
  toCompositional := Moves.compositional
  fault := Moves.throw
  view := by
    refine Moves.get.bind fun w => ?_
    cases g.memory w with
    | ok m => exact Moves.pure m
    | error e => exact Moves.throw _

/-- Reading behind a pointer leaves the world as it is, whether it succeeds or fails. -/
theorem reads_bytesAt (ptr : UInt32) : Moves Eq (Service.bytesAt g ptr) :=
  closed_bytesAt reads_eq ptr

/-- Reading behind a pointer that may be zero leaves the world as it is, too. -/
theorem reads_optionalBytesAt (ptr : UInt32) : Moves Eq (Service.bytesAt? g ptr) :=
  closed_optionalBytesAt reads_eq ptr

variable [HostLaw P]

/-- To obey a law of the host's work is a property of that sort. -/
theorem hostClosed_obeys : HostClosed (Obeying P) where
  toCompositional := Obeys.compositional
  fault := obeys_fault

/-- What only looks at the memory obeys every law of the host. -/
theorem reads_obeys : Reads (Obeying P) g where
  toHostClosed := hostClosed_obeys
  view := obeys_of_reads reads_eq.view

theorem obeys_textAt (ptr : UInt32) : Obeys P (Service.textAt g ptr) :=
  closed_textAt reads_obeys ptr

variable (hg : LawfulAccess P g)
include hg

/-- By such an access regions are handed out as the law says. -/
theorem LawfulAccess.handles : Handles (Obeying P) g where
  toReads := reads_obeys
  setMemory m := by
    rw [hg.setMemory]
    exact obeys_replaceMemory m
  allocate := hg.allocate

/-- What operations do to the host, they do to it for a guest. -/
theorem LawfulAccess.serving {R : Host → Host → Prop}
    (hR : ∀ {w : World} {h : Host}, R w.host h → P w none { w with host := h }) :
    Serving (Obeying P) (Moving R) g where
  toHandles := hg.handles
  onHost := obeys_onHost hR
  observe := obeys_observe hR
  backend hk := Obeys.get.bind fun _ => hk _ _

/-- A new region is handed out as the law says of the allocator. -/
theorem obeys_newRegion (size : Nat) : Obeys P (g.newRegion size) :=
  closed_newRegion hg.handles size

/-- A region with bytes in it is handed out as the law says of the allocator. -/
theorem obeys_newBytes (data : Bytes) : Obeys P (g.newBytes data) := closed_newBytes hg.handles data

theorem obeys_answer (data : Bytes) : Obeys P (Service.answer g data) :=
  closed_answer hg.handles data

omit [HostLaw P] in
/-- A host function that only remarks on its work obeys a law that allows it, whatever it is called
on. -/
theorem obeys_run [RemarkLaw P] {f : HostFunction} (hf : f.onlyRemarks = true)
    (args : List Value) : Obeys P (Service.run g f args) :=
  closed_run (hg.serving RemarkLaw.remark) Host.remarkClosed_remarks hf args

end

/-! ## Host functions -/

/-- What a host function does: if it succeeds it obeys a law up to its effect, with which it ends,
and if it fails it had none. -/
def Serves (P : World → Option HostFault → World → Prop) (f : HostFunction) (x : ServiceM α) :
    Prop :=
  ∀ w, match x.run w with
    | .ok _ u => ∃ v h, P w none v ∧ Effect f v.host h ∧ u = { v with host := h }
    | .error e u => P w (some e) u

namespace Serves

variable {f : HostFunction} {β : Type}

theorem throw [HostLaw P] (e : HostFault) : Serves P f (throw e : ServiceM α) :=
  fun w => HostLaw.fault w e

/-- A host function that obeys all along has no effect. -/
theorem of_obeys (hf : f ≠ .dbWrite ∧ f ≠ .dbRemove ∧ f ≠ .debug) {x : ServiceM α}
    (hx : Obeys P x) : Serves P f x := by
  intro w
  cases hrun : x.run w with
  | ok a u => exact ⟨u, u.host, hx.of_ok hrun, .none hf u.host, rfl⟩
  | error e u => exact hx.of_error hrun

/-- What comes before the effect. -/
theorem after [Sequential P] {x : ServiceM α} {k : α → ServiceM β} (hx : Obeys P x)
    (hk : ∀ a, Serves P f (k a)) : Serves P f (x >>= k) := by
  intro w
  rw [EStateM.run_bind]
  cases hrun : x.run w with
  | error e v => exact hx.of_error hrun
  | ok a v =>
    have hwv : P w none v := hx.of_ok hrun
    have hv := hk a v
    simp only
    cases hrun' : (k a).run v with
    | error e u =>
      rw [hrun'] at hv
      exact Sequential.trans hwv hv
    | ok b u =>
      rw [hrun'] at hv
      obtain ⟨v', h, hv', heffect, hu⟩ := hv
      exact ⟨v', h, Sequential.trans hwv hv', heffect, hu⟩

/-- Nothing is done after the effect but answering. -/
theorem answering {x : ServiceM α} (hx : Serves P f x) (b : β) :
    Serves P f (x >>= fun _ => pure b) := by
  intro w
  have hw := hx w
  rw [EStateM.run_bind]
  cases hrun : x.run w with
  | ok a u =>
    rw [hrun] at hw
    exact hw
  | error e u =>
    rw [hrun] at hw
    exact hw

end Serves

section
variable {g : Access World}

/-- A reading fails or answers something. -/
theorem bytesAt_cases (g : Access World) (ptr : UInt32) (w : World) :
    (∃ e, (Service.bytesAt g ptr).run w = .error e w) ∨
      ∃ bs, (Service.bytesAt g ptr).run w = .ok bs w := by
  cases hrun : (Service.bytesAt g ptr).run w with
  | error e u =>
    cases (reads_bytesAt ptr).of_error hrun
    exact .inl ⟨e, rfl⟩
  | ok bs u =>
    cases (reads_bytesAt ptr).of_ok hrun
    exact .inr ⟨bs, rfl⟩

/-- A `dbWrite` that succeeds gives the key behind its first pointer the value behind its second,
and one that fails does nothing. -/
theorem dbWrite_cases (g : Access World) (key value : UInt32) (w : World) :
    (∃ e, (Service.dbWrite g key value).run w = .error e w) ∨
    ∃ k v, (Service.bytesAt g key).run w = .ok k w ∧ (Service.bytesAt g value).run w = .ok v w ∧
      (Service.dbWrite g key value).run w = .ok ()
        { w with host := (w.host.setStore (w.host.store.insert k v)).noting (.wrote k v) } := by
  simp only [Service.dbWrite, EStateM.run_bind]
  obtain ⟨e, hkey⟩ | ⟨k, hkey⟩ := bytesAt_cases g key w
  · rw [hkey]
    exact .inl ⟨e, rfl⟩
  obtain ⟨e, hvalue⟩ | ⟨v, hvalue⟩ := bytesAt_cases g value w
  · rw [hkey]
    simp only [hvalue]
    exact .inl ⟨e, rfl⟩
  rw [hkey]
  simp only [hvalue, run_onHost]
  obtain ⟨e, hrun⟩ | hrun := Database.run_write_cases k v w.host
  · rw [hrun]
    exact .inl ⟨e, rfl⟩
  · rw [hrun]
    exact .inr ⟨k, v, rfl, rfl, rfl⟩

/-- A `dbRemove` that succeeds takes out the key behind its pointer, and one that fails does
nothing. -/
theorem dbRemove_cases (g : Access World) (key : UInt32) (w : World) :
    (∃ e, (Service.dbRemove g key).run w = .error e w) ∨
    ∃ k, (Service.bytesAt g key).run w = .ok k w ∧ (Service.dbRemove g key).run w =
      .ok () { w with host := (w.host.setStore (w.host.store.erase k)).noting (.removed k) } := by
  simp only [Service.dbRemove, EStateM.run_bind]
  obtain ⟨e, hkey⟩ | ⟨k, hkey⟩ := bytesAt_cases g key w
  · rw [hkey]
    exact .inl ⟨e, rfl⟩
  rw [hkey]
  simp only [run_onHost]
  obtain ⟨e, hrun⟩ | hrun := Database.run_remove_cases k w.host
  · rw [hrun]
    exact .inl ⟨e, rfl⟩
  · rw [hrun]
    exact .inr ⟨k, rfl, rfl⟩

section
variable [ServiceLaw P]

/-- A write ends with its effect, and one that is refused has none. -/
theorem serves_dbWrite (key value : UInt32) :
    Serves P .dbWrite (Service.dbWrite g key value) := by
  intro w
  obtain ⟨e, hrun⟩ | ⟨k, v, -, -, hrun⟩ := dbWrite_cases g key value w
  · rw [hrun]
    exact HostLaw.fault w e
  · rw [hrun]
    exact ⟨w, _, Sequential.done w, .wrote w.host k v, rfl⟩

/-- A removal ends with its effect, and one that is refused has none. -/
theorem serves_dbRemove (key : UInt32) :
    Serves P .dbRemove (Service.dbRemove g key) := by
  intro w
  obtain ⟨e, hrun⟩ | ⟨k, -, hrun⟩ := dbRemove_cases g key w
  · rw [hrun]
    exact HostLaw.fault w e
  · rw [hrun]
    exact ⟨w, _, Sequential.done w, .removed w.host k, rfl⟩

/-- Whether a debug message is logged is settled before it is kept, which is the effect. -/
theorem serves_debug (message : UInt32) : Serves P .debug (Service.debug g message) :=
  Serves.after (obeys_textAt message) fun text =>
    Serves.after (obeys_logDebug text) fun _ w =>
      ⟨w, _, Sequential.done w, .said w.host text, rfl⟩

variable (hg : LawfulAccess P g)
include hg

/-- Whatever a host function is called on, it ends with its effect if it succeeds, and without one
if it fails. -/
theorem serves_run (f : HostFunction) (args : List Value) :
    Serves P f (Service.run g f args) := by
  by_cases hf : f.onlyRemarks = true
  · exact .of_obeys (f.noEffect_of_onlyRemarks hf) (obeys_run hg hf args)
  have hserving : Serving (Obeying P) (Moving Turns) g := hg.serving ServiceLaw.turn
  unfold Service.run
  split
  case h_2 key value => exact (serves_dbWrite key value).answering []
  case h_3 key => exact (serves_dbRemove key).answering []
  case h_4 start stop order =>
    exact .of_obeys (by decide) (closed_one Obeys.compositional
      (closed_dbScan hserving Database.turns_scan start stop order))
  case h_5 name =>
    exact .of_obeys (by decide) (closed_one Obeys.compositional
      (closed_dbNext hserving Database.turns_next name))
  case h_13 message => exact (serves_debug message).answering []
  case h_16 => exact .throw _
  all_goals exact absurd rfl hf

end

end

/-! ## Calls -/

/-- A host function at work is framed by two events: that it was entered, and how it ended. -/
theorem run_serve (g : Access World) (f : HostFunction) (args : List Value) (w : World) :
    (Service.serve g f args).run w =
      match (Service.run g f args).run (w.noting (.entered f)) with
      | .ok results v => .ok results (v.noting (.returned f))
      | .error e v => .error e (v.noting (.failed f e)) := by
  simp only [Service.serve, EStateM.run_bind, World.run_note]
  cases hrun : (Service.run g f args).run (w.noting (.entered f)) with
  | ok results v =>
    have hobserve : (observe (Service.run g f args) : ServiceM _).run (w.noting (.entered f)) =
        .ok (.ok results) v := by
      simp only [EStateM.run, observe] at hrun ⊢
      rw [hrun]
    rw [hobserve]
    rfl
  | error e v =>
    have hobserve : (observe (Service.run g f args) : ServiceM _).run (w.noting (.entered f)) =
        .ok (.error e) v := by
      simp only [EStateM.run, observe] at hrun ⊢
      rw [hrun]
    rw [hobserve]
    rfl

/-- A host function that is called comes back exactly if it succeeds, and both ends are noted. -/
theorem run_serve_eq_ok {g : Access World} {f : HostFunction} {args results : List Value}
    {w u : World} : (Service.serve g f args).run w = .ok results u ↔
      ∃ v, (Service.run g f args).run (w.noting (.entered f)) = .ok results v ∧
        u = v.noting (.returned f) := by
  rw [run_serve]
  cases (Service.run g f args).run (w.noting (.entered f)) with
  | error e v =>
    refine iff_of_false nofun ?_
    rintro ⟨v', h, -⟩
    cases h
  | ok results' v =>
    constructor
    · intro h
      cases h
      exact ⟨v, rfl, rfl⟩
    · rintro ⟨v', h, rfl⟩
      cases h
      rfl

section
variable {l : Linked} {attached : Bool} {call : Caller} {Q : World → Option Trap → World → Prop}

/-- What a call of the guest has, a host function has that has it made, whose failure is the guest's
trap. -/
def Passing (C : (α : Type) → RunM α → Prop) (D : (α : Type) → ServiceM α → Prop) : Prop :=
  ∀ (label : String) {α : Type} {x : RunM α}, C α x → D α (access.attempt label x)

section
variable {C : (α : Type) → RunM α → Prop} {D : (α : Type) → ServiceM α → Prop} (hD : HostClosed D)
include hD

/-- The function that is exported under a name is looked up for what is done with it. -/
theorem closed_exported {name : String} {signature : Signature} {k : Nat → ServiceM α}
    (hk : ∀ f, l.module.exportedFunction? name = some f → D α (k f)) :
    D α (access.exported l name signature >>= k) := by
  have hfault : D α (throw (.memory .incompatibleExport)) := hD.fault _
  unfold access.exported
  split
  · rename_i f hf
    split
    · exact hk f hf
    · exact hfault
  · exact hfault

variable (hpass : Passing C D)
include hpass

/-- The allocator is looked up and called; before the guest can be reached that fails, and so does
an answer that is no pointer. -/
theorem closed_allocate (hcall : ∀ f, l.module.exportedFunction? Module.allocateName = some f →
    ∀ args, C _ (call f args)) (size : UInt32) : D _ ((access l attached call).allocate size) := by
  unfold access
  dsimp only
  split
  · exact hD.fault _
  · refine closed_exported hD fun f hf => hD.bind (hpass _ (hcall f hf _)) fun results => ?_
    split
    · exact hD.pure _
    · exact hD.fault _

/-- Taking back goes the same way, and what the guest answers is forgotten. -/
theorem closed_deallocate (hcall : ∀ f, l.module.exportedFunction? Module.deallocateName = some f →
    ∀ args, C _ (call f args)) (ptr : UInt32) :
    D _ ((access l attached call).deallocate ptr) := by
  unfold access
  dsimp only
  split
  · exact hD.fault _
  · exact closed_exported hD fun f hf => hD.bind (hpass _ (hcall f hf _)) fun _ => hD.pure _

end

/-- What a call of the guest obeys, a host function obeys that has it made, and that fails if the
guest traps. -/
structure Passes (Q : World → Option Trap → World → Prop)
    (P : World → Option HostFault → World → Prop) : Prop where
  ok {w u : World} (h : Q w none u) : P w none u
  trap {w u : World} {t : Trap} (label : String) (h : Q w (some t) u) :
    P w (some (.runtime [s!"{label}: {t.message}"])) u

/-- To obey such laws is a property that passes from the guest to the host. -/
theorem Passes.passing (hpass : Passes Q P) : Passing (Obeying Q) (Obeying P) :=
  fun label _ _ hx => hx.adaptExcept hpass.ok (hpass.trap label)

variable [HostLaw P]

/-- The access to a running guest is lawful if the calls of its allocator are. -/
theorem lawfulAccess_access (hpass : Passes Q P)
    (hcall : ∀ f, l.module.exportedFunction? Module.allocateName = some f →
      ∀ args, Obeys Q (call f args)) :
    LawfulAccess P (access l attached call) where
  setMemory := rfl
  allocate := closed_allocate hostClosed_obeys hpass.passing hcall

/-- Taking a region back obeys what the calls of the guest's own function obey. -/
theorem obeys_deallocate (hpass : Passes Q P)
    (hcall : ∀ f, l.module.exportedFunction? Module.deallocateName = some f →
      ∀ args, Obeys Q (call f args)) (ptr : UInt32) :
    Obeys P ((access l attached call).deallocate ptr) :=
  closed_deallocate hostClosed_obeys hpass.passing hcall ptr

end

/-! ## All calls conform -/

variable {l : Linked} {attached : Bool}

/-- An operation of the host on a guest only does what host functions do. -/
abbrev HostConforms (l : Linked) (attached : Bool) {α : Type} (x : ServiceM α) : Prop :=
  Conforms l attached .host Trap.host x

instance serviceLaw_runsTo : ServiceLaw (RunsTo l attached .host Trap.host) where
  memory _ m := .memory m .done
  fault _ _ := .fault
  turn turn := .turn turn .done

/-- A trap of the allocator is a failure of the host function that had it run. -/
theorem passes_runsTo :
    Passes (RunsTo l attached .guest id) (RunsTo l attached .host Trap.host) where
  ok h := .allocator h .done
  trap label h := .trapped label h

/-- The call of a host function by the guest, given that the access to the guest is lawful. -/
theorem conforms_serve {fuel : Nat} (hg : LawfulAccess (RunsTo l attached .host Trap.host)
      (access l attached (invoke l attached fuel))) (f : HostFunction) (args : List Value) :
    GuestConforms l attached (EStateM.adaptExcept Trap.host
      (Service.serve (access l attached (invoke l attached fuel)) f args)) := by
  intro w
  have hserve := run_serve (access l attached (invoke l attached fuel)) f args w
  have hinner := serves_run hg f args (w.noting (.entered f))
  cases hrun : (Service.run (access l attached (invoke l attached fuel)) f args).run
      (w.noting (.entered f)) with
  | ok results u =>
    rw [hrun] at hserve hinner
    -- the run of the host function on the guest, and its effect, are one step of the caller
    obtain ⟨v, h, hruns, heffect, rfl⟩ := hinner
    rw [EStateM.run] at hserve
    simp only [EStateM.run, EStateM.adaptExcept, hserve]
    exact .returned hruns heffect .done
  | error e v =>
    rw [hrun] at hserve hinner
    have hfailed := Runs.failed hinner hserve
    rw [EStateM.run] at hserve
    simp only [EStateM.run, EStateM.adaptExcept, hserve]
    exact hfailed

/-- Calls conform, however deep they are nested. The induction is on the fuel, by which a call knows
less than the one around it. -/
theorem conforms_invoke (fuel f : Nat) (args : List Value) :
    GuestConforms l attached (invoke l attached fuel f args) := by
  induction fuel generalizing f args with
  | zero => exact obeys_stuck
  | succ fuel ih =>
    unfold invoke
    split
    · exact obeys_stuck
    · exact conforms_serve (lawfulAccess_access passes_runsTo fun f _ => ih f) _ args
    · rename_i g hcallee
      have hcharges (cost : Nat) (hc : g.body.Charges cost) : l.Charges cost :=
        ⟨g, mem_functions_of_callee? hcallee, hc⟩
      exact obeys_functionExec (codeLaw_runsTo ih) hcharges args

/-- A function that is called from outside conforms, whoever calls it. -/
theorem conforms_run (f : Nat) (args : List Value) :
    GuestConforms l attached (Guest.run l attached f args) :=
  obeys_guest.bind fun _ => conforms_invoke _ f args

/-- The embedder's access to a guest that is ready is lawful. -/
theorem lawfulAccess (l : Linked) : LawfulAccess (RunsTo l true .host Trap.host) l.access :=
  lawfulAccess_access passes_runsTo fun f _ => conforms_run f

/-- Handing a region back conforms. -/
theorem conforms_deallocate (l : Linked) (ptr : UInt32) :
    HostConforms l true (l.access.deallocate ptr) :=
  obeys_deallocate passes_runsTo (fun f _ => conforms_run f) ptr

end Guest

end ContractHost
