import ContractHost.Guest.Machine
import ContractHost.Proofs.Host.Turns

/-!
# Runs of a guest

`Runs` tells step by step how a guest and the host functions that it calls change the world, and how
that ends. A run of the guest works on the memory, on the globals and on the points, and calls host
functions; a host function takes turns of the host, works on the memory and has the guest's
allocator run. The two are one relation with two sides, as either runs inside the other.

The relation follows no instructions: it says what all code can do and nothing of when, but that the
charges which it comes to stand in the code. That code does nothing else is `Conforms`. What every
step of a run keeps, a run keeps, by induction on `Runs`. What matters to the host alone is a
`HistoryLaw`, and needs no induction any more (`Runs.history`).

Code has any property that its operations, its charges and its calls have, if a sequence has it
whose parts do (`closed_codeExec`). To obey a law is such a property: that code conforms is one such
law, and others ask of the code that its charges stand where they should.
-/

namespace ContractHost

/-- The world with one more event in its journal. -/
def World.noting (w : World) (e : Event) : World := { w with host := w.host.noting e }

@[simp] theorem World.run_note {ε : Type} (e : Event) (w : World) :
    (World.note e : EStateM ε World Unit).run w = .ok () (w.noting e) := rfl

/-- What a host function that comes back did last. All but three only took turns before. -/
inductive Effect : HostFunction → Host → Host → Prop where
  | wrote (h : Host) (key value : Bytes) :
    Effect .dbWrite h ((h.setStore (h.store.insert key value)).noting (.wrote key value))
  | removed (h : Host) (key : Bytes) :
    Effect .dbRemove h ((h.setStore (h.store.erase key)).noting (.removed key))
  | said (h : Host) (text : String) :
    Effect .debug h { h.noting (.debugged text) with messages := h.messages ++ [text] }
  | none {f : HostFunction} (hf : f ≠ .dbWrite ∧ f ≠ .dbRemove ∧ f ≠ .debug) (h : Host) :
    Effect f h h

/-- An event by which nothing of a host changes: it only tells what guest or embedder do. -/
def Event.IsNotice : Event → Prop
  | .charged _ | .exhausted _ | .entered _ | .failed _ _ | .calling _ _ | .built _ | .refilled _ =>
    True
  | _ => False

/-- A law of what becomes of a host that all obey that happens to it while guests run: a notice, a
host function that comes back with its effect, and a turn. -/
class HistoryLaw (R : Host → Host → Prop) : Prop extends IsPreorder Host R where
  notice (h : Host) {e : Event} (he : e.IsNotice) : R h (h.noting e)
  effect {f : HostFunction} {h h' : Host} (effect : Effect f h h') :
    R h (h'.noting (.returned f))
  turn {h h' : Host} (turn : h.Turns h') : R h h'

namespace Guest

/-- The two sides on which something runs. -/
inductive Side where
  | guest
  | host

/-- Does a charge of this cost stand in code? -/
def Code.Charges (cost : Nat) : Code → Prop
  | .done | .br _ | .ret => False
  | .op _ rest | .call _ rest | .brIf _ rest => rest.Charges cost
  | .charge c rest => c = cost ∨ rest.Charges cost
  | .block body rest | .loop body rest => body.Charges cost ∨ rest.Charges cost
  | .choose yes no rest => yes.Charges cost ∨ no.Charges cost ∨ rest.Charges cost

/-- Does a charge of this cost stand in a function that the module brings along? -/
def Linked.Charges (l : Linked) (cost : Nat) : Prop :=
  ∃ f ∈ l.module.functions, f.body.Charges cost

/-- Was a trap raised by a host function? -/
def Trap.IsHost : Trap → Prop
  | .host _ => True
  | _ => False

/-- The world after a run and the trap in which it ended, if it did. On the side of the host every
trap is that of the host function at work. -/
inductive Runs (l : Linked) (attached : Bool) : Side → World → Option Trap → World → Prop where
  | done {s : Side} {w : World} : Runs l attached s w none w
  | memory {s : Side} {w u : World} {o : Option Trap} (m : Memory)
    (rest : Runs l attached s (w.setMemory m) o u) : Runs l attached s w o u
  | globals {w u : World} {o : Option Trap} (vs : List Value)
    (rest : Runs l attached .guest { w with guest := { w.guest with globals := vs } } o u) :
    Runs l attached .guest w o u
  | trap {w : World} {t : Trap} (ht : ¬ t.IsHost) : Runs l attached .guest w (some t) w
  | charged {w u : World} {o : Option Trap} {cost : Nat} {m : Meter} (stands : l.Charges cost)
    (paid : w.guest.meter.pay? cost = some m)
    (rest : Runs l attached .guest
      (World.noting { w with guest := { w.guest with meter := m } } (.charged cost)) o u) :
    Runs l attached .guest w o u
  | exhausted {w : World} {cost : Nat} (stands : l.Charges cost)
    (unpaid : w.guest.meter.pay? cost = none) :
    Runs l attached .guest w (some .unreachable)
      (World.noting
        { w with guest := { w.guest with meter := { w.guest.meter with exhausted := true } } }
        (.exhausted cost))
  | returned {w v u : World} {h : Host} {o : Option Trap} {f : HostFunction}
    (inner : Runs l attached .host (w.noting (.entered f)) none v) (effect : Effect f v.host h)
    (rest : Runs l attached .guest (World.noting { v with host := h } (.returned f)) o u) :
    Runs l attached .guest w o u
  | failed {w v : World} {fuel : Nat} {f : HostFunction} {args : List Value} {e : HostFault}
    (inner : Runs l attached .host (w.noting (.entered f)) (some (.host e)) v)
    (served : (Service.serve (access l attached (invoke l attached fuel)) f args).run w =
      .error e (v.noting (.failed f e))) :
    Runs l attached .guest w (some (.host e)) (v.noting (.failed f e))
  | fault {w : World} {e : HostFault} : Runs l attached .host w (some (.host e)) w
  | turn {w u : World} {h : Host} {o : Option Trap} (turn : w.host.Turns h)
    (rest : Runs l attached .host { w with host := h } o u) : Runs l attached .host w o u
  | allocator {w v u : World} {o : Option Trap} (inner : Runs l attached .guest w none v)
    (rest : Runs l attached .host v o u) : Runs l attached .host w o u
  | trapped {w v : World} {t : Trap} (label : String)
    (inner : Runs l attached .guest w (some t) v) :
    Runs l attached .host w (some (.host (.runtime [s!"{label}: {t.message}"]))) v

/-- A run goes on where another one came to its end. -/
theorem Runs.trans {l : Linked} {attached : Bool} {s : Side} {w v u : World} {o : Option Trap}
    (h : Runs l attached s w none v)
    (h' : Runs l attached s v o u) : Runs l attached s w o u := by
  generalize hend : (none : Option Trap) = o₁ at h
  induction h with
  | done => exact h'
  | memory m _ ih => exact .memory m (ih h' hend)
  | globals vs _ ih => exact .globals vs (ih h' hend)
  | charged stands paid _ ih => exact .charged stands paid (ih h' hend)
  | returned inner effect _ _ ih => exact .returned inner effect (ih h' hend)
  | turn turn _ ih => exact .turn turn (ih h' hend)
  | allocator inner _ _ ih => exact .allocator inner (ih h' hend)
  | trap | exhausted | failed | fault | trapped => cases hend

/-! ## Laws of the host's history -/

/-- Every step of a run obeys a law of the host's history, so the run does. -/
theorem Runs.history {R : Host → Host → Prop} [HistoryLaw R] {l : Linked} {attached : Bool}
    {s : Side} {w u : World} {o : Option Trap} (h : Runs l attached s w o u) :
    R w.host u.host := by
  induction h with
  | done | trap | fault => exact Std.Refl.refl _
  | memory _ _ ih | globals _ _ ih | trapped _ _ ih => exact ih
  | @charged w _ _ cost _ _ _ _ ih =>
    have hcharged : R w.host (w.host.noting (.charged cost)) := HistoryLaw.notice _ trivial
    exact IsTrans.trans _ _ _ hcharged ih
  | exhausted => exact HistoryLaw.notice _ trivial
  | @returned w _ _ _ _ f _ effect _ ihinner ihrest =>
    -- the four steps of a call: it is entered, runs, has its effect on the host, and returns
    have hentered : R w.host (w.host.noting (.entered f)) := HistoryLaw.notice _ trivial
    have hreturned := HistoryLaw.effect (R := R) effect
    exact IsTrans.trans _ _ _ hentered
      (IsTrans.trans _ _ _ ihinner (IsTrans.trans _ _ _ hreturned ihrest))
  | @failed w v _ f _ e _ _ ih =>
    have hentered : R w.host (w.host.noting (.entered f)) := HistoryLaw.notice _ trivial
    have hfailed : R v.host (v.host.noting (.failed f e)) := HistoryLaw.notice _ trivial
    exact IsTrans.trans _ _ _ hentered (IsTrans.trans _ _ _ ih hfailed)
  | turn turn _ ih => exact IsTrans.trans _ _ _ (HistoryLaw.turn turn) ih
  | allocator _ _ ihinner ihrest => exact IsTrans.trans _ _ _ ihinner ihrest

/-! ## Properties of a guest's code -/

/-- A property of computations of the guest that all has that a guest's own code does, calls and
charges apart. -/
structure GuestClosed (C : (α : Type) → RunM α → Prop) : Prop extends Compositional C where
  trap {α : Type} {t : Trap} (ht : ¬ t.IsHost) : C α (throw t)
  state : C State guest
  memory (m : Memory) : C PUnit (modify (World.setMemory m))
  global (i : Nat) (v : Value) : C Unit (setGlobal i v)

section
variable {C : (α : Type) → RunM α → Prop} (hC : GuestClosed C)
include hC

/-- Code that was checked is never stuck, but the model has to say what would happen. -/
theorem closed_stuck {α : Type} : C α stuck := hC.trap id

/-- A load reads the memory, or is out of its bounds. -/
theorem closed_loadNat (start length : Nat) : C Nat (loadNat start length) := by
  refine hC.bind hC.state fun g => ?_
  cases g.memory.read? start length with
  | some bs => exact hC.pure _
  | none => exact hC.trap id

/-- A store puts another memory in place, or is out of bounds. -/
theorem closed_storeNat (start length n : Nat) : C Unit (storeNat start length n) := by
  refine hC.bind hC.state fun g => ?_
  cases g.memory.write? start (Bytes.ofNatLE length n) with
  | some m => exact hC.memory m
  | none => exact hC.trap id

/-- Growing puts a larger memory in place or answers that it cannot. -/
theorem closed_growMemory (delta : UInt32) : C UInt32 (growMemory delta) := by
  refine hC.bind hC.state fun g => ?_
  dsimp only
  cases g.memory.grow? delta.toNat with
  | some m => exact hC.bind (hC.memory m) fun _ => hC.pure _
  | none => exact hC.pure _

/-- Division traps twice: at zero, and where the quotient does not fit. -/
theorem closed_divideSigned (a b : UInt32) : C UInt32 (divideSigned a b) := by
  unfold divideSigned
  split
  · exact hC.trap id
  · split
    · exact hC.trap id
    · exact hC.pure _

/-- Puts a value that may be missing on top of the operands. -/
theorem closed_push (v? : Option Value) (f : Frame) :
    C Frame (match v? with
      | some v => pure { f with stack := v :: f.stack }
      | none => stuck : RunM Frame) := by
  cases v? with
  | some v => exact hC.pure _
  | none => exact closed_stuck hC

/-- Without signs there is only zero to trap at. -/
theorem closed_unlessZero (b : UInt32) (f : Frame) :
    C Frame (if b = 0 then throw .divideByZero else pure f : RunM Frame) := by
  split
  · exact hC.trap id
  · exact hC.pure _

/-- An operation does one thing to the world at most, and most only look at the operands. The cases
are grouped by the operands that an operation takes; on any others it is stuck. -/
theorem closed_op (o : Op) (f : Frame) : C Frame (o.exec f) := by
  obtain ⟨stack, locals⟩ := f
  cases o with
  | i32Const n | i64Const n | f32Const | nop => exact hC.pure _
  | unreachable => exact hC.trap id
  | localGet i => exact closed_push hC locals[i]? _
  | globalGet i => exact hC.bind hC.state fun g => closed_push hC g.globals[i]? _
  | memorySize => exact hC.bind hC.state fun _ => hC.pure _
  | localSet i | localTee i | drop =>
    cases stack with
    | nil => exact closed_stuck hC
    | cons v stack => exact hC.pure _
  | globalSet i =>
    cases stack with
    | nil => exact closed_stuck hC
    | cons v stack => exact hC.bind (hC.global i v) fun _ => hC.pure _
  | select =>
    obtain _ | ⟨c | _ | _ | _, _ | ⟨b, _ | ⟨a, stack⟩⟩⟩ := stack
    case cons.i32.cons.cons => exact hC.pure _
    all_goals exact closed_stuck hC
  -- one word
  | i32Load offset | i32Load8U offset =>
    obtain _ | ⟨a | _ | _ | _, stack⟩ := stack
    case cons.i32 => exact hC.bind (closed_loadNat hC _ _) fun _ => hC.pure _
    all_goals exact closed_stuck hC
  | memoryGrow =>
    obtain _ | ⟨delta | _ | _ | _, stack⟩ := stack
    case cons.i32 => exact hC.bind (closed_growMemory hC delta) fun _ => hC.pure _
    all_goals exact closed_stuck hC
  | i32Eqz | i64ExtendI32U =>
    obtain _ | ⟨a | _ | _ | _, stack⟩ := stack
    case cons.i32 => exact hC.pure _
    all_goals exact closed_stuck hC
  -- two words
  | i32Store offset | i32Store8 offset =>
    obtain _ | ⟨v | _ | _ | _, _ | ⟨a | _ | _ | _, stack⟩⟩ := stack
    case cons.i32.cons.i32 => exact hC.bind (closed_storeNat hC _ _ _) fun _ => hC.pure _
    all_goals exact closed_stuck hC
  | i32Add | i32Sub | i32Mul =>
    obtain _ | ⟨b | _ | _ | _, _ | ⟨a | _ | _ | _, stack⟩⟩ := stack
    case cons.i32.cons.i32 => exact hC.pure _
    all_goals exact closed_stuck hC
  | i32DivS =>
    obtain _ | ⟨b | _ | _ | _, _ | ⟨a | _ | _ | _, stack⟩⟩ := stack
    case cons.i32.cons.i32 => exact hC.bind (closed_divideSigned hC a b) fun _ => hC.pure _
    all_goals exact closed_stuck hC
  | i32DivU | i32RemU =>
    obtain _ | ⟨b | _ | _ | _, _ | ⟨a | _ | _ | _, stack⟩⟩ := stack
    case cons.i32.cons.i32 => exact closed_unlessZero hC b _
    all_goals exact closed_stuck hC
  -- one long word, and two
  | i32WrapI64 =>
    obtain _ | ⟨_ | a | _ | _, stack⟩ := stack
    case cons.i64 => exact hC.pure _
    all_goals exact closed_stuck hC
  | i64Mul | i64ShrU =>
    obtain _ | ⟨_ | b | _ | _, _ | ⟨_ | a | _ | _, stack⟩⟩ := stack
    case cons.i64.cons.i64 => exact hC.pure _
    all_goals exact closed_stuck hC

/-- A loop is its body over and over. The induction is on the fuel. -/
theorem closed_repeatBody {body : Frame → RunM (Flow × Frame)} (hbody : ∀ f, C _ (body f))
    (fuel : Nat) (f : Frame) : C _ (repeatBody body fuel f) := by
  induction fuel generalizing f with
  | zero => exact closed_stuck hC
  | succ fuel ih =>
    refine hC.bind (hbody f) fun (flow, g) => ?_
    cases flow with
    | next => exact hC.pure _
    | ret => exact hC.pure _
    | br depth =>
      cases depth with
      | zero => exact ih _
      | succ depth => exact hC.pure _

/-- What follows a block, however the block is left. -/
theorem closed_afterBlock {rest : Frame → RunM (Flow × Frame)} (hrest : ∀ f, C _ (rest f))
    (stack : List Value) (flow : Flow) (g : Frame) :
    C _ (match flow with
      | .next => rest g
      | .br 0 => rest { g with stack }
      | .br (depth + 1) => pure (.br depth, g)
      | .ret => pure (.ret, g) : RunM (Flow × Frame)) := by
  split
  · exact hrest g
  · exact hrest _
  · exact hC.pure _
  · exact hC.pure _

variable {arity : Nat → Option Nat} {call : Caller}

/-- A call takes its arguments from the operands and leaves its results there. -/
theorem closed_callOnFrame {f : Nat} (hcall : ∀ args, C _ (call f args)) (fr : Frame) :
    C Frame (callOnFrame arity call f fr) := by
  unfold callOnFrame
  split
  · exact closed_stuck hC
  · exact hC.bind (hcall _) fun _ => hC.pure _

omit hC in
/-- Code of a kind whose calls have a property, and its charges if the code behind them does. The
parts of such code are of that kind too. -/
structure CodeLaw (C : (α : Type) → RunM α → Prop) (arity : Nat → Option Nat) (caller : Caller)
    (fits : Code → Prop) : Prop where
  op {o rest} (h : fits (.op o rest)) : fits rest
  call {f rest} (h : fits (.call f rest)) : (∀ args, C _ (caller f args)) ∧ fits rest
  charge {cost rest} (h : fits (.charge cost rest))
    (hrest : fits rest → ∀ f, C _ (rest.exec arity caller f)) (f : Frame) :
    C _ ((Code.charge cost rest).exec arity caller f)
  block {body rest} (h : fits (.block body rest)) : fits body ∧ fits rest
  loop {body rest} (h : fits (.loop body rest)) : fits body ∧ fits rest
  choose {yes no rest} (h : fits (.choose yes no rest)) : fits yes ∧ fits no ∧ fits rest
  brIf {depth rest} (h : fits (.brIf depth rest)) : fits rest

/-- All code is of that kind if paying has the property and all calls do. -/
theorem codeLaw_of_pay (hpay : ∀ cost, C _ (pay cost)) (hcall : ∀ f args, C _ (call f args)) :
    CodeLaw C arity call fun _ => True where
  op _ := trivial
  call _ := ⟨hcall _, trivial⟩
  charge _ hrest f := hC.bind (hpay _) fun _ => hrest trivial f
  block _ := ⟨trivial, trivial⟩
  loop _ := ⟨trivial, trivial⟩
  choose _ := ⟨trivial, trivial, trivial⟩
  brIf _ := trivial

/-- Code has a property if its calls and charges do. The induction is on the code; what follows a
block runs on the frame that the block leaves, so it is for all frames. -/
theorem closed_codeExec {fits : Code → Prop} (law : CodeLaw C arity call fits) {c : Code}
    (hc : fits c) (f : Frame) : C _ (c.exec arity call f) := by
  induction c generalizing f with
  | done | br | ret => exact hC.pure _
  | op o rest ih => exact hC.bind (closed_op hC o f) (ih (law.op hc))
  | call callee rest ih =>
    obtain ⟨hcall, hrest⟩ := law.call hc
    exact hC.bind (closed_callOnFrame hC hcall f) (ih hrest)
  | charge cost rest ih => exact law.charge hc ih f
  | block body rest ihbody ihrest =>
    obtain ⟨hbody, hrest⟩ := law.block hc
    exact hC.bind (ihbody hbody f) fun (flow, g) =>
      closed_afterBlock hC (ihrest hrest) f.stack flow g
  | loop body rest ihbody ihrest =>
    obtain ⟨hbody, hrest⟩ := law.loop hc
    -- a loop looks at the meter for its fuel, and so has the state besides its body
    refine hC.bind hC.state fun state => ?_
    refine hC.bind (closed_repeatBody hC (ihbody hbody) _ f) fun (flow, g) => ?_
    cases flow with
    | next => exact ihrest hrest g
    | br depth => exact hC.pure _
    | ret => exact hC.pure _
  | choose yes no rest ihyes ihno ihrest =>
    obtain ⟨hyes, hno, hrest⟩ := law.choose hc
    unfold Code.exec
    split
    · rename_i c st _
      dsimp only
      split
      · exact hC.bind (ihno hno _) fun (flow, g) => closed_afterBlock hC (ihrest hrest) st flow g
      · exact hC.bind (ihyes hyes _) fun (flow, g) => closed_afterBlock hC (ihrest hrest) st flow g
    · exact closed_stuck hC
  | brIf depth rest ih =>
    unfold Code.exec
    split
    · simp only
      split
      · exact ih (law.brIf hc) _
      · exact hC.pure _
    · exact closed_stuck hC

/-- A function that a module brings along has a property if its code does. -/
theorem closed_functionExec {fits : Code → Prop} (law : CodeLaw C arity call fits) {f : Function}
    (hf : fits f.body) (args : List Value) : C _ (f.exec arity call args) :=
  hC.bind (closed_codeExec hC law hf _) fun (_, _) => hC.pure _

end

/-! ## Laws of a guest's code -/

/-- A law that everything obeys that a guest's own code does, calls and charges apart. -/
class GuestLaw (P : World → Option Trap → World → Prop) : Prop extends Sequential P where
  memory (w : World) (m : Memory) : P w none (w.setMemory m)
  globals (w : World) (vs : List Value) :
    P w none { w with guest := { w.guest with globals := vs } }
  trap (w : World) {t : Trap} (ht : ¬ t.IsHost) : P w (some t) w

section
variable {P : World → Option Trap → World → Prop} [GuestLaw P]

/-- To obey such a law is a property of that sort. -/
theorem guestClosed_obeys : GuestClosed (Obeying P) where
  toCompositional := Obeys.compositional
  trap ht w := GuestLaw.trap w ht
  state := Obeys.get.bind fun _ => Obeys.pure _
  memory m w := GuestLaw.memory w m
  global i v w := GuestLaw.globals w (w.guest.globals.set i v)

theorem obeys_stuck {α : Type} : Obeys P (stuck : RunM α) := closed_stuck guestClosed_obeys

theorem obeys_guest : Obeys P guest := guestClosed_obeys.state

/-- A function that a module brings along obeys a law if the calls and charges in its code do. -/
theorem obeys_functionExec {arity : Nat → Option Nat} {call : Caller} {fits : Code → Prop}
    (law : CodeLaw (Obeying P) arity call fits) {f : Function} (hf : fits f.body)
    (args : List Value) : Obeys P (f.exec arity call args) :=
  closed_functionExec guestClosed_obeys law hf args

end

/-- A charge is paid, or it ends the run with the meter exhausted. -/
theorem run_pay (cost : Nat) (w : World) :
    (∃ m, w.guest.meter.pay? cost = some m ∧ (pay cost).run w =
      .ok () (World.noting { w with guest := { w.guest with meter := m } } (.charged cost))) ∨
    (w.guest.meter.pay? cost = none ∧ (pay cost).run w = .error .unreachable (World.noting
      { w with guest := { w.guest with meter := { w.guest.meter with exhausted := true } } }
      (.exhausted cost))) := by
  cases hpay : w.guest.meter.pay? cost with
  | some m =>
    refine .inl ⟨m, rfl, ?_⟩
    simp only [pay, guest, EStateM.run_bind, EStateM.run_get, EStateM.run_pure, hpay]
    rfl
  | none =>
    refine .inr ⟨rfl, ?_⟩
    simp only [pay, guest, EStateM.run_bind, EStateM.run_get, EStateM.run_pure, hpay]
    rfl

/-! ## Computations that only do what runs do -/

variable {l : Linked} {attached : Bool} {s : Side}

/-- A run whose failures are told as traps. -/
def RunsTo (l : Linked) (attached : Bool) (s : Side) {ε : Type} (trap : ε → Trap) (w : World)
    (o : Option ε) (u : World) : Prop := Runs l attached s w (o.map trap) u

instance sequential_runsTo {ε : Type} {trap : ε → Trap} :
    Sequential (RunsTo l attached s trap) where
  done _ := .done
  trans := Runs.trans

/-- Whatever a computation does is a run; `trap` tells its failures as traps. -/
abbrev Conforms (l : Linked) (attached : Bool) (s : Side) {ε α : Type} (trap : ε → Trap)
    (x : EStateM ε World α) : Prop := Obeys (RunsTo l attached s trap) x

/-- A computation of the guest only does what runs of the guest do. -/
abbrev GuestConforms (l : Linked) (attached : Bool) {α : Type} (x : RunM α) : Prop :=
  Conforms l attached .guest id x

instance guestLaw_runsTo : GuestLaw (RunsTo l attached .guest id) where
  memory _ m := .memory m .done
  globals _ vs := .globals vs .done
  trap _ _ ht := .trap ht

/-- Paying conforms where the charge stands in the guest's code. -/
theorem conforms_pay {cost : Nat} (hcost : l.Charges cost) :
    GuestConforms l attached (pay cost) := by
  intro w
  obtain ⟨m, hpay, hrun⟩ | ⟨hpay, hrun⟩ := run_pay cost w
  · rw [hrun]
    exact .charged hcost hpay .done
  · rw [hrun]
    exact .exhausted hcost hpay

/-- The guest's code conforms if calls do. -/
theorem codeLaw_runsTo {arity : Nat → Option Nat} {call : Caller}
    (hcall : ∀ f args, GuestConforms l attached (call f args)) :
    CodeLaw (Obeying (RunsTo l attached .guest id)) arity call fun c =>
      ∀ cost, c.Charges cost → l.Charges cost where
  op h := h
  call h := ⟨hcall _, h⟩
  charge h hrest f :=
    (conforms_pay (h _ (.inl rfl))).bind fun _ => hrest (fun cost hc => h cost (.inr hc)) f
  block h := ⟨fun cost hc => h cost (.inl hc), fun cost hc => h cost (.inr hc)⟩
  loop h := ⟨fun cost hc => h cost (.inl hc), fun cost hc => h cost (.inr hc)⟩
  choose h := ⟨fun cost hc => h cost (.inl hc), fun cost hc => h cost (.inr (.inl hc)),
    fun cost hc => h cost (.inr (.inr hc))⟩
  brIf h := h

/-- A function that is called and is none of the host's is one that the module brings along. -/
theorem mem_functions_of_callee? {f : Nat} {g : Function} (h : l.callee? f = some (.function g)) :
    g ∈ l.module.functions := by
  unfold Linked.callee? at h
  split at h
  · obtain ⟨_, -, hservice⟩ := Option.map_eq_some_iff.mp h
    cases hservice
  · obtain ⟨g', hg, hfunction⟩ := Option.map_eq_some_iff.mp h
    cases hfunction
    exact List.mem_of_getElem? hg

end Guest

end ContractHost
