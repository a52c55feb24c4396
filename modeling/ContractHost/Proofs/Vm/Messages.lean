import ContractHost.Proofs.Vm.Logging

/-!
# The guest's debug messages

What the guest said is told by the journal: `Said` reads off a stretch of it which messages are
there after it. Every call of `debug` that came back adds one at the end, an embedder who clears
them takes all away, and nothing else touches them, least of all the end of the call in which they
were left. That is a law of the host's history (`Host.historyLaw_tells`), so it holds of all runs
(`tells_run`). What one call of `debug` adds is the text of the region behind its pointer
(`run_serve_debug_eq_ok`).
-/

namespace ContractHost

open Guest (Value)

/-- Does an event tell that the guest's messages are others than before, or that a call of `debug`
came back? -/
def Event.TellsMessage : Event → Prop
  | .debugged _ | .forgot | .returned .debug => True
  | _ => False

/-- The messages after a stretch of the journal: those before it, until they were forgotten, and
one at the end for every call of `debug` that came back since. Such a call came back right after its
message was taken down, and nothing else in these events tells of a message. -/
inductive Said (before : List String) : Journal → List String → Prop where
  | nil : Said before [] before
  | message {es : Journal} {texts : List String} (text : String) (h : Said before es texts) :
    Said before (.returned .debug :: .debugged text :: es) (texts ++ [text])
  | forgot {es : Journal} {texts : List String} (h : Said before es texts) :
    Said before (.forgot :: es) []
  | other {e : Event} {es : Journal} {texts : List String} (he : ¬ e.TellsMessage)
    (h : Said before es texts) : Said before (e :: es) texts

namespace Said

variable {before texts texts' : List String} {es fs : Journal}

/-- What two stretches of the journal tell is told by both together. -/
theorem append (hes : Said before es texts) (hfs : Said texts fs texts') :
    Said before (fs ++ es) texts' := by
  induction hfs with
  | nil => exact hes
  | message text _ ih => exact .message text ih
  | forgot _ ih => exact .forgot ih
  | other he _ ih => exact .other he ih

/-- The journal leaves no choice of the messages. -/
theorem unique (h : Said before es texts) (h' : Said before es texts') : texts = texts' := by
  induction h generalizing texts' with
  | nil =>
    cases h'
    rfl
  | message text _ ih =>
    cases h' with
    | message _ h' => rw [ih h']
    | other he _ => exact absurd trivial he
  | forgot _ _ =>
    cases h' with
    | forgot _ => rfl
    | other he _ => exact absurd trivial he
  | other he _ ih =>
    cases h' with
    | message | forgot => exact absurd trivial he
    | other _ h' => exact ih h'

/-- Remarks tell of no message, those of logging included. -/
theorem of_remarks (h : ∀ e ∈ es, e.IsRemark) : Said before es before := by
  induction es with
  | nil => exact .nil
  | cons e es ih =>
    refine .other ?_ (ih fun e' he' => h e' (List.mem_cons_of_mem e he'))
    have he : e.IsRemark := h e List.mem_cons_self
    cases e <;> first | exact id | exact he.elim

end Said

namespace Host

/-- What was entered into a host's journal tells what became of the guest's messages. -/
def Tells (h h' : Host) : Prop :=
  ∃ es, h'.journal = es ++ h.journal ∧ Said h.messages es h'.messages

namespace Tells

protected theorem refl (h : Host) : h.Tells h := ⟨[], rfl, .nil⟩

protected theorem trans {h₁ h₂ h₃ : Host} (h : h₁.Tells h₂) (h' : h₂.Tells h₃) : h₁.Tells h₃ := by
  obtain ⟨es, hes, hsaid⟩ := h
  obtain ⟨fs, hfs, hsaid'⟩ := h'
  refine ⟨fs ++ es, ?_, hsaid.append hsaid'⟩
  rw [hfs, hes, List.append_assoc]

instance isPreorder : IsPreorder Host Tells where
  refl := Tells.refl
  trans _ _ _ := Tells.trans

end Tells

/-- Of all host functions only `debug` tells a message when it comes back. -/
theorem tells_effect {f : HostFunction} {h h' : Host} (heffect : Effect f h h') :
    h.Tells (h'.noting (.returned f)) := by
  cases heffect with
  | wrote _ key value => exact ⟨[_, .wrote key value], rfl, .other id (.other id .nil)⟩
  | removed _ key => exact ⟨[_, .removed key], rfl, .other id (.other id .nil)⟩
  | said _ text => exact ⟨[_, .debugged text], rfl, .message text .nil⟩
  | none hf =>
    refine ⟨[.returned f], rfl, .other ?_ .nil⟩
    obtain ⟨-, -, hdebug⟩ := hf
    cases f <;> first | exact id | contradiction

instance historyLaw_tells : HistoryLaw Tells where
  notice h e he := by
    refine ⟨[e], rfl, .other ?_ .nil⟩
    cases e <;> first | exact id | exact he.elim
  effect := tells_effect
  turn hturns := by
    obtain ⟨es, hes, hremarks⟩ := hturns.journal
    refine ⟨es, hes, ?_⟩
    rw [hturns.messages]
    exact .of_remarks hremarks

end Host

/-! ## Single calls -/

/-- The world in which a message of the guest is taken down, and was logged before if the
configuration asks for that. -/
def World.hearing (w : World) (text : String) : World :=
  let v := w.logging text
  { v with host := { v.host.noting (.debugged text) with messages := v.host.messages ++ [text] } }

/-- A host function that is called as `debug` does what `debug` does, on one pointer. -/
theorem run_eq_ok_of_debug {g : Access World} {args results : List Value} {w u : World} :
    (Service.run g .debug args).run w = .ok results u ↔
      results = [] ∧ ∃ message, args = [.i32 message] ∧
        (Service.debug g message).run w = .ok () u := by
  constructor
  · intro h
    unfold Service.run at h
    split at h
    case h_13 _ message _ =>
      obtain ⟨rfl, hrun⟩ := Service.run_nothing_eq_ok.mp h
      exact ⟨rfl, message, rfl, hrun⟩
    case h_16 => cases h
    all_goals contradiction
  · rintro ⟨rfl, message, rfl, hrun⟩
    exact Service.run_nothing_eq_ok.mpr ⟨rfl, hrun⟩

/-- A call of `debug` succeeds exactly if its region can be read, and takes down its text. -/
theorem run_debug_eq_ok {g : Access World} {message : UInt32} {w u : World} :
    (Service.debug g message).run w = .ok () u ↔
      ∃ data, (Service.bytesAt g message).run w = .ok data w ∧
        u = w.hearing (String.ofList (Utf8.decodeLossy data)) := by
  simp only [Service.debug, Service.textAt, EStateM.run_bind]
  obtain ⟨e, hdata⟩ | ⟨data, hdata⟩ := Guest.bytesAt_cases g message w
  · rw [hdata]
    refine iff_of_false nofun ?_
    rintro ⟨data, hrun, -⟩
    cases hrun
  · rw [hdata]
    simp only [EStateM.run_pure, Service.run_logDebug]
    constructor
    · intro h
      cases h
      exact ⟨data, rfl, rfl⟩
    · rintro ⟨data', hrun, rfl⟩
      cases hrun
      rfl

/-- A call of `debug` comes back exactly if the region behind its pointer can be read, and it is
told with the text of that region, in which every malformed part is replaced. -/
theorem run_serve_debug_eq_ok {g : Access World} {args results : List Value} {w u : World} :
    (Service.serve g .debug args).run w = .ok results u ↔
      results = [] ∧ ∃ message data, args = [.i32 message] ∧
        (Service.bytesAt g message).run (w.noting (.entered .debug)) =
          .ok data (w.noting (.entered .debug)) ∧
        u = ((w.noting (.entered .debug)).hearing
          (String.ofList (Utf8.decodeLossy data))).noting (.returned .debug) := by
  simp only [Guest.run_serve_eq_ok, run_eq_ok_of_debug, run_debug_eq_ok]
  constructor
  · rintro ⟨v, ⟨rfl, message, rfl, data, hdata, rfl⟩, rfl⟩
    exact ⟨rfl, message, data, rfl, hdata, rfl⟩
  · rintro ⟨rfl, message, data, rfl, hdata, rfl⟩
    exact ⟨_, ⟨rfl, message, rfl, data, hdata, rfl⟩, rfl⟩

namespace Vm

/-! ## Runs -/

/-- Whatever an embedder does is told. -/
theorem tells_exec (op : Op) : Moves (InvImage Host.Tells Vm.host) op.exec := by
  cases op with
  | clearDebugMessages => exact fun vm => ⟨[.forgot], rfl, .forgot .nil⟩
  | changeBackend f => exact fun vm => ⟨[], rfl, .nil⟩
  | _ => exact history_exec trivial

/-- The journal of a run tells of the messages after it. -/
theorem tells_run (vm : Vm) (ops : List Op) : vm.host.Tells (run vm ops).host :=
  related_run (R := InvImage Host.Tells Vm.host) (fun op _ => tells_exec op) vm

/-- What an embedder can tell of two machines without their logs is the same. -/
structure Alike (vm vm' : Vm) : Prop where
  phase : vm.phase = vm'.phase
  /-- The guests have the same memory, the same variables and the same meter. -/
  guest : vm.instance? = vm'.instance?
  backend : vm.host.backend = vm'.host.backend
  debugMessages : vm.debugMessages = vm'.debugMessages
  remainingGas : vm.remainingGas = vm'.remainingGas

/-- Muting a machine leaves all but its configuration and its journal. -/
theorem alike_muted (vm : Vm) : vm.muted.Alike vm := ⟨rfl, rfl, rfl, rfl, rfl⟩

/-- After any run of operations, each of which may have succeeded or failed, the debug messages are
those that the journal of the run tells: one for every call of `debug` that came back after they
were last cleared, in their order, with the text to which its pointer led. And whether debug
messages are logged makes no difference to a run: machines with the same backend whose
configurations differ in that alone answer alike and end alike, guest, backend, messages and points
included. What was entered into their journals differs in the logging of debug messages, and their
logs in the lines of it. -/
theorem debugMessages_of_run (ops : List Op) :
    (∀ vm : Vm, ∃ es, (run vm ops).host.journal = es ++ vm.host.journal ∧
      ∀ texts, Said vm.debugMessages es texts ↔ texts = (run vm ops).debugMessages) ∧
    (∀ (g : Access World) (args results : List Value) (w u : World),
      (Service.serve g .debug args).run w = .ok results u ↔
        results = [] ∧ ∃ message data, args = [.i32 message] ∧
          (Service.bytesAt g message).run (w.noting (.entered .debug)) =
            .ok data (w.noting (.entered .debug)) ∧
          u = ((w.noting (.entered .debug)).hearing
            (String.ofList (Utf8.decodeLossy data))).noting (.returned .debug)) ∧
    ∀ (config : Config) (backend : Backend),
      let silent := new { config with debugToLog := false } backend
      let logging := new { config with debugToLog := true } backend
      answers silent ops = answers logging ops ∧ (run silent ops).Alike (run logging ops) ∧
        (run silent ops).host.journal =
          (run logging ops).host.journal.filter (fun e => !e.isLogged) ∧
        (run silent ops).log = (run logging ops).log.filter fun line => !line.isDebugMessage := by
  refine ⟨fun vm => ?_, fun g args results w u => run_serve_debug_eq_ok, ?_⟩
  · obtain ⟨es, hes, hsaid⟩ := tells_run vm ops
    refine ⟨es, hes, fun texts => ⟨fun h => h.unique hsaid, ?_⟩⟩
    rintro rfl
    exact hsaid
  · intro config backend silent logging
    have hsilent : silent = logging.muted :=
      (muted_new { config with debugToLog := true } backend).symm
    -- the silent machine is the logging one muted, before the run and so after it
    have hrun : run silent ops = (run logging ops).muted := by rw [hsilent, run_muted]
    refine ⟨?_, ?_, ?_, ?_⟩
    · rw [hsilent, answers_muted]
    · rw [hrun]
      exact alike_muted _
    · rw [hrun]
      rfl
    · rw [hrun, log_muted]

/-- A guest whose queries leave two debug messages, the first of them malformed, and then abort. -/
def talkingModule : Guest.Module where
  imports := [HostFunction.debug, .abort].map fun f =>
    ⟨HostFunction.moduleName, f.name, f.signature⟩
  functions := [
    ⟨Guest.Module.allocateSignature, [], .op (.i32Const 64) .done⟩,
    ⟨Guest.Module.deallocateSignature, [], .done⟩,
    ⟨⟨[.i32, .i32], [.i32]⟩, [], .op (.i32Const 16) (.call 0 (.op (.i32Const 32) (.call 0
      (.op (.i32Const 32) (.call 1 (.op .unreachable .done))))))⟩]
  memory := some { pages := 1, addressable := Guest.addressable_one }
  exports := [(Guest.Module.memoryName, .memory), (Guest.Module.allocateName, .function 2),
    (Guest.Module.deallocateName, .function 3), (EntryPoint.query.name, .function 4)]
  data := [
    (16, Guest.Region.descriptor { ptr := 16, offset := 48, capacity := 2, length := 2 }),
    (32, Guest.Region.descriptor { ptr := 32, offset := 48, capacity := 1, length := 1 }),
    (48, [0x61, 0xff]),
    (64, Guest.Region.descriptor { ptr := 64, offset := 80, capacity := 1024 })]

/-- A machine on which such a query was made before and after its messages were cleared. -/
def clearedBetween : List Op :=
  [.build (.ok talkingModule), .call .query blankEnv blankInfo (some .null), .clearDebugMessages,
    .call .query blankEnv blankInfo (some .null)]

/-- Both queries aborted, and the messages of the second are there, in a machine that logs them as
in one that does not. Their logs differ. -/
theorem debugMessages_of_clearedBetween :
    (run (new {} {}) clearedBetween).debugMessages = ["a\uFFFD", "a"] ∧
    (∃ es, (run (new {} {}) clearedBetween).host.journal = es ++ (new {} {}).host.journal ∧
      Said (new {} {}).debugMessages es ["a\uFFFD", "a"]) ∧
    (run (new { debugToLog := false } {}) clearedBetween).Alike
      (run (new { debugToLog := true } {}) clearedBetween) ∧
    (run (new { debugToLog := false } {}) clearedBetween).log ≠
      (run (new { debugToLog := true } {}) clearedBetween).log := by
  have hrun : (run (new {} {}) clearedBetween).debugMessages = ["a\uFFFD", "a"] ∧
      (run (new { debugToLog := true } {}) clearedBetween).log.any LogLine.isDebugMessage =
        true := by
    decide +kernel
  obtain ⟨hmessages, hlogged⟩ := hrun
  obtain ⟨hsaid, -, hswitch⟩ := debugMessages_of_run clearedBetween
  obtain ⟨es, hes, htexts⟩ := hsaid (new {} {})
  obtain ⟨-, halike, -, hlog⟩ := hswitch {} {}
  refine ⟨hmessages, ⟨es, hes, (htexts _).mpr hmessages.symm⟩, halike, ?_⟩
  intro heq
  have hsilent : (run (new { debugToLog := false } {}) clearedBetween).log.any
      LogLine.isDebugMessage = false := by
    rw [hlog, List.any_filter]
    simp
  rw [heq, hlogged] at hsilent
  cases hsilent

end Vm

end ContractHost
