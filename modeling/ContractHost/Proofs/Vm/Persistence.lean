import ContractHost.Proofs.Host.Access
import ContractHost.Proofs.Vm.Operations

/-!
# What persists

Of all that happens in a run of a machine only the host functions `dbWrite` and `dbRemove` that came
back change the data, each by one `Change`. The journal tells them: `Completed` reads the changes
off a stretch of it, and a host `Records` what became of its data if they lead from the data before
to the data after.

That is a law of the host's history (`Host.historyLaw_records`), so everything is of that kind that
an embedder can do short of changing the backend itself (`records_exec`). So the data after any run
of operations are those before with the completed changes (`replay_of_run`), however each operation
ended.
-/

namespace ContractHost

open Guest (Linked Runs Side Trap Value)

/-- The data of a store. -/
abbrev Data : Type := Std.TreeMap Bytes Bytes compare

/-- A change of one key. -/
inductive Change where
  | put (key value : Bytes)
  | drop (key : Bytes)
  deriving DecidableEq, Repr

/-- The data after a change. -/
def Change.apply (data : Data) : Change → Data
  | .put key value => data.insert key value
  | .drop key => data.erase key

/-- The data after changes, the first one first. -/
def replay (data : Data) (changes : List Change) : Data := changes.foldl Change.apply data

/-- Does an event tell that the data were changed, or that a host function came back that changes
them? -/
def Event.TellsChange : Event → Prop
  | .wrote _ _ | .removed _ | .returned .dbWrite | .returned .dbRemove => True
  | _ => False

/-- The changes of the host functions that came back, in their order: `dbWrite` came back right
after a key was given its value, and `dbRemove` right after a key was taken out. Nothing else in
these events tells of a change. -/
inductive Completed : Journal → List Change → Prop where
  | nil : Completed [] []
  | written {es : Journal} {changes : List Change} (key value : Bytes) (h : Completed es changes) :
    Completed (.returned .dbWrite :: .wrote key value :: es) (changes ++ [.put key value])
  | removed {es : Journal} {changes : List Change} (key : Bytes) (h : Completed es changes) :
    Completed (.returned .dbRemove :: .removed key :: es) (changes ++ [.drop key])
  | other {e : Event} {es : Journal} {changes : List Change} (he : ¬ e.TellsChange)
    (h : Completed es changes) : Completed (e :: es) changes

/-- Completed changes of two stretches, in their order. -/
theorem Completed.append {es fs : Journal} {cs ds : List Change} (hes : Completed es cs)
    (hfs : Completed fs ds) : Completed (fs ++ es) (cs ++ ds) := by
  induction hfs with
  | nil =>
    rw [List.append_nil]
    exact hes
  | written key value _ ih =>
    rw [← List.append_assoc]
    exact .written key value ih
  | removed key _ ih =>
    rw [← List.append_assoc]
    exact .removed key ih
  | other he _ ih => exact .other he ih

/-- Remarks complete nothing. -/
theorem completed_of_remarks {es : Journal} (h : ∀ e ∈ es, e.IsRemark) : Completed es [] := by
  induction es with
  | nil => exact .nil
  | cons e es ih =>
    refine .other ?_ (ih fun e' he' => h e' (List.mem_cons_of_mem e he'))
    have he : e.IsRemark := h e List.mem_cons_self
    cases e <;> first | exact id | exact he.elim

namespace Host

/-- What was entered into a host's journal tells what became of its data. -/
def Records (h h' : Host) : Prop :=
  ∃ es changes, h'.journal = es ++ h.journal ∧ Completed es changes ∧
    h'.store.data = replay h.store.data changes

namespace Records

protected theorem refl (h : Host) : h.Records h := ⟨[], [], rfl, .nil, rfl⟩

protected theorem trans {h₁ h₂ h₃ : Host} (h : h₁.Records h₂) (h' : h₂.Records h₃) :
    h₁.Records h₃ := by
  obtain ⟨es, cs, hes, hcs, hdata⟩ := h
  obtain ⟨fs, ds, hfs, hds, hdata'⟩ := h'
  refine ⟨fs ++ es, cs ++ ds, ?_, hcs.append hds, ?_⟩
  · rw [hfs, hes, List.append_assoc]
  · rw [hdata', hdata, replay, replay, replay, List.foldl_append]

instance : IsPreorder Host Records where
  refl := Records.refl
  trans _ _ _ := Records.trans

end Records

/-- The effect of a host function is recorded once the host function has come back. -/
theorem records_effect {f : HostFunction} {h h' : Host} (heffect : Effect f h h') :
    h.Records (h'.noting (.returned f)) := by
  cases heffect with
  | wrote _ key value =>
    exact ⟨[.returned .dbWrite, .wrote key value], [.put key value], rfl,
      .written key value .nil, rfl⟩
  | removed _ key =>
    exact ⟨[.returned .dbRemove, .removed key], [.drop key], rfl, .removed key .nil, rfl⟩
  | said _ text =>
    exact ⟨[.returned .debug, .debugged text], [], rfl, .other id (.other id .nil), rfl⟩
  | none hf =>
    refine ⟨[.returned f], [], rfl, .other ?_ .nil, rfl⟩
    obtain ⟨hwrite, hremove, -⟩ := hf
    cases f <;> first | exact id | contradiction

instance historyLaw_records : HistoryLaw Records where
  notice h e he := by
    refine ⟨[e], [], rfl, .other ?_ .nil, rfl⟩
    cases e <;> first | exact id | exact he.elim
  effect := records_effect
  turn hturns := by
    obtain ⟨es, hes, hremarks⟩ := hturns.journal
    exact ⟨es, [], hes, completed_of_remarks hremarks, hturns.data⟩

end Host

/-! ## Single calls -/

/-- What a call of `dbWrite` or `dbRemove` asks for, its pointers being read in a world. -/
inductive Asks (g : Access World) (w : World) : HostFunction → List Value → Change → Prop where
  | put {key value : UInt32} {k v : Bytes} (hkey : (Service.bytesAt g key).run w = .ok k w)
    (hvalue : (Service.bytesAt g value).run w = .ok v w) :
    Asks g w .dbWrite [.i32 key, .i32 value] (.put k v)
  | drop {key : UInt32} {k : Bytes} (hkey : (Service.bytesAt g key).run w = .ok k w) :
    Asks g w .dbRemove [.i32 key] (.drop k)

/-- A `dbWrite` that succeeds does what it is asked for and no more. -/
theorem run_dbWrite_eq_ok {g : Access World} {args results : List Value} {w u : World}
    (h : (Service.run g .dbWrite args).run w = .ok results u) :
    ∃ k v, Asks g w .dbWrite args (.put k v) ∧
      u = { w with host := (w.host.setStore (w.host.store.insert k v)).noting (.wrote k v) } := by
  unfold Service.run at h
  split at h
  case h_2 _ key value _ =>
    have hrun := (Service.run_nothing_eq_ok.mp h).2
    obtain ⟨e, hwrite⟩ | ⟨k, v, hkey, hvalue, hwrite⟩ := Guest.dbWrite_cases g key value w
    · rw [hwrite] at hrun
      cases hrun
    · rw [hwrite] at hrun
      cases hrun
      exact ⟨k, v, .put hkey hvalue, rfl⟩
  case h_16 => cases h
  all_goals contradiction

/-- A `dbRemove` that succeeds does what it is asked for and no more. -/
theorem run_dbRemove_eq_ok {g : Access World} {args results : List Value} {w u : World}
    (h : (Service.run g .dbRemove args).run w = .ok results u) :
    ∃ k, Asks g w .dbRemove args (.drop k) ∧
      u = { w with host := (w.host.setStore (w.host.store.erase k)).noting (.removed k) } := by
  unfold Service.run at h
  split at h
  case h_3 _ key _ =>
    have hrun := (Service.run_nothing_eq_ok.mp h).2
    obtain ⟨e, hremove⟩ | ⟨k, hkey, hremove⟩ := Guest.dbRemove_cases g key w
    · rw [hremove] at hrun
      cases hrun
    · rw [hremove] at hrun
      cases hrun
      exact ⟨k, .drop hkey, rfl⟩
  case h_16 => cases h
  all_goals contradiction

/-- A call of `dbWrite` or `dbRemove` that comes back is told in the journal with the change that it
asked for. -/
theorem completed_serve {g : Access World} {f : HostFunction} (hf : f = .dbWrite ∨ f = .dbRemove)
    {args results : List Value} {w u : World}
    (h : (Service.serve g f args).run w = .ok results u) :
    ∃ es change, u.host.journal = es ++ w.host.journal ∧ Completed es [change] ∧
      Asks g (w.noting (.entered f)) f args change := by
  obtain ⟨v, hrun, rfl⟩ := Guest.run_serve_eq_ok.mp h
  obtain rfl | rfl := hf
  · obtain ⟨key, value, hasks, rfl⟩ := run_dbWrite_eq_ok hrun
    refine ⟨[.returned .dbWrite, .wrote key value, .entered .dbWrite], _, rfl, ?_, hasks⟩
    exact .written key value (.other id .nil)
  · obtain ⟨key, hasks, rfl⟩ := run_dbRemove_eq_ok hrun
    refine ⟨[.returned .dbRemove, .removed key, .entered .dbRemove], _, rfl, ?_, hasks⟩
    exact .removed key (.other id .nil)

namespace Vm

/-! ## Runs -/

/-- Whatever an embedder does short of changing the backend is recorded. -/
theorem records_exec {op : Op} (hop : ∀ f, op ≠ .changeBackend f) :
    Moves (InvImage Host.Records Vm.host) op.exec := by
  cases op with
  | clearDebugMessages => exact fun vm => ⟨[.forgot], [], rfl, .other id .nil, rfl⟩
  | changeBackend f => exact absurd rfl (hop f)
  | _ => exact history_exec trivial

/-- A run is recorded if the embedder does not change the backend from outside. -/
theorem records_run (vm : Vm) (ops : List Op) (hops : ∀ op ∈ ops, ∀ f, op ≠ .changeBackend f) :
    vm.host.Records (run vm ops).host :=
  related_run (R := InvImage Host.Records Vm.host) (fun op hop => records_exec (hops op hop)) vm

/-- After any run of operations, each of which may have succeeded or failed, the data are those
before it with the changes of the calls of `dbWrite` and `dbRemove` that came back, in their order,
and with nothing else. The journal of the run tells these calls, each with the key, and the value,
to which its pointers led. -/
theorem replay_of_run (vm : Vm) (ops : List Op)
    (hops : ∀ op ∈ ops, ∀ f, op ≠ .changeBackend f) :
    (∃ es changes, (run vm ops).host.journal = es ++ vm.host.journal ∧ Completed es changes ∧
      (run vm ops).host.store.data = replay vm.host.store.data changes) ∧
    ∀ (g : Access World) (f : HostFunction) (args results : List Value) (w u : World),
      f = .dbWrite ∨ f = .dbRemove → (Service.serve g f args).run w = .ok results u →
      ∃ es change, u.host.journal = es ++ w.host.journal ∧ Completed es [change] ∧
        Asks g (w.noting (.entered f)) f args change := by
  refine ⟨records_run vm ops hops, ?_⟩
  intro g f args results w u hf hserve
  exact completed_serve hf hserve

/-- A machine on which a query gave a key a value and then aborted. -/
def abortedQuery : List Op :=
  [.build (.ok abortingModule), .call .query blankEnv blankInfo (some .null)]

/-- The value that the aborted query wrote is there afterwards, and was the only change. -/
theorem replay_of_abortedQuery :
    (∀ op ∈ abortedQuery, ∀ f, op ≠ .changeBackend f) ∧
    (run (new {} {}) abortedQuery).host.store.get? [0x61] = some [0x61, 0x62] ∧
    ∃ es changes, (run (new {} {}) abortedQuery).host.journal = es ++ (new {} {}).host.journal ∧
      Completed es changes ∧
      (run (new {} {}) abortedQuery).host.store.data =
        replay (new {} {}).host.store.data changes := by
  have hops : ∀ op ∈ abortedQuery, ∀ f, op ≠ .changeBackend f := by
    intro op hop f
    simp only [abortedQuery, List.mem_cons, List.not_mem_nil, or_false] at hop
    obtain rfl | rfl := hop
    · exact nofun
    · exact nofun
  exact ⟨hops, by decide +kernel, (replay_of_run (new {} {}) abortedQuery hops).1⟩

end Vm

end ContractHost
