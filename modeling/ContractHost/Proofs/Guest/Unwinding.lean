import ContractHost.Proofs.Guest.Services

/-!
# How the failure of a host function ends a run

The events of a run are nested: every host function that was entered came back or failed, in the
reverse order (`Nested`). So the number of host functions at work tells who called one: the guest's
own code did if it is the only one at work, and otherwise an allocator that a host function had run.

When a host function fails that the guest's own code called, the run is over: that is its last
event, it ends with the trap of that failure, and the world is the one that the host function left
(`Runs.exists_events`). A failure further in ends only the allocator's run, and is another failure
by the time it gets out.
-/

namespace ContractHost

/-- An element in a list of two parts stands in one of them. -/
theorem cons_suffix_append {α : Type} {x : α} {t as bs : List α} (h : x :: t <:+ as ++ bs) :
    x :: t <:+ bs ∨ ∃ t', x :: t' <:+ as ∧ t = t' ++ bs := by
  induction as with
  | nil => exact .inl h
  | cons a as ih =>
    rw [List.cons_append, List.suffix_cons_iff] at h
    obtain h | h := h
    · cases h
      exact .inr ⟨as, List.suffix_rfl, rfl⟩
    · obtain hbs | ⟨t', has, rfl⟩ := ih h
      · exact .inl hbs
      · exact .inr ⟨t', has.trans (List.suffix_cons a as), rfl⟩

/-! ## Nested events -/

/-- How many host functions are at work after an event, if there were `n` before. -/
def Event.atWork : Event → Nat → Nat
  | .entered _, n => n + 1
  | .returned _, n | .failed _ _, n => n - 1
  | _, n => n

namespace Journal

/-- How many host functions are at work after events, if there were `n` before. -/
def atWork (es : Journal) (n : Nat) : Nat := es.foldr Event.atWork n

/-- The depth after two stretches of the journal is counted on from that after the first. -/
theorem atWork_append (es fs : Journal) (n : Nat) :
    atWork (es ++ fs) n = atWork es (atWork fs n) := List.foldr_append

/-- Every host function that was entered is left again. A failure is that of a host function that
was entered among these events, and no entry point is called. -/
structure Nested (es : Journal) : Prop where
  atWork : ∀ n, es.atWork n = n
  within : ∀ {n f e} {since : Journal}, .failed f e :: since <:+ es → n < since.atWork n
  notCalling : ∀ {name pointers}, .calling name pointers ∉ es

end Journal

/-- An event that neither enters nor leaves a host function and is not the call of an entry
point. -/
def Event.IsPlain : Event → Prop
  | .entered _ | .returned _ | .failed _ _ | .calling _ _ => False
  | _ => True

namespace Journal

/-- Where nothing happened, no call is open. -/
theorem nested_nil : Nested [] where
  atWork _ := rfl
  within h := by cases List.suffix_nil.mp h
  notCalling := List.not_mem_nil

/-- A plain event is no failure of a host function. -/
theorem not_failed_of_plain {e : Event} (he : e.IsPlain) {f : HostFunction} {fault : HostFault}
    {since : Journal} : ¬ .failed f fault :: since <:+ [e] := by
  intro h
  obtain h | h := List.suffix_cons_iff.mp h
  · cases h
    exact he
  · cases List.suffix_nil.mp h

/-- A plain event neither opens a call nor ends one. -/
theorem nested_of_plain {e : Event} (he : e.IsPlain) : Nested [e] where
  atWork n := by cases e <;> first | rfl | exact he.elim
  within h := absurd h (not_failed_of_plain he)
  notCalling h := by
    cases List.mem_singleton.mp h
    exact he

/-- Stretches without open calls are put together. -/
theorem Nested.append {es fs : Journal} (hes : Nested es) (hfs : Nested fs) :
    Nested (fs ++ es) where
  atWork n := by rw [atWork_append, hes.atWork, hfs.atWork]
  within {n f e since} h := by
    obtain hold | ⟨since', hnew, rfl⟩ := cons_suffix_append h
    · exact hes.within hold
    · rw [atWork_append, hes.atWork]
      exact hfs.within hnew
  notCalling h := by
    obtain h | h := List.mem_append.mp h
    · exact hfs.notCalling h
    · exact hes.notCalling h

/-- Plain events are nested, however many there are. -/
theorem nested_of_forall_plain {es : Journal} (h : ∀ e ∈ es, e.IsPlain) : Nested es := by
  induction es with
  | nil => exact nested_nil
  | cons e es ih =>
    have hes : Nested es := ih fun e' he' => h e' (List.mem_cons_of_mem e he')
    exact hes.append (nested_of_plain (h e List.mem_cons_self))

/-- Whatever fails while a host function is at work was called by code that it had run. -/
theorem Nested.lt_atWork_of_entered {es : Journal} (hes : Nested es) {n : Nat} {g f : HostFunction}
    {e : HostFault} {since : Journal} (h : .failed f e :: since <:+ es ++ [.entered g]) :
    n + 1 < since.atWork n := by
  obtain hentered | ⟨since', hes', rfl⟩ := cons_suffix_append h
  · obtain h | h := List.suffix_cons_iff.mp hentered
    · cases h
    · cases List.suffix_nil.mp h
  · rw [atWork_append]
    exact hes.within hes'

/-- The events of a host function at work, between the one that enters it and the one that leaves
it. -/
theorem Nested.call {es : Journal} (hes : Nested es) (f : HostFunction) {last : Event}
    (hlast : last = .returned f ∨ ∃ e, last = .failed f e) :
    Nested (last :: (es ++ [.entered f])) where
  atWork n := by
    have hinner : Journal.atWork (es ++ [.entered f]) n = n + 1 := by
      rw [atWork_append]
      exact hes.atWork (n + 1)
    have hleave : last.atWork (n + 1) = n := by obtain rfl | ⟨e, rfl⟩ := hlast <;> rfl
    show last.atWork (Journal.atWork (es ++ [.entered f]) n) = n
    rw [hinner, hleave]
  -- a failure that stands last is the host function's own, else it is one of its work's
  within {n g e since} h := by
    obtain h | h := List.suffix_cons_iff.mp h
    · obtain ⟨-, rfl⟩ := List.cons.inj h
      rw [atWork_append, hes.atWork]
      exact Nat.lt_succ_self n
    · exact Nat.lt_of_succ_lt (hes.lt_atWork_of_entered h)
  notCalling h := by
    obtain h | h := List.mem_cons.mp h
    · obtain rfl | ⟨e, rfl⟩ := hlast <;> cases h
    · obtain h | h := List.mem_append.mp h
      · exact hes.notCalling h
      · cases List.mem_singleton.mp h

end Journal

namespace Host

/-- What was entered into a host's journal is nested. -/
def Nests (h h' : Host) : Prop :=
  ∃ es : Journal, h'.journal = es ++ h.journal ∧ es.Nested

namespace Nests

protected theorem refl (h : Host) : h.Nests h := ⟨[], rfl, Journal.nested_nil⟩

protected theorem trans {h₁ h₂ h₃ : Host} (h : h₁.Nests h₂) (h' : h₂.Nests h₃) : h₁.Nests h₃ := by
  obtain ⟨es, hes, hnested⟩ := h
  obtain ⟨fs, hfs, hnested'⟩ := h'
  exact ⟨fs ++ es, by rw [hfs, hes, List.append_assoc], hnested.append hnested'⟩

instance : IsPreorder Host Nests where
  refl := Nests.refl
  trans _ _ _ := Nests.trans

end Nests

end Host

/-- The effect of a host function is told by plain events. -/
theorem Effect.nests {f : HostFunction} {h h' : Host} (heffect : Effect f h h') : h.Nests h' := by
  cases heffect with
  | wrote _ key value => exact ⟨[.wrote key value], rfl, Journal.nested_of_plain trivial⟩
  | removed _ key => exact ⟨[.removed key], rfl, Journal.nested_of_plain trivial⟩
  | said _ text => exact ⟨[.debugged text], rfl, Journal.nested_of_plain trivial⟩
  | none => exact Host.Nests.refl h

/-- In a turn of the host nobody is called. -/
theorem Host.Turns.nests {h h' : Host} (hturns : h.Turns h') : h.Nests h' := by
  obtain ⟨es, hes, hremarks⟩ := hturns.journal
  refine ⟨es, hes, Journal.nested_of_forall_plain fun e he => ?_⟩
  have hremark := hremarks e he
  cases e <;> first | exact trivial | exact hremark.elim

/-! ## Runs -/

namespace Guest

/-- If a host function that the guest's own code called fails among the events of a run, the run is
over: it ends with this event and with the trap of that failure, in the world that the host function
left. -/
def Unwinds (l : Linked) (attached : Bool) (o : Option Trap) (u : World) (es : Journal) : Prop :=
  ∀ (f : HostFunction) (e : HostFault) (since : Journal),
    .failed f e :: since <:+ es → since.atWork 0 = 1 →
    es = .failed f e :: since ∧ o = some (.host e) ∧
    ∃ fuel args v, (Service.serve (access l attached (invoke l attached fuel)) f args).run v =
      .error e u

variable {l : Linked} {attached : Bool} {s : Side} {w u : World} {o : Option Trap}

/-- Where nothing happened, nothing failed. -/
theorem unwinds_nil : Unwinds l attached o u [] := by
  intro f e since h
  cases List.suffix_nil.mp h

/-- What comes before is no matter if no host function failed in it that the guest's own code
called. -/
theorem Unwinds.append {es fs : Journal} (hfs : Unwinds l attached o u fs) (hes : es.Nested)
    (hfails : ∀ {f e} {since : Journal}, .failed f e :: since <:+ es → since.atWork 0 ≠ 1) :
    Unwinds l attached o u (fs ++ es) := by
  intro f e since h hcaller
  obtain hold | ⟨since', hnew, rfl⟩ := cons_suffix_append h
  · exact absurd hcaller (hfails hold)
  · rw [Journal.atWork_append, hes.atWork] at hcaller
    obtain ⟨rfl, hend, hserved⟩ := hfs f e since' hnew hcaller
    exact ⟨rfl, hend, hserved⟩

/-- The events of a run are nested, and a failure of a host function that the guest's own code
called ends it. The induction is on the run, of which the side of the guest can end so only. -/
theorem Runs.exists_events (h : Runs l attached s w o u) :
    ∃ es : Journal, u.host.journal = es ++ w.host.journal ∧ es.Nested ∧
      (s = .guest → Unwinds l attached o u es) := by
  induction h with
  | done | trap => exact ⟨[], rfl, Journal.nested_nil, fun _ => unwinds_nil⟩
  | fault => exact ⟨[], rfl, Journal.nested_nil, nofun⟩
  | memory _ _ ih | globals _ _ ih => exact ih
  | @charged w _ _ cost _ _ _ _ ih =>
    obtain ⟨es, hes, hnested, hunwinds⟩ := ih
    have hplain : (Event.charged cost).IsPlain := trivial
    have hcharged : Journal.Nested [.charged cost] := Journal.nested_of_plain hplain
    refine ⟨es ++ [.charged cost], ?_, hcharged.append hnested, fun hs => ?_⟩
    · rw [hes, List.append_assoc]
      rfl
    · refine Unwinds.append (hunwinds hs) hcharged fun h => ?_
      exact absurd h (Journal.not_failed_of_plain hplain)
  | @exhausted w cost =>
    have hplain : (Event.exhausted cost).IsPlain := trivial
    refine ⟨[.exhausted cost], rfl, Journal.nested_of_plain hplain, fun _ f e since h => ?_⟩
    exact absurd h (Journal.not_failed_of_plain hplain)
  | @returned w _ _ _ _ f _ effect _ ihinner ihrest =>
    obtain ⟨es, hes, hnested, -⟩ := ihinner
    obtain ⟨ms, hms, hnested'⟩ := effect.nests
    obtain ⟨fs, hfs, hrest, hunwinds⟩ := ihrest
    -- what a host function did is closed by its return, so no failure in it is the caller's
    have hinner : (ms ++ es).Nested := hnested.append hnested'
    have hcall := hinner.call f (.inl rfl)
    refine ⟨fs ++ .returned f :: (ms ++ es ++ [.entered f]), ?_, hcall.append hrest, fun hs => ?_⟩
    · rw [hfs, World.noting, Host.noting, hms, hes]
      simp only [World.noting, Host.noting, List.append_assoc, List.cons_append, List.nil_append]
    · refine Unwinds.append (hunwinds hs) hcall fun h => ?_
      obtain h | h := List.suffix_cons_iff.mp h
      · cases h
      · exact Nat.ne_of_gt (hinner.lt_atWork_of_entered h)
  | @failed w v _ f _ e _ served ih =>
    obtain ⟨es, hes, hnested, -⟩ := ih
    refine ⟨.failed f e :: (es ++ [.entered f]), ?_, hnested.call f (.inr ⟨e, rfl⟩), fun _ => ?_⟩
    · rw [World.noting, Host.noting, hes]
      simp only [World.noting, Host.noting, List.append_assoc, List.cons_append, List.nil_append]
    -- the failure is this one, or one of an allocator below it, where more than one is at work
    · intro g e' since h hcaller
      obtain h | h := List.suffix_cons_iff.mp h
      · cases h
        exact ⟨rfl, rfl, _, _, w, served⟩
      · exact absurd hcaller (Nat.ne_of_gt (hnested.lt_atWork_of_entered h))
  | turn turn _ ih =>
    obtain ⟨es, hes, hnested, -⟩ := ih
    obtain ⟨fs, hfs, hnested'⟩ := turn.nests.trans ⟨es, hes, hnested⟩
    exact ⟨fs, hfs, hnested', nofun⟩
  | allocator _ _ ihinner ihrest =>
    obtain ⟨es, hes, hnested, -⟩ := ihinner
    obtain ⟨fs, hfs, hnested', -⟩ := ihrest
    refine ⟨fs ++ es, ?_, hnested.append hnested', nofun⟩
    rw [hfs, hes, List.append_assoc]
  | trapped _ _ ih =>
    obtain ⟨es, hes, hnested, -⟩ := ih
    exact ⟨es, hes, hnested, nofun⟩

end Guest

end ContractHost
