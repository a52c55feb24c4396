import ContractHost.Proofs.Guest.Services

/-!
# What is paid

Points are asked for in one place only, by `pay`: they are there and are taken, or the meter is
exhausted, the points are left alone, and the run is over. The journal tells of both. So what was
entered into the journal accounts for the meter (`Journal.Accounts`): the points that were paid and
those that are left are the points there were, and the meter is exhausted if it was before or if a
check found too few points.

Every run is accounted for, the runs of the allocator inside of it included, and one in which a
check found too few points has failed (`Runs.metered`). Host functions ask for nothing of their own
(`unmetered_serve`).
-/

namespace ContractHost

open Guest (Linked Meter Runs Side Trap Conforms)

/-! ## Checks in the journal -/

/-- Does an event tell that points were asked for? -/
def Event.TellsCheck : Event → Prop
  | .charged _ | .exhausted _ => True
  | _ => False

/-- The points that were paid. -/
def Event.paid : Event → Nat
  | .charged cost => cost
  | _ => 0

/-- Points are paid at checks only. -/
theorem Event.paid_of_not_tellsCheck {e : Event} (he : ¬ e.TellsCheck) : e.paid = 0 := by
  cases e <;> first | rfl | exact absurd trivial he

/-- The host remarks on no check. -/
theorem Event.IsRemark.not_tellsCheck {e : Event} (he : e.IsRemark) : ¬ e.TellsCheck := by
  cases e <;> first | exact id | exact he.elim

namespace Journal

/-- The points that were paid in all. -/
def spent : Journal → Nat
  | [] => 0
  | e :: es => e.paid + spent es

/-- Was there a check that found fewer points than it asked for? -/
def RanOut (es : Journal) : Prop := ∃ cost, .exhausted cost ∈ es

@[simp] theorem spent_nil : spent [] = 0 := rfl

@[simp] theorem spent_cons (e : Event) (es : Journal) : spent (e :: es) = e.paid + es.spent := rfl

/-- What was paid in two stretches of the journal adds up. -/
@[simp] theorem spent_append (es fs : Journal) : spent (es ++ fs) = es.spent + fs.spent := by
  induction es with
  | nil => rw [List.nil_append, spent_nil, Nat.zero_add]
  | cons e es ih => rw [List.cons_append, spent_cons, spent_cons, ih, Nat.add_assoc]

/-- A check that failed did so in one of two stretches. -/
theorem ranOut_append {es fs : Journal} : RanOut (es ++ fs) ↔ es.RanOut ∨ fs.RanOut := by
  simp only [RanOut, List.mem_append, exists_or]

variable {es fs : Journal}

/-- Without a check nothing was paid. -/
theorem spent_of_no_check (h : ∀ e ∈ es, ¬ e.TellsCheck) : es.spent = 0 := by
  induction es with
  | nil => rfl
  | cons e es ih =>
    obtain ⟨he, hes⟩ := List.forall_mem_cons.mp h
    rw [spent_cons, Event.paid_of_not_tellsCheck he, ih hes]

theorem not_ranOut_of_no_check (h : ∀ e ∈ es, ¬ e.TellsCheck) : ¬ es.RanOut := by
  intro ⟨cost, hcost⟩
  exact h _ hcost trivial

/-- No payment is larger than all payments together. -/
theorem le_spent_of_mem {cost : Nat} (h : .charged cost ∈ es) : cost ≤ es.spent := by
  obtain ⟨before, after, rfl⟩ := List.append_of_mem h
  rw [spent_append, spent_cons]
  show cost ≤ spent before + (cost + spent after)
  omega

/-- Events tell what became of a meter. -/
structure Accounts (es : Journal) (m m' : Meter) : Prop where
  points : es.spent + m'.points.toNat = m.points.toNat
  exhausted : m'.exhausted = true ↔ m.exhausted = true ∨ es.RanOut

/-- Events without a check account for a meter that is as it was. -/
theorem accounts_of_no_check (h : ∀ e ∈ es, ¬ e.TellsCheck) (m : Meter) : es.Accounts m m where
  points := by rw [spent_of_no_check h, Nat.zero_add]
  exhausted := (or_iff_left (not_ranOut_of_no_check h)).symm

namespace Accounts

variable {m m' m'' : Meter}

/-- Accounts of two stretches of the journal are put together. -/
theorem append (h : es.Accounts m m') (h' : fs.Accounts m' m'') : (fs ++ es).Accounts m m'' where
  points := by
    have hm := h.points
    have hm' := h'.points
    rw [spent_append]
    omega
  exhausted := by rw [h'.exhausted, h.exhausted, ranOut_append, or_assoc, or_comm (a := es.RanOut)]

/-- The points never get more. -/
theorem points_le (h : es.Accounts m m') : m'.points.toNat ≤ m.points.toNat := by
  have hm := h.points
  omega

/-- Nothing can be counted on once a check found too few points. -/
theorem remaining_of_ranOut (h : es.Accounts m m') (hout : es.RanOut) : m'.remaining = 0 := by
  have hexhausted : m'.exhausted = true := h.exhausted.mpr (.inr hout)
  rw [Meter.remaining, if_pos hexhausted]

/-- If the meter was not exhausted before, nothing can be counted on exactly if a check found too
few points or there are none. -/
theorem remaining_eq_zero_iff (h : es.Accounts m m') (hm : m.exhausted = false) :
    m'.remaining = 0 ↔ es.RanOut ∨ m'.points = 0 := by
  have hexhausted : m'.exhausted = true ↔ es.RanOut := by
    rw [h.exhausted, hm]
    exact or_iff_right Bool.false_ne_true
  rw [Meter.remaining]
  by_cases hout : es.RanOut
  · rw [if_pos (hexhausted.mpr hout)]
    exact iff_of_true rfl (.inl hout)
  · rw [if_neg (mt hexhausted.mp hout)]
    exact (or_iff_right hout).symm

/-- What can be counted on never gets more. -/
theorem remaining_le (h : es.Accounts m m') : m'.remaining ≤ m.remaining := by
  have hpoints : m'.points ≤ m.points := UInt64.le_iff_toNat_le.mpr h.points_le
  unfold Meter.remaining
  by_cases hm' : m'.exhausted = true
  · rw [if_pos hm']
    exact UInt64.zero_le
  · have hm : ¬ m.exhausted = true := fun hm => hm' (h.exhausted.mpr (.inl hm))
    rw [if_neg hm', if_neg hm]
    exact hpoints

end Accounts

end Journal

namespace Guest.Meter

variable {m m' : Meter} {cost : Nat}

/-- A payment is taken from the points as it is, without any wrapping, and exhausts nothing. -/
theorem eq_of_pay? (h : m.pay? cost = some m') :
    cost + m'.points.toNat = m.points.toNat ∧ m'.exhausted = m.exhausted := by
  unfold pay? at h
  split at h
  · cases h
  · rename_i hcost
    cases h
    have hlt : m.points.toNat - cost < UInt64.size :=
      Nat.lt_of_le_of_lt (Nat.sub_le _ _) m.points.toNat_lt
    have hleft : (UInt64.ofNat (m.points.toNat - cost)).toNat = m.points.toNat - cost :=
      UInt64.toNat_ofNat_of_lt' hlt
    refine ⟨?_, rfl⟩
    show cost + (UInt64.ofNat (m.points.toNat - cost)).toNat = m.points.toNat
    omega

/-- A payment is accounted for by its event. -/
theorem accounts_charged (h : m.pay? cost = some m') :
    Journal.Accounts [.charged cost] m m' where
  points := by
    rw [Journal.spent_cons, Journal.spent_nil, Nat.add_zero]
    exact (eq_of_pay? h).1
  exhausted := by simp [Journal.RanOut, (eq_of_pay? h).2]

/-- A check that failed took no points. -/
theorem accounts_exhausted (m : Meter) (cost : Nat) :
    Journal.Accounts [.exhausted cost] m { m with exhausted := true } where
  points := Nat.zero_add _
  exhausted := iff_of_true rfl (.inr ⟨cost, List.mem_singleton_self _⟩)

end Guest.Meter

/-! ## Host functions -/

/-- No points were asked for: the meter is as it was, and nothing was entered into the journal that
tells of a check. -/
def Unmetered {ε : Type} (w : World) (_ : Option ε) (u : World) : Prop :=
  u.guest.meter = w.guest.meter ∧
    ∃ es : Journal, u.host.journal = es ++ w.host.journal ∧ ∀ e ∈ es, ¬ e.TellsCheck

namespace Unmetered

variable {ε : Type} {o : Option ε} {w u : World}

/-- Where neither journal nor meter changed, no points were asked for. -/
theorem of_same_journal (hjournal : u.host.journal = w.host.journal)
    (hmeter : u.guest.meter = w.guest.meter) : Unmetered w o u :=
  ⟨hmeter, [], hjournal, List.forall_mem_nil _⟩

theorem noting {e : Event} (he : ¬ e.TellsCheck) : Unmetered w o (w.noting e) :=
  ⟨rfl, [e], rfl, List.forall_mem_singleton.mpr he⟩

instance sequential : Sequential (Unmetered (ε := ε)) where
  done _ := of_same_journal rfl rfl
  trans {w v u o} h h' := by
    obtain ⟨hmeter, es, hes, hchecks⟩ := h
    obtain ⟨hmeter', fs, hfs, hchecks'⟩ := h'
    have hjournal : u.host.journal = (fs ++ es) ++ w.host.journal := by
      rw [hfs, hes, List.append_assoc]
    exact ⟨hmeter'.trans hmeter, fs ++ es, hjournal, List.forall_mem_append.mpr ⟨hchecks', hchecks⟩⟩

end Unmetered

/-- No turn of the host asks for points. -/
theorem Host.Turns.unmetered {ε : Type} {o : Option ε} {w : World} {h : Host}
    (hturns : w.host.Turns h) : Unmetered w o { w with host := h } := by
  obtain ⟨es, hes, hremarks⟩ := hturns.journal
  exact ⟨rfl, es, hes, fun e he => (hremarks e he).not_tellsCheck⟩

/-- The effect of a host function asks for no points. -/
theorem Effect.unmetered {ε : Type} {o : Option ε} {f : HostFunction} {v : World} {h : Host}
    (heffect : Effect f v.host h) : Unmetered v o { v with host := h } := by
  cases heffect with
  | wrote _ key value => exact ⟨rfl, [.wrote key value], rfl, List.forall_mem_singleton.mpr id⟩
  | removed _ key => exact ⟨rfl, [.removed key], rfl, List.forall_mem_singleton.mpr id⟩
  | said _ text => exact ⟨rfl, [.debugged text], rfl, List.forall_mem_singleton.mpr id⟩
  | none => exact .of_same_journal rfl rfl

namespace Guest

instance serviceLaw_unmetered : ServiceLaw Unmetered where
  memory _ _ := .of_same_journal rfl rfl
  fault _ _ := .of_same_journal rfl rfl
  turn turn := turn.unmetered

/-- A host function asks for no points of its own: if the allocator asks for none, then none are
asked for at all. -/
theorem unmetered_serve {g : Access World} (hg : LawfulAccess Unmetered g) (f : HostFunction)
    (args : List Value) : Obeys Unmetered (Service.serve g f args) := by
  intro w
  have hentered : Unmetered (ε := HostFault) w none (w.noting (.entered f)) := .noting id
  have hserves := serves_run hg f args (w.noting (.entered f))
  rw [run_serve]
  cases hrun : (Service.run g f args).run (w.noting (.entered f)) with
  | ok results u =>
    rw [hrun] at hserves
    obtain ⟨v, h, hv, heffect, rfl⟩ := hserves
    -- entering, the work on the guest, the effect on the host, and the return
    have hreturned : Unmetered (ε := HostFault) { v with host := h } none
      (World.noting { v with host := h } (.returned f)) := .noting id
    exact Sequential.trans hentered
      (Sequential.trans hv (Sequential.trans heffect.unmetered hreturned))
  | error e u =>
    rw [hrun] at hserves
    obtain ⟨hmeter, es, hes, hchecks⟩ := Sequential.trans hentered hserves
    refine ⟨hmeter, .failed f e :: es, ?_, List.forall_mem_cons.mpr ⟨id, hchecks⟩⟩
    rw [World.noting, Host.noting, hes]
    rfl

end Guest

/-! ## Payments -/

/-- Every check stands in the code of a guest. -/
def Journal.StandsIn (l : Linked) (es : Journal) : Prop :=
  ∀ cost, .charged cost ∈ es ∨ .exhausted cost ∈ es → l.Charges cost

/-- What was entered into the journal accounts for the guest's meter, and is about charges that
stand in the guest's code. -/
def Pays (l : Linked) (w u : World) : Prop :=
  ∃ es : Journal, u.host.journal = es ++ w.host.journal ∧
    es.Accounts w.guest.meter u.guest.meter ∧ es.StandsIn l

/-- Payments are accounted for and stand in the guest's code, and if a check found too few points,
that is `told` as the failure of what was going on. -/
def Metered (l : Linked) {ε : Type} (told : ε → Prop) (w : World) (o : Option ε) (u : World) :
    Prop :=
  ∃ es : Journal, u.host.journal = es ++ w.host.journal ∧
    es.Accounts w.guest.meter u.guest.meter ∧ es.StandsIn l ∧
    (es.RanOut → ∃ e, o = some e ∧ told e)

namespace Journal

variable {l : Linked} {es fs : Journal}

/-- Where there is no check there is none to find in the code. -/
theorem standsIn_of_no_check (h : ∀ e ∈ es, ¬ e.TellsCheck) : es.StandsIn l :=
  fun _ hmem => hmem.elim (fun he => (h _ he trivial).elim) fun he => (h _ he trivial).elim

theorem StandsIn.append (hes : es.StandsIn l) (hfs : fs.StandsIn l) : (fs ++ es).StandsIn l := by
  intro cost hmem
  simp only [List.mem_append] at hmem
  obtain (h | h) | h | h := hmem
  · exact hfs cost (.inl h)
  · exact hes cost (.inl h)
  · exact hfs cost (.inr h)
  · exact hes cost (.inr h)

/-- A payment that stands in the code. -/
theorem standsIn_charged {cost : Nat} (h : l.Charges cost) : StandsIn l [.charged cost] := by
  intro cost' hmem
  simp only [List.mem_singleton, Event.charged.injEq, reduceCtorEq, or_false] at hmem
  rwa [hmem]

/-- A failed check that stands in the code. -/
theorem standsIn_exhausted {cost : Nat} (h : l.Charges cost) : StandsIn l [.exhausted cost] := by
  intro cost' hmem
  simp only [List.mem_singleton, Event.exhausted.injEq, reduceCtorEq, false_or] at hmem
  rwa [hmem]

end Journal

instance isPreorder_pays (l : Linked) : IsPreorder World (Pays l) where
  refl w := ⟨[], rfl, Journal.accounts_of_no_check (List.forall_mem_nil _) _,
    Journal.standsIn_of_no_check (List.forall_mem_nil _)⟩
  trans w v u := by
    intro ⟨es, hes, haccounts, hstands⟩ ⟨fs, hfs, haccounts', hstands'⟩
    refine ⟨fs ++ es, ?_, haccounts.append haccounts', hstands.append hstands'⟩
    rw [hfs, hes, List.append_assoc]

namespace Metered

variable {l : Linked} {ε ε' : Type} {told : ε → Prop} {w u : World} {o : Option ε}

/-- Accounts forget how a failed check was told. -/
theorem pays (h : Metered l told w o u) : Pays l w u := by
  obtain ⟨es, hes, haccounts, hstands, -⟩ := h
  exact ⟨es, hes, haccounts, hstands⟩

/-- Where no points are asked for there is nothing to account for. -/
theorem of_unmetered (h : Unmetered w o u) : Metered l told w o u := by
  obtain ⟨hmeter, es, hes, hchecks⟩ := h
  refine ⟨es, hes, ?_, Journal.standsIn_of_no_check hchecks, fun hout =>
    absurd hout (Journal.not_ranOut_of_no_check hchecks)⟩
  rw [hmeter]
  exact Journal.accounts_of_no_check hchecks _

instance sequential : Sequential (Metered l told) where
  done _ := of_unmetered (.of_same_journal rfl rfl)
  trans {w v u o} h h' := by
    obtain ⟨es, hes, haccounts, hstands, hout⟩ := h
    obtain ⟨fs, hfs, haccounts', hstands', htold⟩ := h'
    have hjournal : u.host.journal = (fs ++ es) ++ w.host.journal := by
      rw [hfs, hes, List.append_assoc]
    -- the first part did not fail, so no check of it did
    have hnot : ¬ es.RanOut := by
      intro hran
      obtain ⟨e, he, -⟩ := hout hran
      cases he
    refine ⟨fs ++ es, hjournal, haccounts.append haccounts', hstands.append hstands',
      fun hran => ?_⟩
    exact htold ((Journal.ranOut_append.mp hran).resolve_right hnot)

/-- The same payments, their failure told in another way. -/
theorem retold {told' : ε' → Prop} {o' : Option ε'} (h : Metered l told w o u)
    (htold : ∀ e, o = some e → told e → ∃ e', o' = some e' ∧ told' e') :
    Metered l told' w o' u := by
  obtain ⟨es, hes, haccounts, hstands, hout⟩ := h
  refine ⟨es, hes, haccounts, hstands, fun hran => ?_⟩
  obtain ⟨e, he, htold'⟩ := hout hran
  exact htold e he htold'

end Metered

theorem Unmetered.pays {l : Linked} {ε : Type} {o : Option ε} {w u : World}
    (h : Unmetered w o u) : Pays l w u := by
  have hmetered : Metered l (fun _ : ε => True) w o u := .of_unmetered h
  exact hmetered.pays

namespace Guest

/-- Every step of a run is accounted for, so the run is. A check that finds too few points ends it,
or it ends the run of an allocator, and with it the host function that had it run. -/
theorem Runs.metered {l : Linked} {attached : Bool} {s : Side} {w u : World} {o : Option Trap}
    (h : Runs l attached s w o u) : Metered l (fun _ : Trap => True) w o u := by
  induction h with
  | done | trap | fault => exact .of_unmetered (.of_same_journal rfl rfl)
  | memory _ _ ih | globals _ _ ih =>
    exact Sequential.trans (.of_unmetered (.of_same_journal rfl rfl)) ih
  | @charged w _ _ cost m stands paid _ ih =>
    have hcharge : Metered l (fun _ : Trap => True) w none
        (World.noting { w with guest := { w.guest with meter := m } } (.charged cost)) := by
      refine ⟨[.charged cost], rfl, Meter.accounts_charged paid,
        Journal.standsIn_charged stands, ?_⟩
      simp [Journal.RanOut]
    exact Sequential.trans hcharge ih
  | @exhausted w cost stands =>
    have haccounts := w.guest.meter.accounts_exhausted cost
    exact ⟨[.exhausted cost], rfl, haccounts, Journal.standsIn_exhausted stands, fun _ =>
      ⟨_, rfl, trivial⟩⟩
  | @returned w v u h o f _ effect _ ihinner ihrest =>
    have hentered : Unmetered (ε := Trap) w none (w.noting (.entered f)) := .noting id
    have heffect : Unmetered (ε := Trap) v none { v with host := h } := effect.unmetered
    have hreturned : Unmetered (ε := Trap) { v with host := h } none
      (World.noting { v with host := h } (.returned f)) := .noting id
    exact Sequential.trans (.of_unmetered hentered) (Sequential.trans ihinner
      (Sequential.trans (.of_unmetered (Sequential.trans heffect hreturned)) ihrest))
  | @failed w v _ f _ e _ _ ih =>
    -- whatever ran out inside, the host function failed, and that ends the run
    have hentered : Unmetered (ε := Trap) w none (w.noting (.entered f)) := .noting id
    obtain ⟨es, hes, haccounts, hstands, -⟩ := Sequential.trans (.of_unmetered hentered) ih
    have hno : ∀ e' ∈ [Event.failed f e], ¬ e'.TellsCheck := List.forall_mem_singleton.mpr id
    have hfailed : Journal.Accounts [.failed f e] v.guest.meter v.guest.meter :=
      Journal.accounts_of_no_check hno _
    refine ⟨[.failed f e] ++ es, ?_, haccounts.append hfailed,
      hstands.append (Journal.standsIn_of_no_check hno), fun _ => ⟨_, rfl, trivial⟩⟩
    rw [World.noting, Host.noting, hes]
    rfl
  | turn turn _ ih => exact Sequential.trans (.of_unmetered turn.unmetered) ih
  | allocator _ _ ihinner ihrest => exact Sequential.trans ihinner ihrest
  | trapped label _ ih =>
    -- the allocator's trap is passed on as a failure, which need not say what it was
    obtain ⟨es, hes, haccounts, hstands, -⟩ := ih
    exact ⟨es, hes, haccounts, hstands, fun _ => ⟨_, rfl, trivial⟩⟩

/-- What does no more than runs do is accounted for. -/
theorem Conforms.metered {l : Linked} {attached : Bool} {s : Side} {ε α : Type} {trap : ε → Trap}
    {x : EStateM ε World α} (hx : Conforms l attached s trap x) :
    Obeys (Metered l fun _ => True) x :=
  Obeys.mono hx fun h => (Runs.metered h).retold fun t ht _ => by
    obtain ⟨e, he, -⟩ := Option.map_eq_some_iff.mp ht
    exact ⟨e, he, trivial⟩

end Guest

end ContractHost
