import Mathlib.Order.Defs.Unbundled

/-!
# What a computation does to its state

`Obeys` is the frame of a computation: a law relates the state it begins with, the failure in which
it ends, if it does, and the state it leaves. For a law that is `Sequential` it is closed under
sequences. `Moves` is the case of a law that asks for no failure, and then it is enough that the law
is a preorder.

`Commutes` compares two runs of one computation, from a state and from its image under a map: they
answer alike, and one leaves the image of what the other leaves. Nothing that the map takes away has
a part in what the computation does, then.

Both are properties of a sequence if they are of its parts. So that a program is gone through once
for all such properties, what it is made of is said of any property that is `Compositional`.
-/

namespace ContractHost

/-! ## Sequences -/

/-- A property of computations that doing nothing has, and a sequence if its parts have it. -/
structure Compositional {ε σ : Type} (C : (α : Type) → EStateM ε σ α → Prop) : Prop where
  pure {α : Type} (a : α) : C α (pure a)
  bind {α β : Type} {x : EStateM ε σ α} {f : α → EStateM ε σ β} (hx : C α x)
    (hf : ∀ a, C β (f a)) : C β (x >>= f)

/-- Working off a list is a sequence. -/
theorem Compositional.mapM {ε σ α β : Type} {C : (α : Type) → EStateM ε σ α → Prop}
    (hC : Compositional C) {f : α → EStateM ε σ β} (hf : ∀ a, C β (f a)) (as : List α) :
    C (List β) (as.mapM f) := by
  induction as with
  | nil =>
    rw [List.mapM_nil]
    exact hC.pure []
  | cons a as ih =>
    rw [List.mapM_cons]
    exact hC.bind (hf a) fun b => hC.bind ih fun bs => hC.pure (b :: bs)

/-- A sequence succeeds if its parts do. -/
theorem run_bind_eq_ok {ε σ α β : Type} {x : EStateM ε σ α} {f : α → EStateM ε σ β} {s u : σ}
    {b : β} (h : (x >>= f).run s = .ok b u) : ∃ a t, x.run s = .ok a t ∧ (f a).run t = .ok b u := by
  rw [EStateM.run_bind] at h
  cases hrun : x.run s with
  | error e t =>
    rw [hrun] at h
    cases h
  | ok a t =>
    rw [hrun] at h
    exact ⟨a, t, rfl, h⟩

/-- A sequence fails if its first part does, or if the rest does. -/
theorem run_bind_eq_error {ε σ α β : Type} {x : EStateM ε σ α} {f : α → EStateM ε σ β} {s u : σ}
    {e : ε} : (x >>= f).run s = .error e u ↔
      x.run s = .error e u ∨ ∃ a t, x.run s = .ok a t ∧ (f a).run t = .error e u := by
  rw [EStateM.run_bind]
  cases x.run s with
  | ok a t =>
    constructor
    · exact fun h => .inr ⟨a, t, rfl, h⟩
    · intro h
      obtain h | ⟨a', t', h, h'⟩ := h
      · cases h
      · cases h
        exact h'
  | error e' t =>
    constructor
    · intro h
      cases h
      exact .inl rfl
    · intro h
      obtain h | ⟨a, t', h, -⟩ := h
      · cases h
        rfl
      · cases h

/-- A list is worked off up to the first element that fails. -/
theorem run_mapM_eq_error {ε σ α β : Type} {f : α → EStateM ε σ β} {as : List α} {s u : σ} {e : ε} :
    (as.mapM f).run s = .error e u ↔ ∃ before a after bs t, as = before ++ a :: after ∧
      (before.mapM f).run s = .ok bs t ∧ (f a).run t = .error e u := by
  induction as generalizing s with
  | nil =>
    rw [List.mapM_nil]
    refine iff_of_false nofun ?_
    intro ⟨before, a, after, bs, t, has, _⟩
    cases before <;> cases has
  | cons a as ih =>
    rw [List.mapM_cons, run_bind_eq_error]
    constructor
    · intro h
      -- the first element fails, or one behind it does; the answer itself cannot
      obtain ha | ⟨b, t, ha, has⟩ := h
      · exact ⟨[], a, as, [], s, rfl, by rw [List.mapM_nil]; rfl, ha⟩
      · obtain has | ⟨bs, t', -, hpure⟩ := run_bind_eq_error.mp has
        · obtain ⟨before, a', after, bs, t', rfl, hbefore, ha'⟩ := ih.mp has
          refine ⟨a :: before, a', after, b :: bs, t', rfl, ?_, ha'⟩
          rw [List.mapM_cons, EStateM.run_bind, ha]
          simp only [EStateM.run_bind, hbefore]
          rfl
        · cases hpure
    · intro ⟨before, a', after, bs, t, has, hbefore, ha'⟩
      cases before with
      | nil =>
        obtain ⟨rfl, rfl⟩ := List.cons.inj has
        rw [List.mapM_nil] at hbefore
        cases hbefore
        exact .inl ha'
      | cons a₁ before =>
        obtain ⟨rfl, rfl⟩ := List.cons.inj has
        rw [List.mapM_cons] at hbefore
        obtain ⟨b, t', ha, hbefore⟩ := run_bind_eq_ok hbefore
        obtain ⟨bs', t₁, hbefore, hpure⟩ := run_bind_eq_ok hbefore
        cases hpure
        refine .inr ⟨b, t', ha, run_bind_eq_error.mpr (.inl ?_)⟩
        exact ih.mpr ⟨before, a', after, bs', t, rfl, hbefore, ha'⟩

/-- Telling failures in another way does not touch a success. -/
theorem run_adaptExcept_eq_ok {ε ε' σ α : Type} {f : ε → ε'} {x : EStateM ε σ α} {s t : σ} {a : α}
    (h : (EStateM.adaptExcept f x).run s = .ok a t) : x.run s = .ok a t := by
  simp only [EStateM.run, EStateM.adaptExcept] at h
  cases hrun : x s with
  | error e u =>
    rw [hrun] at h
    cases h
  | ok b u =>
    rw [hrun] at h
    cases h
    exact hrun

/-! ## Laws -/

/-- All that a computation does is as `P` says: the state that it begins with, the failure in which
it ends, if it does, and the state that it leaves. -/
def Obeys {ε σ α : Type} (P : σ → Option ε → σ → Prop) (x : EStateM ε σ α) : Prop :=
  ∀ s, match x.run s with
    | .ok _ t => P s none t
    | .error e t => P s (some e) t

/-- To obey a law, as a property of computations. -/
abbrev Obeying {ε σ : Type} (P : σ → Option ε → σ → Prop) : (α : Type) → EStateM ε σ α → Prop :=
  fun _ x => Obeys P x

/-- What holds of doing nothing, and of a sequence if it holds of the parts. -/
class Sequential {ε σ : Type} (P : σ → Option ε → σ → Prop) : Prop where
  done (s : σ) : P s none s
  trans {s t u : σ} {o : Option ε} (h : P s none t) (h' : P t o u) : P s o u

namespace Obeys

variable {ε ε' σ α β : Type} {P : σ → Option ε → σ → Prop} {x : EStateM ε σ α} {s t : σ}

/-- What a law says of a success. -/
theorem of_ok (hx : Obeys P x) {a : α} (h : x.run s = .ok a t) : P s none t := by
  have hs := hx s
  rwa [h] at hs

/-- What a law says of a failure. -/
theorem of_error (hx : Obeys P x) {e : ε} (h : x.run s = .error e t) : P s (some e) t := by
  have hs := hx s
  rwa [h] at hs

/-- A law is obeyed by all that obeys a stronger one. -/
theorem mono {Q : σ → Option ε → σ → Prop} (hx : Obeys P x)
    (hPQ : ∀ {s o t}, P s o t → Q s o t) : Obeys Q x := by
  intro s
  cases hrun : x.run s with
  | ok a t => exact hPQ (hx.of_ok hrun)
  | error e t => exact hPQ (hx.of_error hrun)

/-- A computation whose failures are told in another way. -/
theorem adaptExcept {Q : σ → Option ε' → σ → Prop} (hx : Obeys P x) {f : ε → ε'}
    (hok : ∀ {s t}, P s none t → Q s none t)
    (herror : ∀ {s e t}, P s (some e) t → Q s (some (f e)) t) :
    Obeys Q (EStateM.adaptExcept f x) := by
  intro s
  simp only [EStateM.run, EStateM.adaptExcept]
  cases hrun : x s with
  | ok a t => exact hok (hx.of_ok hrun)
  | error e t => exact herror (hx.of_error hrun)

/-- Failing obeys a law that allows the failure anywhere. -/
theorem throw {e : ε} (he : ∀ s, P s (some e) s) : Obeys P (throw e : EStateM ε σ α) := he

variable [Sequential P]

protected theorem pure (a : α) : Obeys P (pure a : EStateM ε σ α) := Sequential.done

protected theorem get : Obeys P (get : EStateM ε σ σ) := Sequential.done

/-- A law that is sequential is obeyed by a sequence if its parts obey it. -/
protected theorem bind {f : α → EStateM ε σ β} (hx : Obeys P x) (hf : ∀ a, Obeys P (f a)) :
    Obeys P (x >>= f) := by
  intro s
  rw [EStateM.run_bind]
  cases hrun : x.run s with
  | error e t => exact hx.of_error hrun
  | ok a t =>
    have hst : P s none t := hx.of_ok hrun
    show match (f a).run t with
      | .ok _ u => P s none u
      | .error e u => P s (some e) u
    cases hrun' : (f a).run t with
    | ok b u => exact Sequential.trans hst ((hf a).of_ok hrun')
    | error e u => exact Sequential.trans hst ((hf a).of_error hrun')

/-- To obey a sequential law is a property that sequences have from their parts. -/
theorem compositional : Compositional (Obeying P) where
  pure := Obeys.pure
  bind := Obeys.bind

end Obeys

/-- Whether a computation succeeds or fails, it relates the state it began with to the one it
leaves. -/
def Moves {ε σ α : Type} (R : σ → σ → Prop) (x : EStateM ε σ α) : Prop :=
  ∀ s, match x.run s with
    | .ok _ t => R s t
    | .error _ t => R s t

/-- To move states as a relation says, as a property of computations. -/
abbrev Moving {ε σ : Type} (R : σ → σ → Prop) : (α : Type) → EStateM ε σ α → Prop :=
  fun _ x => Moves R x

/-- A relation that asks for no failure. -/
instance sequential_of_isPreorder {ε σ : Type} {R : σ → σ → Prop} [IsPreorder σ R] :
    Sequential fun (s : σ) (_ : Option ε) t => R s t where
  done := Std.Refl.refl
  trans := IsTrans.trans _ _ _

namespace Moves

variable {ε ε' σ α β : Type} {R : σ → σ → Prop} {x : EStateM ε σ α}

/-- A relation of states is a law that asks for no failure. -/
theorem iff_obeys : Moves R x ↔ Obeys (fun s _ t => R s t) x := Iff.rfl

theorem of_ok (hx : Moves R x) {s t : σ} {a : α} (h : x.run s = .ok a t) : R s t :=
  (iff_obeys.mp hx).of_ok h

theorem of_error (hx : Moves R x) {s t : σ} {e : ε} (h : x.run s = .error e t) : R s t :=
  (iff_obeys.mp hx).of_error h

/-- A relation of states does not care in what words failures are told. -/
theorem adaptExcept (hx : Moves R x) (f : ε → ε') : Moves R (EStateM.adaptExcept f x) :=
  iff_obeys.mpr ((iff_obeys.mp hx).adaptExcept id id)

variable [IsPreorder σ R]

protected theorem pure (a : α) : Moves R (pure a : EStateM ε σ α) := fun s => Std.Refl.refl s

protected theorem throw (e : ε) : Moves R (throw e : EStateM ε σ α) := fun s => Std.Refl.refl s

protected theorem get : Moves R (get : EStateM ε σ σ) := fun s => Std.Refl.refl s

/-- A preorder is kept by a sequence if its parts keep it. -/
protected theorem bind {f : α → EStateM ε σ β} (hx : Moves R x) (hf : ∀ a, Moves R (f a)) :
    Moves R (x >>= f) :=
  iff_obeys.mpr (Obeys.bind (iff_obeys.mp hx) hf)

theorem compositional : Compositional (@Moving ε σ R) where
  pure := Moves.pure
  bind := Moves.bind

end Moves

/-- A relation between parts of states. -/
instance isPreorder_invImage {σ τ : Type} {R : τ → τ → Prop} [IsPreorder τ R] (p : σ → τ) :
    IsPreorder σ (InvImage R p) where
  refl s := Std.Refl.refl (p s)
  trans s t u := IsTrans.trans (p s) (p t) (p u)

/-! ## Maps of the state -/

/-- How a computation ends, seen through a map of the states. -/
def endingIn {ε σ τ α : Type} (m : σ → τ) : EStateM.Result ε σ α → EStateM.Result ε τ α
  | .ok a s => .ok a (m s)
  | .error e s => .error e (m s)

/-- A computation does the same from the image of a state as from the state itself: it answers or
fails alike, and leaves the image of the state that it leaves there. -/
def Commutes {ε σ α : Type} (m : σ → σ) (x : EStateM ε σ α) : Prop :=
  ∀ s, x.run (m s) = endingIn m (x.run s)

/-- To commute with a map of the states, as a property of computations. -/
abbrev Commuting {ε σ : Type} (m : σ → σ) : (α : Type) → EStateM ε σ α → Prop :=
  fun _ x => Commutes m x

namespace Commutes

variable {ε ε' σ α β : Type} {m : σ → σ} {x : EStateM ε σ α}

protected theorem pure (a : α) : Commutes m (pure a : EStateM ε σ α) := fun _ => rfl

protected theorem throw (e : ε) : Commutes m (throw e : EStateM ε σ α) := fun _ => rfl

/-- The second part of a sequence begins in the image of the state that the first one leaves. -/
protected theorem bind {f : α → EStateM ε σ β} (hx : Commutes m x) (hf : ∀ a, Commutes m (f a)) :
    Commutes m (x >>= f) := by
  intro s
  rw [EStateM.run_bind, EStateM.run_bind, hx s]
  cases x.run s with
  | ok a t => exact hf a t
  | error e t => rfl

theorem compositional : Compositional (@Commuting ε σ m) where
  pure := Commutes.pure
  bind := Commutes.bind

/-- A look at the state is no matter if what comes of it is the same in the image. -/
theorem get_bind {f : σ → EStateM ε σ β} (hsame : ∀ s, f (m s) = f s)
    (hf : ∀ s, Commutes m (f s)) : Commutes m (get >>= f) := by
  intro s
  show (f (m s)).run (m s) = endingIn m ((f s).run s)
  rw [hsame]
  exact hf s s

/-- A change of the state commutes if it does so as a function. -/
theorem modify {f : σ → σ} (hf : ∀ s, f (m s) = m (f s)) :
    Commutes m (modify f : EStateM ε σ PUnit) := by
  intro s
  show EStateM.Result.ok PUnit.unit (f (m s)) = .ok PUnit.unit (m (f s))
  rw [hf]

/-- It is no matter in what words failures are told. -/
theorem adaptExcept (hx : Commutes m x) (f : ε → ε') : Commutes m (EStateM.adaptExcept f x) := by
  intro s
  have hs := hx s
  simp only [EStateM.run] at hs
  simp only [EStateM.run, EStateM.adaptExcept, hs]
  cases x s with
  | ok a t => rfl
  | error e t => rfl

end Commutes

end ContractHost
