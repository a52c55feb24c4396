import ContractHost.Guest.Blueprint
import ContractHost.Proofs.Guest.Metering

/-!
# Where charges stand

A charge stands in front of an instruction where control may leave the straight line, and is the
price of the instructions from the one before up to there (`Code.exists_block_of_charges`). So the
call of a function stands right behind a charge of its price at least (`Code.tolled_of_metered?`).
Nothing lies between the two, so who cannot pay for a call does not come to make one: below the
price of a call, code with its charges runs without any function, of host or guest, being called
(`codeLaw_idle`).

The points get no more on the way. So with fewer points than a call costs, running a guest whose
function is its own leaves the host as it is but for the journal (`idle_run`), and so does having
its allocator run if that is its own (`lawfulAccess_idle`). A guest that is made of a blueprint has
its charges, and every function that it shows is its own (`Blueprint.metered_and_owns`).
-/

namespace ContractHost

/-- Does an event tell that the guest called a host function? -/
def Event.Enters : Event → Prop
  | .entered _ => True
  | _ => False

namespace Guest

/-! ## Prices and charges -/

/-- The price of instructions. -/
def price : List Instr → Nat
  | [] => 0
  | i :: is => i.cost + price is

/-- The price of instructions is the sum over its parts. -/
theorem price_append (is js : List Instr) : price (is ++ js) = price is + price js := by
  induction is with
  | nil => rw [List.nil_append, price, Nat.zero_add]
  | cons i is ih => rw [List.cons_append, price, price, ih, Nat.add_assoc]

theorem price_singleton (i : Instr) : price [i] = i.cost := Nat.add_zero i.cost

/-- The blocks of instructions that are paid for as a whole. Each ends with an instruction that
settles, and the last one at the end; `block` is what the first one begins with. -/
def blocks : (block : List Instr) → List Instr → List (List Instr)
  | block, [] => [block]
  | block, i :: is =>
    if i.settles then (block ++ [i]) :: blocks [] is else blocks (block ++ [i]) is

/-- Every instruction is paid for in one block. -/
theorem flatten_blocks (block is : List Instr) : (blocks block is).flatten = block ++ is := by
  induction is generalizing block with
  | nil => simp only [blocks, List.flatten_cons, List.flatten_nil]
  | cons i is ih =>
    rw [blocks]
    split
    · rw [List.flatten_cons, ih, List.nil_append, List.append_assoc, List.singleton_append]
    · rw [ih, List.append_assoc, List.singleton_append]

/-- In front of instructions nothing is charged but what is owed. -/
theorem charge_mem_chargeFirst {cost owed : Nat} {is : List Instr}
    (h : .charge cost ∈ chargeFirst owed is) : cost = owed ∨ .charge cost ∈ is := by
  unfold chargeFirst at h
  split at h
  · exact .inr h
  · obtain h | h := List.mem_cons.mp h
    · exact .inl (Instr.charge.inj h)
    · exact .inr h

/-- A charge that is put into instructions without any is the price of one of their blocks. -/
theorem exists_block_of_charge_mem {cost : Nat} {block is : List Instr}
    (his : ∀ c, .charge c ∉ is) (h : .charge cost ∈ meter (price block) is) :
    ∃ b ∈ blocks block is, price b = cost := by
  induction is generalizing block with
  | nil =>
    obtain rfl | h := charge_mem_chargeFirst h
    · exact ⟨block, List.mem_singleton_self block, rfl⟩
    · cases h
  | cons i is ih =>
    have hi (c : Nat) : .charge c ≠ i := fun hc => his c (List.mem_cons.mpr (.inl hc))
    have his (c : Nat) : .charge c ∉ is := fun hc => his c (List.mem_cons_of_mem i hc)
    rw [blocks]
    rw [meter] at h
    split
    · rename_i hsettles
      rw [if_pos hsettles] at h
      -- the block ends here, or the charge is one for a later block
      obtain hcost | h := charge_mem_chargeFirst h
      · refine ⟨block ++ [i], List.mem_cons_self, ?_⟩
        rw [price_append, price_singleton, hcost]
      · obtain h | h := List.mem_cons.mp h
        · exact absurd h (hi cost)
        · have hrest : .charge cost ∈ meter (price []) is := h
          obtain ⟨b, hb, hcost⟩ := ih his hrest
          exact ⟨b, List.mem_cons_of_mem _ hb, hcost⟩
    · rename_i hsettles
      rw [if_neg hsettles] at h
      obtain h | h := List.mem_cons.mp h
      · exact absurd h (hi cost)
      · refine ih his ?_
        rwa [price_append, price_singleton]

namespace Code

/-- Does a charge stand in what was built, or in the rest of a block whose opening is still to
come? -/
def Builder.Charges (cost : Nat) (b : Builder) : Prop :=
  b.code.Charges cost ∨
    ∃ p ∈ b.pending, (∃ no, p.1 = some no ∧ no.Charges cost) ∨ p.2.Charges cost

/-- An instruction that is put in front brings no charge with it but its own. -/
theorem Builder.charges_of_push? {cost : Nat} {i : Instr} {b b' : Builder}
    (hpush : b.push? i = some b') (h : b'.Charges cost) : .charge cost = i ∨ b.Charges cost := by
  obtain ⟨code, pending⟩ := b
  cases i with
  | op | call | brIf =>
    cases hpush
    exact .inr h
  | charge c =>
    cases hpush
    obtain (rfl | h) | h := h
    · exact .inl rfl
    · exact .inr (.inl h)
    · exact .inr (.inr h)
  | br | ret =>
    cases hpush
    exact .inr (.inr (h.resolve_left id))
  | close =>
    cases hpush
    simp only [Builder.Charges, Code.Charges, List.mem_cons, exists_eq_or_imp] at h ⊢
    simpa using h
  -- an opening takes what was pending into the code, with the charges in it
  | elseThen | block | loop =>
    obtain _ | ⟨⟨_ | no, rest⟩, pending⟩ := pending <;> cases hpush
    simp only [Builder.Charges, Code.Charges, List.mem_cons, exists_eq_or_imp] at h ⊢
    grind
  | ifThen =>
    obtain _ | ⟨⟨no, rest⟩, pending⟩ := pending <;> cases hpush
    simp only [Builder.Charges, Code.Charges, List.mem_cons, exists_eq_or_imp] at h ⊢
    cases no with
    | none => grind [Code.Charges]
    | some no => grind

/-- Code has no charges but those among the instructions that it is built of. -/
theorem Builder.charge_mem_of_foldrM {cost : Nat} {is : List Instr} {b : Builder}
    (hb : is.foldrM (fun i b => Builder.push? b i) {} = some b) (h : b.Charges cost) :
    .charge cost ∈ is := by
  induction is generalizing b with
  | nil =>
    cases hb
    obtain h | ⟨_, h, -⟩ := h
    · exact h.elim
    · cases h
  | cons i is ih =>
    rw [List.foldrM_cons] at hb
    obtain ⟨b', hb', hpush⟩ := Option.bind_eq_some_iff.mp hb
    obtain rfl | h := charges_of_push? hpush h
    · exact List.mem_cons_self
    · exact List.mem_cons_of_mem i (ih hb' h)

/-- Every charge in code with its charges is the price of a block of the code's instructions. -/
theorem exists_block_of_charges {cost : Nat} {is : List Instr} {c : Code}
    (hc : metered? is = some c) (his : ∀ cost, .charge cost ∉ is) (h : c.Charges cost) :
    ∃ b ∈ blocks [] is, price b = cost := by
  unfold metered? ofInstrs? at hc
  obtain ⟨b, hb, hcode⟩ := Option.bind_eq_some_iff.mp hc
  split at hcode
  · cases hcode
    exact exists_block_of_charge_mem his (Builder.charge_mem_of_foldrM hb (.inl h))
  · cases hcode

end Code

/-! ## Calls behind their charges -/

/-- In front of every call its price was charged; `paid` is what was charged right in front of the
instructions. -/
def Tolled : (paid : Nat) → List Instr → Prop
  | _, [] => True
  | paid, .call _ :: is => Gas.callCost ≤ paid ∧ Tolled 0 is
  | _, .charge cost :: is => Tolled cost is
  | _, _ :: is => Tolled 0 is

/-- In front of every call in the code its price was charged; `paid` is what was charged right in
front of the code. -/
def Code.Tolled (paid : Nat) : Code → Prop
  | .done | .br _ | .ret => True
  | .op _ rest | .brIf _ rest => rest.Tolled 0
  | .call _ rest => Gas.callCost ≤ paid ∧ rest.Tolled 0
  | .charge cost rest => rest.Tolled cost
  | .block body rest | .loop body rest => body.Tolled 0 ∧ rest.Tolled 0
  | .choose yes no rest => yes.Tolled 0 ∧ no.Tolled 0 ∧ rest.Tolled 0

/-- What is charged in front of instructions does no harm to those that ask for nothing there. -/
theorem tolled_chargeFirst {is : List Instr} (his : ∀ paid, Tolled paid is) (paid owed : Nat) :
    Tolled paid (chargeFirst owed is) := by
  unfold chargeFirst
  split
  · exact his paid
  · exact his owed

theorem meter_of_settles {i : Instr} (hi : i.settles = true) (owed : Nat) (is : List Instr) :
    meter owed (i :: is) = chargeFirst (owed + i.cost) (i :: meter 0 is) := by
  rw [meter, if_pos hi]

/-- A call comes right behind a charge, as it settles what is owed, and costs something itself. -/
theorem tolled_meter (paid owed : Nat) (is : List Instr) : Tolled paid (meter owed is) := by
  induction is generalizing paid owed with
  | nil =>
    have hnil : ∀ paid, Tolled paid [] := fun _ => trivial
    exact tolled_chargeFirst hnil paid owed
  | cons i is ih =>
    cases i with
    | call f =>
      -- something is owed, so a charge is put here
      have hprice : owed + Gas.callCost ≠ 0 := Nat.ne_of_gt (Nat.add_pos_right owed (by decide))
      rw [meter_of_settles rfl]
      show Tolled paid (chargeFirst (owed + Gas.callCost) (.call f :: meter 0 is))
      rw [chargeFirst, if_neg hprice]
      exact ⟨Nat.le_add_left _ owed, ih 0 0⟩
    | loop | close | elseThen | br | brIf | ret =>
      rw [meter_of_settles rfl]
      refine tolled_chargeFirst ?_ paid _
      exact fun _ => ih 0 0
    | op | block | ifThen | charge => exact ih _ _

namespace Code

/-- The second branch of a block whose opening is still to come, if it has one, and what follows the
block are tolled. -/
def PendingTolled (p : Option Code × Code) : Prop :=
  (∀ no, p.1 = some no → no.Tolled 0) ∧ p.2.Tolled 0

/-- All code that was built is tolled; `paid` is what is charged right in front of it. -/
structure Builder.Tolled (paid : Nat) (b : Builder) : Prop where
  code : b.code.Tolled paid
  pending : ∀ p ∈ b.pending, PendingTolled p

/-- What was built is tolled with an instruction in front if the instructions are. An instruction
that opens a block takes the block from what is pending. -/
theorem Builder.tolled_push? {paid : Nat} {i : Instr} {is : List Instr} {b b' : Builder}
    (his : Guest.Tolled paid (i :: is)) (hb : ∀ p, Guest.Tolled p is → b.Tolled p)
    (hpush : b.push? i = some b') : b'.Tolled paid := by
  obtain ⟨code, pending⟩ := b
  cases i with
  | op | brIf =>
    cases hpush
    obtain ⟨hcode, hpending⟩ := hb 0 his
    exact ⟨hcode, hpending⟩
  -- what stands behind a jump is dropped, and nothing else changes
  | br | ret =>
    cases hpush
    obtain ⟨-, hpending⟩ := hb 0 his
    exact ⟨trivial, hpending⟩
  -- here the charge right in front is asked for: it is what is paid when the call comes
  | call f =>
    cases hpush
    obtain ⟨hpaid, his⟩ := his
    obtain ⟨hcode, hpending⟩ := hb 0 his
    exact ⟨⟨hpaid, hcode⟩, hpending⟩
  | charge cost =>
    cases hpush
    obtain ⟨hcode, hpending⟩ := hb cost his
    exact ⟨hcode, hpending⟩
  -- a block ends here, so what follows it waits with nothing paid
  | close =>
    cases hpush
    obtain ⟨hcode, hpending⟩ := hb 0 his
    exact ⟨trivial, List.forall_mem_cons.mpr ⟨⟨nofun, hcode⟩, hpending⟩⟩
  | elseThen =>
    obtain _ | ⟨⟨_ | no, rest⟩, pending⟩ := pending <;> cases hpush
    obtain ⟨hcode, hpending⟩ := hb 0 his
    obtain ⟨⟨-, hrest⟩, hpending⟩ := List.forall_mem_cons.mp hpending
    refine ⟨trivial, List.forall_mem_cons.mpr ⟨⟨fun no hno => ?_, hrest⟩, hpending⟩⟩
    cases hno
    exact hcode
  | block | loop =>
    obtain _ | ⟨⟨_ | no, rest⟩, pending⟩ := pending <;> cases hpush
    obtain ⟨hcode, hpending⟩ := hb 0 his
    obtain ⟨⟨-, hrest⟩, hpending⟩ := List.forall_mem_cons.mp hpending
    exact ⟨⟨hcode, hrest⟩, hpending⟩
  | ifThen =>
    obtain _ | ⟨⟨no, rest⟩, pending⟩ := pending <;> cases hpush
    obtain ⟨hcode, hpending⟩ := hb 0 his
    obtain ⟨⟨hno, hrest⟩, hpending⟩ := List.forall_mem_cons.mp hpending
    refine ⟨⟨hcode, ?_, hrest⟩, hpending⟩
    cases no with
    | none => trivial
    | some no => exact hno no rfl

/-- What is built of tolled instructions is tolled, block by block. -/
theorem Builder.tolled_foldrM {is : List Instr} {b : Builder} {paid : Nat}
    (his : Guest.Tolled paid is) (h : is.foldrM (fun i b => Builder.push? b i) {} = some b) :
    b.Tolled paid := by
  induction is generalizing b paid with
  | nil =>
    cases h
    exact ⟨trivial, List.forall_mem_nil _⟩
  | cons i is ih =>
    rw [List.foldrM_cons] at h
    obtain ⟨b', hb', hpush⟩ := Option.bind_eq_some_iff.mp h
    exact tolled_push? his (fun p hp => ih hp hb') hpush

/-- Code with its charges has every call right behind a charge of its price at least. -/
theorem tolled_of_metered? {is : List Instr} {c : Code} (h : metered? is = some c) (paid : Nat) :
    c.Tolled paid := by
  unfold metered? ofInstrs? at h
  obtain ⟨b, hb, hcode⟩ := Option.bind_eq_some_iff.mp h
  split at hcode
  · cases hcode
    exact (Builder.tolled_foldrM (tolled_meter paid 0 is) hb).code
  · cases hcode

end Code

/-! ## Below the price of a call -/

/-- With fewer points than a call costs, the points get no more, and nothing happens to the host but
that events are entered into the journal, none of them the call of a host function. -/
def Idle {ε : Type} (w : World) (_ : Option ε) (u : World) : Prop :=
  w.guest.meter.points.toNat < Gas.callCost →
    u.guest.meter.points.toNat ≤ w.guest.meter.points.toNat ∧
    ∃ es : Journal, u.host = { w.host with journal := es ++ w.host.journal } ∧
      ∀ e ∈ es, ¬ e.Enters

namespace Idle

variable {ε : Type} {o : Option ε} {w u : World}

/-- Where host and meter are as they were, nothing happened. -/
theorem of_same_host (hhost : u.host = w.host) (hmeter : u.guest.meter = w.guest.meter) :
    Idle w o u := by
  intro _
  have hpoints : u.guest.meter.points.toNat = w.guest.meter.points.toNat := by rw [hmeter]
  exact ⟨Nat.le_of_eq hpoints, [], hhost, List.forall_mem_nil _⟩

/-- An event that tells of no call may be entered, as long as the points get no more. -/
theorem noting {e : Event} (hhost : u.host = w.host.noting e) (he : ¬ e.Enters)
    (hpoints : u.guest.meter.points.toNat ≤ w.guest.meter.points.toNat) : Idle w o u :=
  fun _ => ⟨hpoints, [e], hhost, List.forall_mem_singleton.mpr he⟩

instance sequential : Sequential (Idle (ε := ε)) where
  done _ := of_same_host rfl rfl
  trans {w v u o} h h' := by
    intro hw
    obtain ⟨hle, es, hes, henter⟩ := h hw
    obtain ⟨hle', fs, hfs, henter'⟩ := h' (Nat.lt_of_le_of_lt hle hw)
    refine ⟨Nat.le_trans hle' hle, fs ++ es, ?_, List.forall_mem_append.mpr ⟨henter', henter⟩⟩
    rw [hfs, hes, List.append_assoc]

instance guestLaw : GuestLaw Idle where
  memory _ _ := of_same_host rfl rfl
  globals _ _ := of_same_host rfl rfl
  trap _ _ _ := of_same_host rfl rfl

instance hostLaw : HostLaw Idle where
  memory _ _ := of_same_host rfl rfl
  fault _ _ := of_same_host rfl rfl

/-- The law says the same of guest and host. -/
theorem passes : Passes Idle Idle where
  ok h := h
  trap _ h := h

end Idle

/-- Whether a charge can be paid or not, no host function is called. -/
theorem idle_pay (cost : Nat) : Obeys Idle (pay cost) := by
  intro w
  obtain ⟨m, hpay, hrun⟩ | ⟨-, hrun⟩ := run_pay cost w
  · rw [hrun]
    have hpoints : m.points.toNat ≤ w.guest.meter.points.toNat := by
      have hsum := (Meter.eq_of_pay? hpay).1
      omega
    exact .noting rfl id hpoints
  · rw [hrun]
    exact .noting rfl id (Nat.le_refl _)

/-- Who has not the price of a call does not get past a charge of it. -/
theorem idle_charge {α : Type} {cost : Nat} {x : RunM α} (hx : cost < Gas.callCost → Obeys Idle x) :
    Obeys Idle (pay cost >>= fun _ => x) := by
  by_cases hcost : cost < Gas.callCost
  · exact (idle_pay cost).bind fun _ => hx hcost
  · intro w
    have hle : Gas.callCost ≤ cost := Nat.le_of_not_lt hcost
    rw [EStateM.run_bind]
    obtain ⟨m, hpay, -⟩ | ⟨-, hrun⟩ := run_pay cost w
    · -- the points sufficed, so there were as many as a call costs
      have hmany : ¬ w.guest.meter.points.toNat < Gas.callCost := by
        have hsum := (Meter.eq_of_pay? hpay).1
        omega
      split
      · exact fun hfew => absurd hfew hmany
      · exact fun hfew => absurd hfew hmany
    · rw [hrun]
      exact .noting rfl id (Nat.le_refl _)

/-- Code with its charges comes to no call. -/
theorem codeLaw_idle (arity : Nat → Option Nat) (call : Caller) :
    CodeLaw (Obeying Idle) arity call fun c => ∃ paid, paid < Gas.callCost ∧ c.Tolled paid where
  op h := by
    obtain ⟨_, -, hrest⟩ := h
    exact ⟨0, by decide, hrest⟩
  -- a call stands behind a charge of its price at least, which could not be paid
  call h := by
    obtain ⟨paid, hpaid, hle, -⟩ := h
    exact absurd hpaid (Nat.not_lt_of_le hle)
  charge h hrest f := by
    obtain ⟨_, -, htolled⟩ := h
    exact idle_charge fun hcost => hrest ⟨_, hcost, htolled⟩ f
  block h := by
    obtain ⟨_, -, hbody, hrest⟩ := h
    exact ⟨⟨0, by decide, hbody⟩, ⟨0, by decide, hrest⟩⟩
  loop h := by
    obtain ⟨_, -, hbody, hrest⟩ := h
    exact ⟨⟨0, by decide, hbody⟩, ⟨0, by decide, hrest⟩⟩
  choose h := by
    obtain ⟨_, -, hyes, hno, hrest⟩ := h
    exact ⟨⟨0, by decide, hyes⟩, ⟨0, by decide, hno⟩, ⟨0, by decide, hrest⟩⟩
  brIf h := by
    obtain ⟨_, -, hrest⟩ := h
    exact ⟨0, by decide, hrest⟩

/-- The functions of a module have their charges. -/
def Module.Metered (m : Module) : Prop :=
  ∀ f ∈ m.functions, ∃ is, Code.metered? is = some f.body

/-- What is exported as a function under a name is one that the module brings along. -/
def Linked.Owns (l : Linked) (name : String) : Prop :=
  ∀ f, l.module.exportedFunction? name = some f → l.services.length ≤ f

variable {l : Linked} {attached : Bool}

/-- A function of the module itself comes to no call of others. -/
theorem idle_invoke (hl : l.module.Metered) {f : Nat} (hf : l.services.length ≤ f) (fuel : Nat)
    (args : List Value) : Obeys Idle (invoke l attached fuel f args) := by
  cases fuel with
  | zero => exact obeys_stuck
  | succ fuel =>
    -- imported functions are numbered first, and this one stands behind them
    have hcallee : l.callee? f =
        l.module.functions[f - l.services.length]?.map .function := by
      rw [Linked.callee?, if_neg (Nat.not_lt_of_le hf)]
    unfold invoke
    rw [hcallee]
    cases hfunction : l.module.functions[f - l.services.length]? with
    | none => exact obeys_stuck
    | some g =>
      obtain ⟨is, his⟩ := hl g (List.mem_of_getElem? hfunction)
      have htolled : g.body.Tolled 0 := Code.tolled_of_metered? his 0
      exact obeys_functionExec (codeLaw_idle _ _) ⟨0, by decide, htolled⟩ args

theorem idle_run (hl : l.module.Metered) {f : Nat} (hf : l.services.length ≤ f)
    (args : List Value) : Obeys Idle (Guest.run l attached f args) :=
  obeys_guest.bind fun _ => idle_invoke hl hf _ args

/-- The host's work on the guest comes to no call of others if the allocator is the module's own. -/
theorem lawfulAccess_idle (hl : l.module.Metered) (howns : l.Owns Module.allocateName) :
    LawfulAccess Idle l.access :=
  lawfulAccess_access Idle.passes fun f hf args => idle_run hl (howns f hf) args

/-! ## Guests that are made of blueprints -/

/-- Every result of going through a list is one of an element. -/
theorem exists_of_mem_mapM {α β : Type} {f : α → Option β} {as : List α} {bs : List β}
    (h : as.mapM f = some bs) {b : β} (hb : b ∈ bs) : ∃ a ∈ as, f a = some b := by
  induction as generalizing bs with
  | nil =>
    cases h
    cases hb
  | cons a as ih =>
    rw [List.mapM_cons] at h
    obtain ⟨b₁, ha, h⟩ := Option.bind_eq_some_iff.mp h
    obtain ⟨bs₁, has, h⟩ := Option.bind_eq_some_iff.mp h
    cases h
    obtain rfl | hb := List.mem_cons.mp hb
    · exact ⟨a, List.mem_cons_self, ha⟩
    · obtain ⟨a', hmem, ha'⟩ := ih has hb
      exact ⟨a', List.mem_cons_of_mem a hmem, ha'⟩

namespace Blueprint

variable {b : Blueprint} {m : Module}

/-- What a module has from its blueprint. Its functions get their charges. -/
theorem parts_of_module? (h : b.module? = some m) :
    m.imports = b.imports ∧ m.exports = b.exports ∧ m.Metered := by
  unfold module? at h
  obtain ⟨functions, hfunctions, h⟩ := Option.bind_eq_some_iff.mp h
  have hmetered : ∀ f ∈ functions, ∃ is, Code.metered? is = some f.body := by
    intro f hf
    obtain ⟨plan, -, hplan⟩ := exists_of_mem_mapM hfunctions hf
    obtain ⟨is, -, hplan⟩ := Option.bind_eq_some_iff.mp hplan
    obtain ⟨body, hbody, hplan⟩ := Option.bind_eq_some_iff.mp hplan
    cases hplan
    exact ⟨is, hbody⟩
  obtain ⟨memory, -, h⟩ := Option.bind_eq_some_iff.mp h
  split at h
  · cases h
    exact ⟨rfl, rfl, hmetered⟩
  · obtain ⟨start, -, h⟩ := Option.bind_eq_some_iff.mp h
    cases h
    exact ⟨rfl, rfl, hmetered⟩

/-- Exports of a kind are numbered from the first one on. -/
theorem le_of_mem_exportsOf {kind : Nat → Export} {first : Nat} {shown : List (Option String)}
    {name : String} {e : Export} (h : (name, e) ∈ exportsOf kind first shown) :
    ∃ i, first ≤ i ∧ e = kind i := by
  obtain ⟨⟨shownAs, i⟩, hmem, hshown⟩ := List.mem_filterMap.mp h
  obtain ⟨_, -, hname⟩ := Option.map_eq_some_iff.mp hshown
  cases hname
  exact ⟨i, (List.mem_zipIdx hmem).1, rfl⟩

/-- Whatever a module of a blueprint shows as a function is one of its own. -/
theorem le_of_exportedFunction? (h : b.module? = some m) {name : String} {f : Nat}
    (hf : m.exportedFunction? name = some f) : m.imports.length ≤ f := by
  obtain ⟨himports, hexports, -⟩ := parts_of_module? h
  rw [himports]
  unfold Module.exportedFunction? at hf
  split at hf
  · rename_i g hlookup
    cases hf
    -- what is shown is the memory, a function or a global, and only functions are asked for
    obtain ⟨before, after, hsplit, -⟩ := List.lookup_eq_some_iff.mp hlookup
    have hmem : (name, Export.function f) ∈ b.exports := by
      rw [← hexports, hsplit]
      exact List.mem_append_right _ List.mem_cons_self
    obtain hmem | hmem := List.mem_append.mp hmem
    · obtain hmem | hmem := List.mem_append.mp hmem
      · obtain ⟨_, -, hname⟩ := List.mem_map.mp hmem
        cases hname
      · obtain ⟨i, hi, he⟩ := le_of_mem_exportsOf hmem
        cases he
        exact hi
    · obtain ⟨i, -, he⟩ := le_of_mem_exportsOf hmem
      cases he
  · cases hf

end Blueprint

theorem length_of_mapM_ok {ε α β : Type} {f : α → Except ε β} {as : List α} {bs : List β}
    (h : as.mapM f = .ok bs) : bs.length = as.length := by
  induction as generalizing bs with
  | nil =>
    cases h
    rfl
  | cons a as ih =>
    rw [List.mapM_cons] at h
    cases ha : f a with
    | error e =>
      rw [ha] at h
      cases h
    | ok b =>
      cases has : as.mapM f with
      | error e =>
        rw [ha, has] at h
        cases h
      | ok bs₁ =>
        rw [ha, has] at h
        cases h
        rw [List.length_cons, List.length_cons, ih has]

/-- A linked module has a host function for each of its imports. -/
theorem Module.link_eq_ok {m : Module} {l : Linked} (h : m.link = .ok l) :
    l.module = m ∧ l.services.length = m.imports.length := by
  unfold link at h
  cases hservices : m.imports.mapM Import.bind with
  | error e =>
    rw [hservices] at h
    cases h
  | ok services =>
    rw [hservices] at h
    cases h
    exact ⟨rfl, length_of_mapM_ok hservices⟩

/-- A guest that is made of a blueprint has its charges, and shows only functions of its own. -/
theorem Blueprint.metered_and_owns {b : Blueprint} {m : Module} {l : Linked}
    (hm : b.module? = some m) (hl : m.link = .ok l) :
    l.module.Metered ∧ ∀ name, l.Owns name := by
  obtain ⟨hmodule, hservices⟩ := Module.link_eq_ok hl
  obtain ⟨-, -, hmetered⟩ := parts_of_module? hm
  rw [hmodule]
  refine ⟨hmetered, fun name f hf => ?_⟩
  rw [hmodule] at hf
  rw [hservices]
  exact le_of_exportedFunction? hm hf

end Guest

end ContractHost
