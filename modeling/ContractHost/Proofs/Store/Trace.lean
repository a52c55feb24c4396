import ContractHost.Backend.Store
import ContractHost.Proofs.Bytes

/-!
# Runs of a store

`Op` is what may be asked of a store that changes it, `step` one such operation with its answer, and
`trace` the answers of a whole run in the order in which they were given.

An iterator matters only through the records still to come: `pending` of its number. What the four
operations do to it is `pending_step`: a step of the iterator itself takes the first pending record,
and nothing else changes what is pending once the number has been given out.
-/

namespace ContractHost.Store

/-- An operation that may change a store. -/
inductive Op where
  | insert (key value : Bytes)
  | erase (key : Bytes)
  | scan (start stop : Option Bytes) (order : Order)
  | next (name : Bytes)
  deriving DecidableEq, Repr

/-- What an operation answers. -/
inductive Answer where
  | done
  /-- An iterator was opened under a name. -/
  | opened (name : Bytes)
  /-- The next record of an iterator, or none at its end. -/
  | taken (record : Option Record)
  | refused (e : BackendError)
  deriving DecidableEq, Repr

/-- Carries out an operation. One that is refused leaves the store that it had made till then. -/
def step (s : Store) : Op → Answer × Store
  | .insert key value => (.done, s.insert key value)
  | .erase key => (.done, s.erase key)
  | .scan start stop order =>
    match (scan start stop order).run s with
    | .ok name s => (.opened name, s)
    | .error e s => (.refused e, s)
  | .next name =>
    match (next name).run s with
    | .ok record s => (.taken record, s)
    | .error e s => (.refused e, s)

/-- The store after a run. -/
def run (s : Store) : List Op → Store
  | [] => s
  | op :: ops => run (s.step op).2 ops

/-- A run, operation by operation, with the answers. -/
def trace (s : Store) : List Op → List (Op × Answer)
  | [] => []
  | op :: ops => (op, (s.step op).1) :: trace (s.step op).2 ops

/-- The answers that one operation got in a run, in their order. -/
def answersTo (op : Op) (t : List (Op × Answer)) : List Answer :=
  (t.filter fun entry => entry.1 = op).map Prod.snd

theorem run_append (s : Store) (ops ops' : List Op) :
    s.run (ops ++ ops') = (s.run ops).run ops' := by
  induction ops generalizing s with
  | nil => rfl
  | cons op ops ih => exact ih _

/-- What every operation of a run keeps, the run keeps. -/
theorem run_induction {P : Store → Prop} {s : Store} {ops : List Op} (h : P s)
    (hstep : ∀ op ∈ ops, ∀ s, P s → P (s.step op).2) : P (s.run ops) := by
  induction ops generalizing s with
  | nil => exact h
  | cons op ops ih =>
    apply ih
    · exact hstep op List.mem_cons_self s h
    · intro op' hop'
      exact hstep op' (List.mem_cons_of_mem op hop')

/-! ## Names of iterators -/

/-- The name of the iterator with a number. -/
def iteratorName (id : Nat) : Bytes := Bytes.ofNatBE nameLength id

@[simp] theorem length_iteratorName (id : Nat) : (iteratorName id).length = nameLength := by
  simp [iteratorName]

theorem toNatBE_iteratorName {id : Nat} (h : id < UInt32.size) :
    Bytes.toNatBE (iteratorName id) = id := by
  rw [iteratorName, Bytes.toNatBE_ofNatBE]
  exact Nat.mod_eq_of_lt h

theorem iteratorName_toNatBE {name : Bytes} (h : name.length = nameLength) :
    iteratorName (Bytes.toNatBE name) = name := by
  rw [iteratorName, ← h, Bytes.ofNatBE_toNatBE]

/-! ## Pending records -/

/-- The records still to come of the iterator with a number. There are none once it is at its end,
whether it has been forgotten or not. -/
def pending (s : Store) (id : Nat) : List Record := (s.iterators[id]?).getD []

theorem pending_of_some {s : Store} {id : Nat} {records : List Record}
    (h : s.iterators[id]? = some records) : s.pending id = records := by
  rw [pending, h]
  rfl

theorem pending_of_none {s : Store} {id : Nat} (h : s.iterators[id]? = none) :
    s.pending id = [] := by
  rw [pending, h]
  rfl

theorem pending_insert_iterator (s : Store) (id j : Nat) (records : List Record) (opened : Nat) :
    pending { s with iterators := s.iterators.insert id records, opened } j =
      if id = j then records else s.pending j := by
  rw [pending, pending, Std.TreeMap.getElem?_insert]
  by_cases h : id = j
  · simp [h]
  · rw [if_neg (by simpa using h), if_neg h]

/-- Forgetting an iterator that is at its end changes nothing. -/
theorem pending_erase_iterator {s : Store} {id : Nat} (h : s.pending id = []) (j : Nat) :
    pending { s with iterators := s.iterators.erase id } j = s.pending j := by
  rw [pending, Std.TreeMap.getElem?_erase]
  by_cases hj : id = j
  · rw [if_pos (by simpa using hj), ← hj, h]
    rfl
  · rw [if_neg (by simpa using hj)]
    rfl

/-- What is pending once the iterator `id` has gone one record on. -/
def pendingAfter (s : Store) (id j : Nat) : List Record :=
  if id = j then (s.pending j).tail else s.pending j

theorem pendingAfter_of_nil {s : Store} {id : Nat} (h : s.pending id = []) (j : Nat) :
    s.pendingAfter id j = s.pending j := by
  rw [pendingAfter]
  split
  · rename_i hj
    rw [← hj, h]
    rfl
  · rfl

theorem pendingAfter_of_cons {s : Store} {id : Nat} {r : Record} {rest : List Record}
    (h : s.pending id = r :: rest) (j : Nat) :
    s.pendingAfter id j = if id = j then rest else s.pending j := by
  rw [pendingAfter]
  split
  · rename_i hj
    rw [← hj, h]
    rfl
  · rfl

/-! ## What scanning and stepping do -/

/-- A scan of a store that has a number left opens the iterator of that number. -/
theorem run_scan_of_lt {s : Store} (h : s.opened < maxIterators) (start stop : Option Bytes)
    (order : Order) : (scan start stop order).run s = .ok (iteratorName s.opened)
      { s with iterators := s.iterators.insert s.opened (s.range start stop order),
               opened := s.opened + 1 } := by
  simp only [scan, EStateM.run_bind, EStateM.run_get, if_pos h]
  rfl

/-- Without a number left a scan is refused, and does nothing. -/
theorem run_scan_of_le {s : Store} (h : maxIterators ≤ s.opened) (start stop : Option Bytes)
    (order : Order) :
    (scan start stop order).run s = .error (.unknown "iterator ids exhausted") s := by
  simp only [scan, EStateM.run_bind, EStateM.run_get, if_neg (Nat.not_lt.mpr h)]
  rfl

/-- A scan is refused exactly if there is no number left, and then it does nothing. Otherwise the
new iterator has the next number and the records of the range before it, and all else is as it
was. -/
theorem scan_cases (s : Store) (start stop : Option Bytes) (order : Order) :
    (maxIterators ≤ s.opened ∧
      (scan start stop order).run s = .error (.unknown "iterator ids exhausted") s) ∨
    (s.opened < maxIterators ∧
      ∃ s', (scan start stop order).run s = .ok (iteratorName s.opened) s' ∧
        s'.data = s.data ∧ s'.opened = s.opened + 1 ∧
        ∀ j, s'.pending j = if s.opened = j then s.range start stop order else s.pending j) := by
  by_cases h : s.opened < maxIterators
  · right
    refine ⟨h, _, run_scan_of_lt h start stop order, rfl, rfl, fun j => ?_⟩
    exact pending_insert_iterator s s.opened j _ _
  · left
    rw [Nat.not_lt] at h
    exact ⟨h, run_scan_of_le h start stop order⟩

/-- A scan that is refused does nothing. -/
theorem scan_of_error {s s' : Store} {start stop : Option Bytes} {order : Order} {e : BackendError}
    (h : (scan start stop order).run s = .error e s') : s' = s := by
  obtain ⟨-, hscan⟩ | ⟨-, _, hscan, -⟩ := s.scan_cases start stop order
  · cases hscan.symm.trans h
    rfl
  · cases hscan.symm.trans h

/-- A step of an iterator as a case distinction: by the length of the name, and by what the table
has under its number. -/
theorem run_next (s : Store) (name : Bytes) :
    (next name).run s =
      if name.length = nameLength then
        match s.iterators[Bytes.toNatBE name]? with
        | some (record :: rest) => .ok (some record)
          { s with iterators := s.iterators.insert (Bytes.toNatBE name) rest }
        | some [] => .ok none { s with iterators := s.iterators.erase (Bytes.toNatBE name) }
        | none =>
          if Bytes.toNatBE name < s.opened then .ok none s
          else .error (.unknownIterator (toString (Bytes.toNatBE name))) s
      else .error (.unknownIterator (listText name)) s := by
  simp only [next, EStateM.run_bind, EStateM.run_get]
  split
  · cases s.iterators[Bytes.toNatBE name]? with
    | none =>
      simp only
      split
      · rfl
      · rfl
    | some records =>
      cases records with
      | nil => rfl
      | cons record rest => rfl
  · rfl

/-- A step of an iterator that is not refused answers the first pending record, which is then no
longer pending; all else is as it was. -/
theorem next_of_ok {s s' : Store} {name : Bytes} {record : Option Record}
    (h : (next name).run s = .ok record s') :
    name.length = nameLength ∧ record = (s.pending (Bytes.toNatBE name)).head? ∧
      s'.data = s.data ∧ s'.opened = s.opened ∧
      ∀ j, s'.pending j = s.pendingAfter (Bytes.toNatBE name) j := by
  rw [run_next] at h
  split at h
  · rename_i hlen
    refine ⟨hlen, ?_⟩
    split at h
    · -- a record is left
      rename_i r rest hr
      cases h
      have hp := pending_of_some hr
      refine ⟨by rw [hp]; rfl, rfl, rfl, fun j => ?_⟩
      rw [pendingAfter_of_cons hp]
      exact pending_insert_iterator s _ j rest s.opened
    · -- the end is met for the first time, and the iterator is forgotten
      rename_i hr
      cases h
      have hp := pending_of_some hr
      refine ⟨by rw [hp]; rfl, rfl, rfl, fun j => ?_⟩
      rw [pendingAfter_of_nil hp]
      exact pending_erase_iterator hp j
    · -- the number is of an iterator that has been forgotten, or of none
      rename_i hr
      have hp := pending_of_none hr
      split at h
      · cases h
        refine ⟨by rw [hp]; rfl, rfl, rfl, fun j => ?_⟩
        rw [pendingAfter_of_nil hp]
      · cases h
  · cases h

/-- A step of an iterator that is refused does nothing, and is refused for the name alone. -/
theorem next_of_error {s s' : Store} {name : Bytes} {e : BackendError}
    (h : (next name).run s = .error e s') : s' = s ∧ ∃ text, e = .unknownIterator text := by
  rw [run_next] at h
  split at h
  · split at h
    · cases h
    · cases h
    · split at h
      · cases h
      · cases h
        exact ⟨rfl, _, rfl⟩
  · cases h
    exact ⟨rfl, _, rfl⟩

/-- An iterator whose number has been given out always answers. -/
theorem exists_next {s : Store} {name : Bytes} (hlen : name.length = nameLength)
    (hid : Bytes.toNatBE name < s.opened) :
    ∃ s', (next name).run s = .ok (s.pending (Bytes.toNatBE name)).head? s' := by
  rw [run_next, if_pos hlen]
  split
  · rename_i hr
    exact ⟨_, by rw [pending_of_some hr]; rfl⟩
  · rename_i hr
    exact ⟨_, by rw [pending_of_some hr]; rfl⟩
  · rename_i hr
    exact ⟨_, by rw [pending_of_none hr, if_pos hid]; rfl⟩

/-! ## One step -/

theorem opened_le_step (s : Store) (op : Op) : s.opened ≤ (s.step op).2.opened := by
  cases op with
  | insert key value => exact Nat.le_refl _
  | erase key => exact Nat.le_refl _
  | scan start stop order =>
    obtain ⟨-, h⟩ | ⟨-, s', h, -, hopened, -⟩ := s.scan_cases start stop order
    · simp only [step, h]
      exact Nat.le_refl _
    · simp only [step, h, hopened]
      exact Nat.le_succ _
  | next name =>
    cases h : (next name).run s with
    | error e s' =>
      obtain ⟨rfl, -⟩ := next_of_error h
      simp only [step, h]
      exact Nat.le_refl _
    | ok record s' =>
      obtain ⟨-, -, -, hopened, -⟩ := next_of_ok h
      simp only [step, h, hopened]
      exact Nat.le_refl _

/-- No more iterators are opened than there are numbers for. -/
theorem opened_step_le {s : Store} (h : s.opened ≤ maxIterators) (op : Op) :
    (s.step op).2.opened ≤ maxIterators := by
  cases op with
  | insert key value => exact h
  | erase key => exact h
  | scan start stop order =>
    -- a scan adds one below the bound and none at it
    obtain ⟨-, hscan⟩ | ⟨hlt, s', hscan, -, hopened, -⟩ := s.scan_cases start stop order
    · simp only [step, hscan]
      exact h
    · simp only [step, hscan, hopened]
      exact hlt
  | next name =>
    cases hnext : (next name).run s with
    | error e s' =>
      obtain ⟨rfl, -⟩ := next_of_error hnext
      simp only [step, hnext]
      exact h
    | ok record s' =>
      obtain ⟨-, -, -, hopened, -⟩ := next_of_ok hnext
      simp only [step, hnext, hopened]
      exact h

/-- Only its own step changes what is pending of an iterator that has been opened. -/
theorem pending_step {s : Store} {id : Nat} (hid : id < s.opened) (hlt : id < UInt32.size)
    (op : Op) :
    (s.step op).2.pending id =
      if op = .next (iteratorName id) then (s.pending id).tail else s.pending id := by
  cases op with
  | insert key value => rfl
  | erase key => rfl
  | scan start stop order =>
    -- the number of the new iterator is past all that have been given out
    rw [if_neg (by simp)]
    obtain ⟨-, h⟩ | ⟨-, s', h, -, -, hpending⟩ := s.scan_cases start stop order
    · simp only [step, h]
    · simp only [step, h, hpending, if_neg (Nat.ne_of_gt hid)]
  | next name =>
    by_cases hname : name = iteratorName id
    · subst hname
      obtain ⟨s', h⟩ := exists_next (s := s) (length_iteratorName id)
        (by rw [toNatBE_iteratorName hlt]; exact hid)
      obtain ⟨-, -, -, -, hpending⟩ := next_of_ok h
      simp only [step, h, hpending, pendingAfter, toNatBE_iteratorName hlt, if_true]
    · rw [if_neg (by simpa using hname)]
      cases h : (next name).run s with
      | error e s' =>
        obtain ⟨rfl, -⟩ := next_of_error h
        simp only [step, h]
      | ok record s' =>
        obtain ⟨hlen, -, -, -, hpending⟩ := next_of_ok h
        -- two names of the right length and of one number are one name
        have hne : Bytes.toNatBE name ≠ id := by
          rintro rfl
          exact hname (iteratorName_toNatBE hlen).symm
        simp only [step, h, hpending, pendingAfter, if_neg hne]

/-- The step of an iterator that has been opened answers its first pending record. -/
theorem answer_next {s : Store} {id : Nat} (hid : id < s.opened) (hlt : id < UInt32.size) :
    (s.step (.next (iteratorName id))).1 = .taken (s.pending id).head? := by
  obtain ⟨s', h⟩ := exists_next (s := s) (length_iteratorName id)
    (by rw [toNatBE_iteratorName hlt]; exact hid)
  simp only [step, h, toNatBE_iteratorName hlt]

end ContractHost.Store
