import ContractHost.Proofs.Store.Trace
import Mathlib.Data.List.Nodup

/-!
# Which iterators a store keeps

A store tells an iterator that is at its end from one that never was only by its count: both are
missing in the table, and the number of the one has been given out. So the table, the count and what
has been answered so far belong together. `Told` says how, for a store and the trace that led to it:
the names given out are those of all numbers below the count, in their order, and an iterator is
kept exactly if its name was given out and it has not been answered with its end.

What one operation does to the count is `issue_cases`, and to the table `mem_step`; that the two and
the trace go on together is `Told.step`, and `iterators_of_run` is about runs of a new store.
-/

namespace ContractHost.Store

/-! ## Iterators and their numbers -/

/-- No iterator is kept under a number that has not been given out. -/
def Named (s : Store) : Prop := ∀ id, s.opened ≤ id → s.iterators[id]? = none

theorem named_empty : Named empty := fun _ _ => Std.TreeMap.getElem?_emptyc

section
variable {s s' : Store} (h : s.Named)
include h

theorem Named.insert_iterator {id opened : Nat} (records : List Record) (hle : s.opened ≤ opened)
    (hid : id < opened) : Named { s with iterators := s.iterators.insert id records, opened } := by
  intro j hj
  replace hj : opened ≤ j := hj
  have hne : compare id j ≠ .eq := fun heq => by
    have hj' := Std.LawfulEqOrd.eq_of_compare heq
    omega
  rw [Std.TreeMap.getElem?_insert, if_neg hne]
  exact h j (Nat.le_trans hle hj)

theorem Named.erase_iterator (id : Nat) :
    Named { s with iterators := s.iterators.erase id } := by
  intro j hj
  rw [Std.TreeMap.getElem?_erase]
  split
  · rfl
  · exact h j hj

/-- An iterator that is kept has a number that has been given out. -/
theorem Named.lt_opened {id : Nat} {records : List Record} (hid : s.iterators[id]? = some records) :
    id < s.opened := by
  refine Nat.lt_of_not_le fun hle => ?_
  rw [h id hle] at hid
  cases hid

theorem Named.of_next {name : Bytes} {record : Option Record}
    (hnext : (next name).run s = .ok record s') : s'.Named := by
  rw [run_next] at hnext
  split at hnext
  · split at hnext
    · rename_i hid
      cases hnext
      exact h.insert_iterator _ (Nat.le_refl _) (h.lt_opened hid)
    · cases hnext
      exact h.erase_iterator _
    · split at hnext
      · cases hnext
        exact h
      · cases hnext
  · cases hnext

theorem Named.step (op : Op) : (s.step op).2.Named := by
  cases op with
  | insert key value => exact h
  | erase key => exact h
  | scan start stop order =>
    by_cases hlt : s.opened < maxIterators
    · simp only [Store.step, run_scan_of_lt hlt]
      exact h.insert_iterator _ (Nat.le_succ _) (Nat.lt_succ_self _)
    · simp only [Store.step, run_scan_of_le (Nat.le_of_not_lt hlt)]
      exact h
  | next name =>
    cases hnext : (next name).run s with
    | error e s' =>
      obtain ⟨rfl, -⟩ := next_of_error hnext
      simp only [Store.step, hnext]
      exact h
    | ok record s' =>
      simp only [Store.step, hnext]
      exact h.of_next hnext

/-- A name that is of the wrong length or has a number that has not been given out is refused. -/
theorem Named.next_of_unknown {name : Bytes}
    (hname : name.length = nameLength → s.opened ≤ Bytes.toNatBE name) :
    ∃ id, (next name).run s = .error (.unknownIterator id) s := by
  rw [run_next]
  split
  · rename_i hlen
    simp only [h _ (hname hlen), if_neg (Nat.not_lt.mpr (hname hlen))]
    exact ⟨_, rfl⟩
  · exact ⟨_, rfl⟩

end

/-- Neither opening an iterator nor going on with one changes the data. -/
theorem data_step_of_scan (s : Store) (start stop : Option Bytes) (order : Order) :
    (s.step (.scan start stop order)).2.data = s.data := by
  obtain ⟨-, hscan⟩ | ⟨-, s', hscan, hdata, -, -⟩ := s.scan_cases start stop order
  · simp only [step, hscan]
  · simp only [step, hscan, hdata]

theorem data_step_of_next (s : Store) (name : Bytes) : (s.step (.next name)).2.data = s.data := by
  cases hnext : (next name).run s with
  | error e s' =>
    obtain ⟨rfl, -⟩ := next_of_error hnext
    simp only [step, hnext]
  | ok record s' =>
    obtain ⟨-, -, hdata, -, -⟩ := next_of_ok hnext
    simp only [step, hnext, hdata]

theorem opened_step_of_next (s : Store) (name : Bytes) :
    (s.step (.next name)).2.opened = s.opened := by
  cases hnext : (next name).run s with
  | error e s' =>
    obtain ⟨rfl, -⟩ := next_of_error hnext
    simp only [step, hnext]
  | ok record s' =>
    obtain ⟨-, -, -, hopened, -⟩ := next_of_ok hnext
    simp only [step, hnext, hopened]

/-- A step of an iterator is refused exactly if its name has the wrong length or has a number that
has not been given out. -/
theorem Named.unknown_iff {s : Store} (h : s.Named) (name : Bytes) :
    (∃ text, (next name).run s = .error (.unknownIterator text) s) ↔
      name.length ≠ nameLength ∨ s.opened ≤ Bytes.toNatBE name := by
  constructor
  · rintro ⟨text, hnext⟩
    by_contra hgood
    rw [not_or, not_not, Nat.not_le] at hgood
    obtain ⟨s', hok⟩ := exists_next hgood.1 hgood.2
    rw [hok] at hnext
    cases hnext
  · intro hbad
    apply h.next_of_unknown
    intro hlen
    rcases hbad with hne | hle
    · exact absurd hlen hne
    · exact hle

/-! ## What one operation does -/

/-- The name that is given out by an answer, if an iterator was opened. -/
def Answer.name? : Answer → Option Bytes
  | .opened name => some name
  | _ => none

/-- An operation gives out the name of the next number, or none. -/
theorem issue_cases (s : Store) (op : Op) :
    ((s.step op).1.name? = none ∧ (s.step op).2.opened = s.opened) ∨
    ((s.step op).1 = .opened (iteratorName s.opened) ∧ s.opened < maxIterators ∧
      (s.step op).2.opened = s.opened + 1) := by
  cases op with
  | insert key value => exact .inl ⟨rfl, rfl⟩
  | erase key => exact .inl ⟨rfl, rfl⟩
  | scan start stop order =>
    obtain ⟨-, hscan⟩ | ⟨hlt, s', hscan, -, hopened, -⟩ := s.scan_cases start stop order
    · simp only [step, hscan]
      exact .inl ⟨rfl, trivial⟩
    · simp only [step, hscan]
      exact .inr ⟨trivial, hlt, hopened⟩
  | next name =>
    refine .inl ⟨?_, opened_step_of_next s name⟩
    simp only [step]
    cases (next name).run s with
    | error e s' => rfl
    | ok record s' => rfl

/-- Two numbers that four bytes hold are one if their names are. -/
theorem iteratorName_inj {id j : Nat} (hid : id < UInt32.size) (hj : j < UInt32.size) :
    iteratorName id = iteratorName j ↔ id = j := by
  constructor
  · intro h
    rw [← toNatBE_iteratorName hid, h, toNatBE_iteratorName hj]
  · rintro rfl
    rfl

/-- A name of the right length is that of a number exactly if it has that number. -/
theorem eq_iteratorName_iff {name : Bytes} (hlen : name.length = nameLength) {id : Nat}
    (hid : id < UInt32.size) : name = iteratorName id ↔ Bytes.toNatBE name = id := by
  constructor
  · rintro rfl
    exact toNatBE_iteratorName hid
  · rintro rfl
    exact (iteratorName_toNatBE hlen).symm

/-- A step of an iterator forgets it if it was at its end, and keeps all others. -/
theorem mem_of_next {s s' : Store} {name : Bytes} {record : Option Record}
    (h : (next name).run s = .ok record s') (id : Nat) :
    id ∈ s'.iterators ↔ id ∈ s.iterators ∧ (record = none → Bytes.toNatBE name ≠ id) := by
  rw [run_next] at h
  split at h
  · split at h
    · -- a record is left, and the iterator was kept before
      rename_i hname
      cases h
      show id ∈ s.iterators.insert _ _ ↔ _
      rw [Std.TreeMap.mem_insert, Std.LawfulEqOrd.compare_eq_iff_eq]
      constructor
      · rintro (rfl | hmem)
        · exact ⟨Std.TreeMap.mem_iff_isSome_getElem?.mpr (by rw [hname]; rfl), nofun⟩
        · exact ⟨hmem, nofun⟩
      · exact fun hmem => .inr hmem.1
    · -- the end is met for the first time
      cases h
      show id ∈ s.iterators.erase _ ↔ _
      rw [Std.TreeMap.mem_erase, ne_eq, Std.LawfulEqOrd.compare_eq_iff_eq, and_comm]
      simp only [true_implies]
    · -- the iterator has been forgotten, so it is none of those kept
      rename_i hname
      split at h
      · cases h
        refine (and_iff_left_of_imp fun hmem _ => ?_).symm
        rintro rfl
        rw [Std.TreeMap.mem_iff_isSome_getElem?, hname] at hmem
        cases hmem
      · cases h
  · cases h

/-- An iterator is kept after an operation exactly if it was kept before or opened by it, and was
not answered with its end. -/
theorem mem_step (s : Store) (op : Op) {id : Nat} (hid : id < UInt32.size) :
    id ∈ (s.step op).2.iterators ↔
      (id ∈ s.iterators ∨ (s.step op).1 = .opened (iteratorName id)) ∧
        (op, (s.step op).1) ≠ (.next (iteratorName id), .taken none) := by
  cases op with
  | insert key value => simp [step, insert]
  | erase key => simp [step, erase]
  | scan start stop order =>
    -- a scan opens the iterator of the count, unless the count is at its end
    by_cases hlt : s.opened < maxIterators
    · have hopened : s.opened < UInt32.size := by
        rw [maxIterators] at hlt
        omega
      simp only [step, run_scan_of_lt hlt]
      show id ∈ s.iterators.insert _ _ ↔ (_ ∨ Answer.opened (iteratorName s.opened) = _) ∧ _
      rw [Std.TreeMap.mem_insert, Std.LawfulEqOrd.compare_eq_iff_eq, Answer.opened.injEq,
        iteratorName_inj hopened hid, or_comm]
      simp
    · simp only [step, run_scan_of_le (Nat.le_of_not_lt hlt)]
      simp
  | next name =>
    cases hnext : (next name).run s with
    | error e s' =>
      obtain ⟨rfl, -⟩ := next_of_error hnext
      simp [step, hnext]
    | ok record s' =>
      obtain ⟨hlen, -⟩ := next_of_ok hnext
      simp only [step, hnext]
      rw [mem_of_next hnext]
      simp [eq_iteratorName_iff hlen hid, imp_not_comm, not_and]

/-- An iterator that is stepped without a refusal has a number that has been given out. -/
theorem Named.lt_opened_of_next {s s' : Store} (h : s.Named) {name : Bytes}
    {record : Option Record} (hnext : (next name).run s = .ok record s') :
    name.length = nameLength ∧ Bytes.toNatBE name < s.opened := by
  by_contra hbad
  rw [not_and_or, Nat.not_lt] at hbad
  obtain ⟨text, hunknown⟩ := (h.unknown_iff name).mpr hbad
  rw [hunknown] at hnext
  cases hnext

/-! ## What a trace tells -/

/-- The names given out in a run, in their order. -/
def issued (t : List (Op × Answer)) : List Bytes := t.filterMap fun entry => entry.2.name?

theorem issued_concat (t : List (Op × Answer)) (entry : Op × Answer) :
    issued (t ++ [entry]) = issued t ++ entry.2.name?.toList := by
  rw [issued, issued, List.filterMap_append]
  cases hname : entry.2.name? <;> simp [hname]

/-- An iterator was answered with its end. -/
def Ended (t : List (Op × Answer)) (name : Bytes) : Prop := (.next name, .taken none) ∈ t

instance decidableEnded (t : List (Op × Answer)) (name : Bytes) : Decidable (Ended t name) :=
  inferInstanceAs (Decidable (_ ∈ _))

theorem ended_concat (t : List (Op × Answer)) (entry : Op × Answer) (name : Bytes) :
    Ended (t ++ [entry]) name ↔ Ended t name ∨ entry = (.next name, .taken none) := by
  rw [Ended, Ended, List.mem_append, List.mem_singleton, eq_comm (a := entry)]

/-- What a trace tells of iterators is how a store has them. -/
structure Told (t : List (Op × Answer)) (s : Store) : Prop where
  issued : issued t = (List.range s.opened).map iteratorName
  opened_le : s.opened ≤ maxIterators
  ended : ∀ {name}, Ended t name → name.length = nameLength ∧ Bytes.toNatBE name < s.opened
  kept : ∀ id, id ∈ s.iterators ↔ id < s.opened ∧ ¬ Ended t (iteratorName id)

theorem maxIterators_lt : maxIterators < UInt32.size := by decide

namespace Told

variable {t : List (Op × Answer)} {s : Store}

theorem empty : Told [] empty where
  issued := rfl
  opened_le := Nat.zero_le _
  ended h := absurd h List.not_mem_nil
  kept id := iff_of_false Std.TreeMap.not_mem_emptyc fun h => Nat.not_lt_zero id h.1

theorem named (h : Told t s) : s.Named := by
  intro id hle
  apply Std.TreeMap.getElem?_eq_none
  intro hmem
  exact Nat.not_lt.mpr hle ((h.kept id).mp hmem).1

/-- A number that has not been given out has no end yet. -/
theorem not_ended (h : Told t s) {id : Nat} (hid : id < UInt32.size) (hle : s.opened ≤ id) :
    ¬ Ended t (iteratorName id) := by
  intro hended
  have hlt := (h.ended hended).2
  rw [toNatBE_iteratorName hid] at hlt
  omega

/-- An operation and its answer keep trace and store in step. -/
theorem step (h : Told t s) (op : Op) :
    Told (t ++ [(op, (s.step op).1)]) (s.step op).2 where
  issued := by
    rw [issued_concat, h.issued]
    rcases s.issue_cases op with ⟨hname, hopened⟩ | ⟨hanswer, -, hopened⟩
    · rw [hname, hopened, Option.toList_none, List.append_nil]
    · rw [hanswer, hopened, List.range_succ, List.map_append]
      rfl
  opened_le := opened_step_le h.opened_le op
  ended := by
    intro name hended
    rcases (ended_concat _ _ _).mp hended with hbefore | hnow
    · obtain ⟨hlen, hlt⟩ := h.ended hbefore
      exact ⟨hlen, Nat.lt_of_lt_of_le hlt (s.opened_le_step op)⟩
    · -- the end is answered now, so the step was not refused
      obtain ⟨rfl, hanswer⟩ := Prod.mk.inj hnow
      cases hnext : (next name).run s with
      | error e s' =>
        simp only [Store.step, hnext] at hanswer
        cases hanswer
      | ok record s' =>
        rw [opened_step_of_next]
        exact h.named.lt_opened_of_next hnext
  kept := by
    intro id
    by_cases hid : id < UInt32.size
    · rw [mem_step s op hid, h.kept, ended_concat]
      rcases s.issue_cases op with ⟨hname, hopened⟩ | ⟨hanswer, hlt, hopened⟩
      · have hanswer : (s.step op).1 ≠ .opened (iteratorName id) := by
          intro heq
          rw [heq] at hname
          cases hname
        rw [hopened]
        tauto
      · -- the new number is the one next to all others, and has no end yet
        have hnew : (s.step op).1 = .opened (iteratorName id) ↔ s.opened = id := by
          rw [hanswer, Answer.opened.injEq,
            iteratorName_inj (Nat.lt_trans hlt maxIterators_lt) hid]
        have hend : (op, (s.step op).1) ≠ (.next (iteratorName id), .taken none) := by
          rw [hanswer]
          intro heq
          cases (Prod.mk.inj heq).2
        have hfresh : s.opened = id → ¬ Ended t (iteratorName id) :=
          fun heq => h.not_ended hid (Nat.le_of_eq heq)
        rw [hnew, hopened, Nat.lt_succ_iff_lt_or_eq, eq_comm (a := id)]
        tauto
    · -- no store gives such a number out
      have hle : (s.step op).2.opened ≤ id := by
        have := opened_step_le h.opened_le op
        have := maxIterators_lt
        omega
      refine iff_of_false ?_ fun hkept => Nat.not_lt.mpr hle hkept.1
      rw [Std.TreeMap.mem_iff_isSome_getElem?, h.named.step op id hle]
      exact Bool.false_ne_true

theorem trace (h : Told t s) (ops : List Op) : Told (t ++ s.trace ops) (s.run ops) := by
  induction ops generalizing t s with
  | nil =>
    rw [Store.trace, List.append_nil]
    exact h
  | cons op ops ih =>
    have htail := ih (h.step op)
    rw [List.append_assoc] at htail
    exact htail

/-- As many names were given out as the store counts. -/
theorem length_issued (h : Told t s) : (Store.issued t).length = s.opened := by
  rw [h.issued, List.length_map, List.length_range]

/-- No name is given out twice. -/
theorem nodup_issued (h : Told t s) : (Store.issued t).Nodup := by
  rw [h.issued]
  refine List.Nodup.map_on ?_ List.nodup_range
  intro id hid j hj
  have hlt := maxIterators_lt
  have hle := h.opened_le
  rw [List.mem_range] at hid hj
  exact (iteratorName_inj (by omega) (by omega)).mp

end Told

/-- An operation that is refused leaves a store as it is. -/
theorem step_of_refused {s : Store} {op : Op} {e : BackendError}
    (h : (s.step op).1 = .refused e) : (s.step op).2 = s := by
  cases op with
  | insert key value => cases h
  | erase key => cases h
  | scan start stop order =>
    obtain ⟨-, hscan⟩ | ⟨-, s', hscan, -⟩ := s.scan_cases start stop order
    · simp only [step, hscan]
    · simp only [step, hscan] at h
      cases h
  | next name =>
    cases hnext : (next name).run s with
    | error e' s' =>
      obtain ⟨rfl, -⟩ := next_of_error hnext
      simp only [step, hnext]
    | ok record s' =>
      simp only [step, hnext] at h
      cases h

theorem refused_next_iff {s : Store} {name : Bytes} {e : BackendError} :
    (s.step (.next name)).1 = .refused e ↔ (next name).run s = .error e s := by
  cases hnext : (next name).run s with
  | error e' s' =>
    obtain ⟨rfl, -⟩ := next_of_error hnext
    simp only [step, hnext, Answer.refused.injEq, EStateM.Result.error.injEq, and_true]
  | ok record s' =>
    simp only [step, hnext]
    refine iff_of_false ?_ ?_
    · intro h
      cases h
    · intro h
      cases h

/-- A scan is refused exactly if all numbers have been given out. -/
theorem refused_scan_iff {s : Store} (hle : s.opened ≤ maxIterators) (start stop : Option Bytes)
    (order : Order) : (∃ e, (s.step (.scan start stop order)).1 = .refused e) ↔
      s.opened = maxIterators := by
  obtain ⟨hfull, hscan⟩ | ⟨hlt, s', hscan, -⟩ := s.scan_cases start stop order
  · simp only [step, hscan]
    exact iff_of_true ⟨_, rfl⟩ (Nat.le_antisymm hle hfull)
  · simp only [step, hscan]
    refine iff_of_false ?_ (Nat.ne_of_lt hlt)
    rintro ⟨e, h⟩
    cases h

/-- In every run of a new store, the names given out are those of the numbers from zero on, in their
order and none twice. A step of an iterator is refused exactly if its name has the wrong length or a
number that is not below the number of names given out, and then as unknown. The iterators kept are
those whose name was given out and that have not been answered with their end. A scan is refused
exactly if all names have been given out, and nothing that is refused changes the store. -/
theorem iterators_of_run (ops : List Op) :
    let t := empty.trace ops
    let s := empty.run ops
    (issued t = (List.range (issued t).length).map iteratorName ∧ (issued t).Nodup) ∧
    (∀ name, ((∃ text, (s.step (.next name)).1 = .refused (.unknownIterator text)) ↔
        name.length ≠ nameLength ∨ (issued t).length ≤ Bytes.toNatBE name) ∧
      ∀ e, (s.step (.next name)).1 = .refused e → ∃ text, e = .unknownIterator text) ∧
    (∀ id, id ∈ s.iterators ↔ id < (issued t).length ∧ ¬ Ended t (iteratorName id)) ∧
    (∀ start stop order, (∃ e, (s.step (.scan start stop order)).1 = .refused e) ↔
      (issued t).length = UInt32.size - 1) ∧
    ∀ op e, (s.step op).1 = .refused e → (s.step op).2 = s := by
  intro t s
  have htold : Told t s := Told.empty.trace ops
  rw [htold.length_issued]
  refine ⟨⟨htold.issued, htold.nodup_issued⟩, ?_, htold.kept, refused_scan_iff htold.opened_le,
    fun op e => step_of_refused⟩
  intro name
  simp only [refused_next_iff]
  exact ⟨htold.named.unknown_iff name, fun e hnext => (next_of_error hnext).2⟩

/-- Two iterators are opened, and the first one is gone through to its end. Its name is not given
out again and goes on being known; the name that comes next is not known yet. -/
theorem iterators_of_exhausted :
    let ops : List Op :=
      [.scan none none .ascending, .next (iteratorName 0), .scan none none .descending]
    (issued (empty.trace ops) = [iteratorName 0, iteratorName 1] ∧
      0 ∉ (empty.run ops).iterators ∧ 1 ∈ (empty.run ops).iterators) ∧
    ((∃ text, ((empty.run ops).step (.next (iteratorName 2))).1 =
        .refused (.unknownIterator text)) ∧
      ((empty.run ops).step (.next (iteratorName 2))).2 = empty.run ops) := by
  intro ops
  have hissued : issued (empty.trace ops) = [iteratorName 0, iteratorName 1] := rfl
  obtain ⟨-, hnext, hkept, -, hrefused⟩ := iterators_of_run ops
  have hended : Ended (empty.trace ops) (iteratorName 0) :=
    List.mem_cons_of_mem _ List.mem_cons_self
  have hpending : ¬ Ended (empty.trace ops) (iteratorName 1) := by decide +kernel
  obtain ⟨text, hunknown⟩ := (hnext (iteratorName 2)).1.mpr (.inr (by rw [hissued]; decide))
  refine ⟨⟨hissued, fun h => ((hkept 0).mp h).2 hended, ?_⟩, ⟨text, hunknown⟩,
    hrefused _ _ hunknown⟩
  exact (hkept 1).mpr ⟨by rw [hissued]; decide, hpending⟩

end ContractHost.Store
