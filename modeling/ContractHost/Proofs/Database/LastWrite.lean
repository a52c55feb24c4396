import ContractHost.Proofs.Database.Bounds
import ContractHost.Proofs.Store.Iterators

/-!
# A key has the value that was written last

`trace` is a run of database operations with what each of them was answered. Of its entries only two
kinds decide the value of a key, a write of it that was done and a removal of it (`Settles`), and an
operation whose entry does not decide it leaves the value as it was (`get?_after`). So after any run
the value of a key is that of the last write that was done, if no removal has come since
(`LastWritten`), or none (`get?_run_iff`, `read_of_trace`).

An operation that is refused leaves the host as it is. The names of iterators that are not refused
are told by the trace too: all numbers below the count of the store were answered to scans
(`opened_of_lt`), and from there on no iterator is kept (`Store.Named`).
-/

namespace ContractHost

namespace Database

/-! ## Traces -/

/-- What an operation answers. -/
inductive Answer where
  | done
  | bytes (bs : Bytes)
  | refused (fault : HostFault)

/-- The answer of an operation that has nothing to tell. -/
def Answer.ofUnit : EStateM.Result HostFault Host Unit → Answer
  | .ok _ _ => .done
  | .error fault _ => .refused fault

/-- The answer of an operation on iterators. -/
def Answer.ofBytes : EStateM.Result HostFault Host Bytes → Answer
  | .ok bs _ => .bytes bs
  | .error fault _ => .refused fault

/-- What a host answers to an operation. -/
def answer (h : Host) : Op → Answer
  | .write key value => .ofUnit ((write key value).run h)
  | .remove key => .ofUnit ((remove key).run h)
  | .scan start stop code => .ofBytes ((scan start stop code).run h)
  | .next name => .ofBytes ((next name).run h)

/-- A run, operation by operation, with the answers. -/
def trace (h : Host) : List Op → List (Op × Answer)
  | [] => []
  | op :: ops => (op, answer h op) :: trace (after h op) ops

/-- An entry decides the value of a key: a write that was done, or a removal. -/
def Settles (key : Bytes) (entry : Op × Answer) : Prop :=
  entry.1 = .remove key ∨ ∃ value, entry = (.write key value, .done)

/-- A value is that of the last write of a key that was done, and the key has not been removed
since. -/
def LastWritten (t : List (Op × Answer)) (key value : Bytes) : Prop :=
  ∃ before after, t = before ++ (.write key value, .done) :: after ∧
    ∀ entry ∈ after, ¬ Settles key entry

/-- An iterator was opened under a name. -/
def Opened (t : List (Op × Answer)) (name : Bytes) : Prop :=
  ∃ start stop code, (.scan start stop code, .bytes name) ∈ t

/-! ## The value of a key -/

section
variable {h : Host} (hs : h.InOrder)
include hs

/-- A write is done or refused, as its value and its key have their lengths. -/
theorem write_cases (key value : Bytes) :
    (answer h (.write key value) = .done ∧
      (after h (.write key value)).store = h.store.insert key value) ∨
    ((∃ fault, answer h (.write key value) = .refused fault) ∧ after h (.write key value) = h) := by
  rw [answer, after, run_write hs]
  split
  · exact .inr ⟨⟨_, rfl⟩, rfl⟩
  split
  · exact .inr ⟨⟨_, rfl⟩, rfl⟩
  · exact .inl ⟨rfl, rfl⟩

/-- A removal is always done. -/
theorem store_after_remove (key : Bytes) :
    (after h (.remove key)).store = h.store.erase key := by
  rw [after, run_remove hs]
  rfl

/-- An operation that does not decide the value of a key leaves it. -/
theorem get?_after {op : Op} {key : Bytes} (hop : ¬ Settles key (op, answer h op)) :
    (after h op).store.get? key = h.store.get? key := by
  cases op with
  | write key' value =>
    obtain ⟨hdone, hstore⟩ | ⟨-, hafter⟩ := write_cases hs key' value
    · have hne : key' ≠ key := by
        rintro rfl
        exact hop (.inr ⟨value, by rw [hdone]⟩)
      rw [hstore, Store.get?_insert, if_neg hne]
    · rw [hafter]
  | remove key' =>
    have hne : key' ≠ key := by
      rintro rfl
      exact hop (.inl rfl)
    rw [store_after_remove hs, Store.get?_erase, if_neg hne]
  | scan start stop code =>
    rw [(after_spec hs _).1, Op.effect]
    split
    · exact congrArg (·[key]?) (Store.data_step_of_scan _ _ _ _)
    · rfl
  | next name =>
    rw [(after_spec hs _).1]
    exact congrArg (·[key]?) (Store.data_step_of_next _ _)

/-- After an operation a key has a value exactly if the operation has written it, or if the key had
it before and the operation did not decide it. -/
theorem get?_after_iff (op : Op) (key value : Bytes) :
    (after h op).store.get? key = some value ↔
      (op, answer h op) = (.write key value, .done) ∨
        h.store.get? key = some value ∧ ¬ Settles key (op, answer h op) := by
  by_cases hop : Settles key (op, answer h op)
  -- the operation decided the key: it removed it, or it wrote a value that was not refused
  · obtain hremove | ⟨value', hwrite⟩ := id hop
    · simp only at hremove
      subst hremove
      rw [store_after_remove hs, Store.get?_erase, if_pos rfl]
      simp [hop]
    · obtain ⟨rfl, hdone⟩ := Prod.mk.inj hwrite
      obtain ⟨-, hstore⟩ | ⟨⟨fault, hrefused⟩, -⟩ := write_cases hs key value'
      · rw [hstore, Store.get?_insert, if_pos rfl]
        rw [hdone] at hop ⊢
        simp [hop]
      · rw [hdone] at hrefused
        cases hrefused
  · have hne : (op, answer h op) ≠ (.write key value, .done) := fun heq => hop (.inr ⟨value, heq⟩)
    rw [get?_after hs hop]
    simp [hop, hne]

end

theorem lastWritten_cons {entry : Op × Answer} {t : List (Op × Answer)} {key value : Bytes} :
    LastWritten (entry :: t) key value ↔
      LastWritten t key value ∨
        entry = (.write key value, .done) ∧ ∀ later ∈ t, ¬ Settles key later := by
  constructor
  · rintro ⟨before, after, ht, hafter⟩
    cases before with
    | nil =>
      obtain ⟨hentry, rfl⟩ := List.cons.inj ht
      exact .inr ⟨hentry, hafter⟩
    | cons first before =>
      obtain ⟨-, ht⟩ := List.cons.inj ht
      exact .inl ⟨before, after, ht, hafter⟩
  · rintro (⟨before, after, rfl, hafter⟩ | ⟨rfl, ht⟩)
    · exact ⟨entry :: before, after, rfl, hafter⟩
    · exact ⟨[], t, rfl, ht⟩

/-- After a run a key has a value exactly if that was written last, or if the key had it before and
no operation decided it. -/
theorem get?_run_iff {h : Host} (hs : h.InOrder) (ops : List Op) (key value : Bytes) :
    (run h ops).store.get? key = some value ↔
      LastWritten (trace h ops) key value ∨
        h.store.get? key = some value ∧ ∀ entry ∈ trace h ops, ¬ Settles key entry := by
  induction ops generalizing h with
  | nil => simp [run, trace, LastWritten]
  | cons op ops ih =>
    rw [run, ih (after_spec hs op).2, get?_after_iff hs, trace, lastWritten_cons,
      List.forall_mem_cons, or_and_right, and_assoc, or_assoc]

/-! ## Names of iterators -/

/-- No number is given out by an operation, or the next one, to a scan that is answered. -/
theorem opened_after {h : Host} (hs : h.InOrder) (op : Op) :
    (after h op).store.opened = h.store.opened ∨
    (after h op).store.opened = h.store.opened + 1 ∧ ∃ start stop code,
      (op, answer h op) = (.scan start stop code, .bytes (Store.iteratorName h.store.opened)) := by
  cases op with
  | write key value =>
    obtain ⟨-, hstore⟩ | ⟨-, hafter⟩ := write_cases hs key value
    · exact .inl (by rw [hstore]; rfl)
    · exact .inl (by rw [hafter])
  | remove key => exact .inl (by rw [store_after_remove hs]; rfl)
  | scan start stop code =>
    rw [answer, after, run_scan hs]
    cases Order.ofCode code with
    | error e => exact .inl rfl
    | ok order =>
      -- the store may still refuse a scan, when its numbers have run out
      obtain ⟨-, hscan⟩ | ⟨-, s', hscan, -, hopened, -⟩ := h.store.scan_cases start stop order
      · simp only [hscan]
        exact .inl rfl
      · simp only [hscan]
        exact .inr ⟨hopened, start, stop, code, rfl⟩
  | next name =>
    rw [(after_spec hs _).1]
    exact .inl (Store.opened_step_of_next h.store name)

/-- The names of all numbers given out in a run were answered to its scans. -/
theorem opened_of_lt {h : Host} (hs : h.InOrder) {ops : List Op} {name : Bytes}
    (hlen : name.length = Store.nameLength) (hle : h.store.opened ≤ Bytes.toNatBE name)
    (hlt : Bytes.toNatBE name < (run h ops).store.opened) : Opened (trace h ops) name := by
  induction ops generalizing h with
  | nil => exact absurd hlt (Nat.not_lt.mpr hle)
  | cons op ops ih =>
    have hs' := (after_spec hs op).2
    have hlater : (after h op).store.opened ≤ Bytes.toNatBE name →
        Opened (trace h (op :: ops)) name := by
      intro hle'
      obtain ⟨start, stop, code, hmem⟩ := ih hs' hle' hlt
      exact ⟨start, stop, code, List.mem_cons_of_mem _ hmem⟩
    obtain hopened | ⟨hopened, start, stop, code, hentry⟩ := opened_after hs op
    · exact hlater (by rwa [hopened])
    · by_cases hnumber : Bytes.toNatBE name = h.store.opened
      · -- the name is the one that this scan is answered
        rw [← hnumber, Store.iteratorName_toNatBE hlen] at hentry
        exact ⟨start, stop, code, by rw [trace, hentry]; exact List.mem_cons_self⟩
      · exact hlater (by omega)

/-! ## Runs from a new storage -/

/-- After a run from a new storage, no iterator is kept that was not opened. -/
theorem named_run {h : Host} (hnew : New h) (ops : List Op) : (run h ops).store.Named :=
  store_run_induction hnew Store.named_empty (fun o _ _ hs => hs.step o) ops

/-- Whatever was asked of a new storage before, done or refused: the value of a key is that of its
last write that was done, if the key has not been removed since, and none otherwise. A write beyond
the bounds, a scan in no order and a step of an iterator that was not opened are refused and leave
the host as it is. -/
theorem read_of_trace {h : Host} (hnew : New h) (ops : List Op) :
    (∀ key : Bytes, key.length ≤ Limits.key →
      (∀ value, LastWritten (trace h ops) key value →
        ∃ h', (read key).run (run h ops) = .ok (some value) h') ∧
      ((¬ ∃ value, LastWritten (trace h ops) key value) →
        ∃ h', (read key).run (run h ops) = .ok none h')) ∧
    (∀ key value : Bytes, Limits.key < key.length ∨ Limits.value < value.length →
      ∃ fault, (write key value).run (run h ops) = .error (.validation fault) (run h ops)) ∧
    (∀ (start stop : Option Bytes) (code : Int32),
      code ≠ Order.ascending.code → code ≠ Order.descending.code →
      ∃ fault, (scan start stop code).run (run h ops) = .error (.validation fault) (run h ops)) ∧
    (∀ name : Bytes, ¬ Opened (trace h ops) name →
      ∃ id, (next name).run (run h ops) = .error (.backend (.unknownIterator id)) (run h ops)) := by
  have hs := inOrder_run hnew.inOrder ops
  refine ⟨fun key hkey => ?_, fun key value hlong => ?_, fun start stop code hasc hdesc => ?_,
    fun name hname => ?_⟩
  · -- a new storage has no values, so all that is found was written in the run
    have hempty : h.store.get? key = none := by
      rw [hnew.store_eq]
      exact Std.TreeMap.getElem?_emptyc
    have hvalue (value : Bytes) : (run h ops).store.get? key = some value ↔
        LastWritten (trace h ops) key value := by
      rw [get?_run_iff hnew.inOrder, hempty]
      simp
    obtain ⟨h', hread⟩ := run_read hs hkey
    refine ⟨fun value hlast => ⟨h', by rw [hread, (hvalue value).mpr hlast]⟩, fun hnone => ⟨h', ?_⟩⟩
    rw [hread, Option.eq_none_iff_forall_ne_some.mpr fun value hsome =>
      hnone ⟨value, (hvalue value).mp hsome⟩]
  · rw [run_write hs]
    split
    · exact ⟨_, rfl⟩
    · rw [if_pos (by omega)]
      exact ⟨_, rfl⟩
  · rw [run_scan hs, Order.ofCode, if_neg hasc, if_neg hdesc]
    exact ⟨_, rfl⟩
  · have hunknown : name.length = Store.nameLength →
        (run h ops).store.opened ≤ Bytes.toNatBE name := by
      intro hlen
      refine Nat.le_of_not_lt fun hlt => hname (opened_of_lt hnew.inOrder hlen ?_ hlt)
      rw [hnew.store_eq]
      exact Nat.zero_le _
    obtain ⟨id, hnext⟩ := (named_run hnew ops).next_of_unknown hunknown
    refine ⟨id, ?_⟩
    rw [run_next hs, hnext]
    rfl

/-- A key is written, removed and written again, and what follows is refused. -/
def rewriting : List Op :=
  [.write [1] [10], .remove [1], .write [1] [11], .scan none none 3, .next [0, 0, 0, 0]]

theorem read_of_rewriting :
    New {} ∧ LastWritten (trace {} rewriting) [1] [11] ∧
      (∃ h', (read [1]).run (run {} rewriting) = .ok (some [11]) h') ∧
      ¬ Opened (trace {} rewriting) [0, 0, 0, 0] ∧
      ∃ id, (next [0, 0, 0, 0]).run (run {} rewriting) =
        .error (.backend (.unknownIterator id)) (run {} rewriting) := by
  have hnew : New {} := rfl
  have hlast : LastWritten (trace {} rewriting) [1] [11] := by
    refine ⟨trace {} (rewriting.take 2), trace (run {} (rewriting.take 3)) (rewriting.drop 3),
      rfl, ?_⟩
    simp [rewriting, trace, Settles]
  have hunknown : ¬ Opened (trace {} rewriting) [0, 0, 0, 0] := by
    rintro ⟨start, stop, code, hmem⟩
    simp only [rewriting, trace, List.mem_cons, Prod.mk.injEq, reduceCtorEq, false_and,
      Op.scan.injEq, List.not_mem_nil, or_false, false_or] at hmem
    -- the only scan of the run was refused
    obtain ⟨-, hanswer⟩ := hmem
    cases hanswer
  obtain ⟨hread, -, -, hnext⟩ := read_of_trace hnew rewriting
  exact ⟨hnew, hlast, (hread [1] (by decide)).1 [11] hlast, hunknown, hnext [0, 0, 0, 0] hunknown⟩

end Database

end ContractHost
