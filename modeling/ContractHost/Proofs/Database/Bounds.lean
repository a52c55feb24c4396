import ContractHost.Proofs.Database.Run
import ContractHost.Proofs.Sections
import ContractHost.Proofs.Store.Range

/-!
# Records stay within the bounds

The bounds of keys and values are checked when a record is written, and a record reaches an iterator
only from the data. So after any run every record in the data and every pending one is `Bounded`
(`bounded_run`), and its packed form is read back as its key and its value
(`decode_encodeRecord`). What an iterator yields is therefore never cut (`record_sizes_of_run`).
-/

namespace ContractHost

/-- The key and the value are no longer than the store allows. -/
def Record.Bounded (r : Record) : Prop :=
  r.key.length ≤ Limits.key ∧ r.value.length ≤ Limits.value

namespace Store

theorem get?_insert (s : Store) (key value k : Bytes) :
    (s.insert key value).get? k = if key = k then some value else s.get? k := by
  rw [get?, insert, Std.TreeMap.getElem?_insert]
  by_cases h : key = k
  · simp [h]
  · rw [if_neg (by simpa using h), if_neg h]
    rfl

theorem get?_erase (s : Store) (key k : Bytes) :
    (s.erase key).get? k = if key = k then none else s.get? k := by
  rw [get?, erase, Std.TreeMap.getElem?_erase]
  by_cases h : key = k
  · simp [h]
  · rw [if_neg (by simpa using h), if_neg h]
    rfl

/-- Every record of the data and every pending one is within the bounds. -/
structure Bounded (s : Store) : Prop where
  data : ∀ r : Record, s.get? r.key = some r.value → r.Bounded
  pending : ∀ id, ∀ r ∈ s.pending id, r.Bounded

/-- An operation brings no record beyond the bounds in. -/
def Op.Bounded : Op → Prop
  | .insert key value => Record.Bounded ⟨key, value⟩
  | _ => True

theorem bounded_empty : Bounded empty := by
  constructor
  · intro r hr
    rw [empty, get?, Std.TreeMap.getElem?_emptyc] at hr
    cases hr
  · intro id r hr
    rw [empty, Store.pending, Std.TreeMap.getElem?_emptyc] at hr
    cases hr

/-- Two stores with the same data, of which one has no other pending records than the bounded ones
of the other, are bounded together. -/
theorem Bounded.of_data_eq {s s' : Store} (h : s.Bounded) (hdata : s'.data = s.data)
    (hpending : ∀ id, ∀ r ∈ s'.pending id, r.Bounded) : s'.Bounded := by
  refine ⟨fun r hr => ?_, hpending⟩
  rw [get?, hdata] at hr
  exact h.data r hr

theorem Bounded.step {s : Store} (h : s.Bounded) {op : Op} (hop : op.Bounded) :
    (s.step op).2.Bounded := by
  cases op with
  | insert key value =>
    refine ⟨fun r hr => ?_, h.pending⟩
    replace hr : (s.insert key value).get? r.key = some r.value := hr
    rw [get?_insert] at hr
    split at hr
    · -- the record is the one that has just been written
      rename_i hkey
      cases hr
      rw [← show (⟨key, r.value⟩ : Record) = r by rw [hkey]]
      exact hop
    · exact h.data r hr
  | erase key =>
    refine ⟨fun r hr => ?_, h.pending⟩
    replace hr : (s.erase key).get? r.key = some r.value := hr
    rw [get?_erase] at hr
    split at hr
    · cases hr
    · exact h.data r hr
  | scan start stop order =>
    obtain ⟨-, hscan⟩ | ⟨-, s', hscan, hdata, -, hpending⟩ := s.scan_cases start stop order
    · simp only [Store.step, hscan]
      exact h
    · simp only [Store.step, hscan]
      refine h.of_data_eq hdata fun id r hr => ?_
      rw [hpending] at hr
      -- the new iterator takes its records from the data
      split at hr
      · exact h.data r (mem_range.mp hr).1
      · exact h.pending id r hr
  | next name =>
    cases hnext : (next name).run s with
    | error e s' =>
      obtain ⟨rfl, -⟩ := next_of_error hnext
      simp only [Store.step, hnext]
      exact h
    | ok record s' =>
      obtain ⟨-, -, hdata, -, hpending⟩ := next_of_ok hnext
      simp only [Store.step, hnext]
      refine h.of_data_eq hdata fun id r hr => ?_
      rw [hpending, pendingAfter] at hr
      split at hr
      · exact h.pending id r (List.mem_of_mem_tail hr)
      · exact h.pending id r hr

end Store

namespace Database

/-- What a database operation asks of the store is within the bounds. -/
theorem bounded_effect (op : Op) : ∀ o ∈ op.effect, o.Bounded := by
  intro o ho
  cases op with
  | write key value =>
    rw [Op.effect] at ho
    split at ho
    · rename_i h
      rw [List.mem_singleton] at ho
      subst ho
      exact ⟨h.2, h.1⟩
    · cases ho
  | remove key =>
    rw [Op.effect, List.mem_singleton] at ho
    subst ho
    trivial
  | scan start stop code =>
    rw [Op.effect] at ho
    split at ho
    · rw [List.mem_singleton] at ho
      subst ho
      trivial
    · cases ho
  | next name =>
    rw [Op.effect, List.mem_singleton] at ho
    subst ho
    trivial

/-- A host whose storage is new: it is in order, holds no data and has opened no iterator. -/
def New (h : Host) : Prop := h.backend.storage = {}

theorem New.inOrder {h : Host} (hnew : New h) : h.InOrder := congrArg Storage.outages hnew

theorem New.store_eq {h : Host} (hnew : New h) : h.store = .empty := congrArg Storage.store hnew

/-- What every operation of the store keeps that a database operation may ask for, and a new store
has, every run of the database has. -/
theorem store_run_induction {P : Store → Prop} {h : Host} (hnew : New h) (hempty : P .empty)
    (hstep : ∀ o : Store.Op, o.Bounded → ∀ s, P s → P (s.step o).2) (ops : List Op) :
    P (run h ops).store := by
  rw [store_run hnew.inOrder, hnew.store_eq]
  apply Store.run_induction hempty
  intro o ho
  obtain ⟨op, -, ho⟩ := List.mem_flatMap.mp ho
  exact hstep o (bounded_effect op o ho)

/-- After any run from a new storage, all records are within the bounds. -/
theorem bounded_run {h : Host} (hnew : New h) (ops : List Op) : (run h ops).store.Bounded :=
  store_run_induction hnew Store.bounded_empty (fun _ ho _ hs => hs.step ho) ops

/-- After any run from a new storage, the numbers given out have not passed the last one. -/
theorem opened_run_le {h : Host} (hnew : New h) (ops : List Op) :
    (run h ops).store.opened ≤ Store.maxIterators :=
  store_run_induction (P := fun s => s.opened ≤ Store.maxIterators) hnew (Nat.zero_le _)
    (fun o _ _ hs => Store.opened_step_le hs o) ops

/-! ## The packed form of a record -/

theorem fit_of_bounded {r : Record} (h : r.Bounded) : Sections.Fit [r.key, r.value] := by
  obtain ⟨hkey, hvalue⟩ := h
  rw [Limits.key] at hkey
  rw [Limits.value] at hvalue
  intro s hs
  rw [List.mem_cons, List.mem_singleton] at hs
  rw [UInt32.size]
  rcases hs with rfl | rfl
  · omega
  · omega

theorem decode_encodeRecord {r : Record} (h : r.Bounded) :
    Sections.decode (encodeRecord r) = .ok [r.key, r.value] :=
  Sections.decode_encode (fit_of_bounded h)

theorem length_encodeRecord (r : Record) :
    (encodeRecord r).length = r.key.length + r.value.length + 8 := by
  simp [encodeRecord, Sections.encode]
  omega

/-- The length field of a section that fits tells its length. -/
theorem toNatBE_lengthField {s : Bytes} (h : s.length < UInt32.size) :
    Bytes.toNatBE (Bytes.ofNatBE 4 s.length) = s.length := by
  rw [Bytes.toNatBE_ofNatBE]
  exact Nat.mod_eq_of_lt h

/-- The record that an iterator yields was pending, so it is within the bounds. -/
theorem bounded_of_next {s s' : Store} (hs : s.Bounded) {name : Bytes} {r : Record}
    (h : (Store.next name).run s = .ok (some r) s') : r.Bounded := by
  obtain ⟨-, hr, -⟩ := Store.next_of_ok h
  exact hs.pending _ r (List.mem_of_mem_head? hr.symm)

/-- After any run from a new storage, no key and no value is longer than the store allows, neither
in the data nor in what is pending of an open iterator. So whatever record an iterator yields, the
guest is answered its packed form: key and value, each with four bytes behind it that tell its whole
length, no more than 196616 bytes in all, and read back as the key and the value. -/
theorem record_sizes_of_run {h : Host} (hnew : New h) (ops : List Op) :
    (∀ key value : Bytes, (run h ops).store.data[key]? = some value →
      key.length ≤ 65536 ∧ value.length ≤ 131072) ∧
    (∀ (id : Nat) (records : List Record), (run h ops).store.iterators[id]? = some records →
      ∀ r ∈ records, r.key.length ≤ 65536 ∧ r.value.length ≤ 131072) ∧
    (∀ name r s, (Store.next name).run (run h ops).store = .ok (some r) s →
      (∃ h', (next name).run (run h ops) = .ok (encodeRecord r) h') ∧
      (∃ keyLength valueLength : Bytes, (keyLength.length = 4 ∧ valueLength.length = 4) ∧
        encodeRecord r = r.key ++ keyLength ++ (r.value ++ valueLength) ∧
        Bytes.toNatBE keyLength = r.key.length ∧ Bytes.toNatBE valueLength = r.value.length) ∧
      (encodeRecord r).length ≤ 196616 ∧
      Sections.decode (encodeRecord r) = .ok [r.key, r.value]) := by
  have hbounded : (run h ops).store.Bounded := bounded_run hnew ops
  refine ⟨fun key value hvalue => hbounded.data ⟨key, value⟩ hvalue,
    fun id records hrecords r hr => ?_, fun name r s hnext => ?_⟩
  · rw [← Store.pending_of_some hrecords] at hr
    exact hbounded.pending id r hr
  · have hr : r.Bounded := bounded_of_next hbounded hnext
    -- lengths within the bounds are written in four bytes without loss
    have hfit : Sections.Fit [r.key, r.value] := fit_of_bounded hr
    have hlength : (encodeRecord r).length ≤ 196616 := by
      obtain ⟨hkey, hvalue⟩ := hr
      rw [Limits.key] at hkey
      rw [Limits.value] at hvalue
      rw [length_encodeRecord]
      omega
    have hrun : (next name).run (run h ops) = .ok (encodeRecord r) ((run h ops).setStore s) := by
      rw [run_next (inOrder_run hnew.inOrder ops), hnext]
    have hpacked : encodeRecord r = r.key ++ Bytes.ofNatBE 4 r.key.length ++
        (r.value ++ Bytes.ofNatBE 4 r.value.length) := by
      simp [encodeRecord, Sections.encode]
    have hkeyLength := toNatBE_lengthField (hfit r.key List.mem_cons_self)
    have hvalueLength :=
      toNatBE_lengthField (hfit r.value (List.mem_of_mem_tail List.mem_cons_self))
    exact ⟨⟨_, hrun⟩, ⟨_, _, ⟨Bytes.length_ofNatBE 4 _, Bytes.length_ofNatBE 4 _⟩, hpacked,
      hkeyLength, hvalueLength⟩, hlength, decode_encodeRecord hr⟩

/-- A record that was overwritten after the scan is still yielded whole. -/
theorem record_sizes_of_overwritten :
    New {} ∧ ∃ s, (Store.next (Store.iteratorName 0)).run (run {} [.write [0x61] [0x62],
        .scan none none Order.ascending.code, .write [0x61] [0x63, 0x64]]).store =
          .ok (some ⟨[0x61], [0x62]⟩) s ∧
      (encodeRecord ⟨[0x61], [0x62]⟩).length ≤ 196616 ∧
      Sections.decode (encodeRecord ⟨[0x61], [0x62]⟩) = .ok [[0x61], [0x62]] := by
  have hnew : New {} := rfl
  obtain ⟨-, -, hyields⟩ := record_sizes_of_run hnew [.write [0x61] [0x62],
    .scan none none Order.ascending.code, .write [0x61] [0x63, 0x64]]
  obtain ⟨-, -, hlength, hread⟩ := hyields (Store.iteratorName 0) ⟨[0x61], [0x62]⟩ _ rfl
  exact ⟨hnew, _, rfl, hlength, hread⟩

end Database

end ContractHost
