import ContractHost.Proofs.Database.Bounds
import Mathlib.Data.List.TakeWhile

/-!
# Draining an iterator

A guest drains an iterator by asking for records until it is answered eight zero bytes, and reads
every answer before as the two sections of a record: `Drains`. But eight zero bytes are also the
packed form of the one record whose key and value are both empty, the `blank` one
(`encodeRecord_eq_exhaustedRecord_iff`). So draining stops at the blank record as it does at the
end (`drains_iff`), and the guest obtains a range as a whole exactly if the blank record is not in
it (`drains_of_scan_iff`).
-/

namespace ContractHost.Database

open Store (iteratorName)

/-- The record of an empty key and an empty value. -/
def blank : Record := ⟨[], []⟩

/-- Only the blank record is packed as what an iterator at its end answers. -/
theorem encodeRecord_eq_exhaustedRecord_iff (r : Record) :
    encodeRecord r = exhaustedRecord ↔ r = blank := by
  constructor
  · intro h
    have hlen := congrArg List.length h
    rw [length_encodeRecord, exhaustedRecord, List.length_replicate] at hlen
    obtain ⟨key, value⟩ := r
    have hkey : key = [] := List.eq_nil_of_length_eq_zero (by simp only at hlen; omega)
    have hvalue : value = [] := List.eq_nil_of_length_eq_zero (by simp only at hlen; omega)
    rw [hkey, hvalue, blank]
  · rintro rfl
    rfl

/-- A guest that asks for the records of an iterator until it is answered eight zero bytes obtains
a list of records. -/
inductive Drains (name : Bytes) : Host → List Record → Prop where
  | stop {h h' : Host} : (next name).run h = .ok exhaustedRecord h' → Drains name h []
  | more {h h' : Host} {data key value : Bytes} {rest : List Record} :
    (next name).run h = .ok data h' → data ≠ exhaustedRecord →
    Sections.decode data = .ok [key, value] → Drains name h' rest →
    Drains name h (⟨key, value⟩ :: rest)

/-- A guest that is answered eight zero bytes is done. -/
theorem drains_iff_of_exhausted {name : Bytes} {h h' : Host}
    (hrun : (next name).run h = .ok exhaustedRecord h') (out : List Record) :
    Drains name h out ↔ out = [] := by
  constructor
  · intro hd
    cases hd with
    | stop _ => rfl
    | more hrun' hne _ _ =>
      rw [hrun] at hrun'
      cases hrun'
      exact absurd rfl hne
  · rintro rfl
    exact .stop hrun

/-- A guest that is answered anything else takes it for a record and goes on. -/
theorem drains_iff_of_record {name data key value : Bytes} {h h' : Host}
    (hrun : (next name).run h = .ok data h') (hne : data ≠ exhaustedRecord)
    (hread : Sections.decode data = .ok [key, value]) (out : List Record) :
    Drains name h out ↔ ∃ rest, out = ⟨key, value⟩ :: rest ∧ Drains name h' rest := by
  constructor
  · intro hd
    cases hd with
    | stop hrun' =>
      rw [hrun, EStateM.Result.ok.injEq] at hrun'
      exact absurd hrun'.1 hne
    | more hrun' _ hread' hrest =>
      rw [hrun] at hrun'
      cases hrun'
      rw [hread] at hread'
      cases hread'
      exact ⟨_, rfl, hrest⟩
  · rintro ⟨rest, rfl, hrest⟩
    exact .more hrun hne hread hrest

/-! ## One answer -/

section
variable {h : Host} {id : Nat} (hs : h.InOrder) (hid : id < h.store.opened) (hlt : id < UInt32.size)
include hs hid hlt

/-- At its end an iterator answers eight zero bytes. -/
theorem run_next_of_nil (hp : h.store.pending id = []) :
    ∃ h', (next (iteratorName id)).run h = .ok exhaustedRecord h' := by
  obtain ⟨s', hnext⟩ := Store.exists_next (s := h.store) (Store.length_iteratorName id)
    (by rw [Store.toNatBE_iteratorName hlt]; exact hid)
  rw [Store.toNatBE_iteratorName hlt, hp] at hnext
  exact ⟨_, by rw [run_next hs, hnext]; rfl⟩

/-- Before its end an iterator answers the packed form of its first pending record, and the others
are what is pending then. -/
theorem run_next_of_cons {r : Record} {rest : List Record} (hp : h.store.pending id = r :: rest) :
    ∃ h', (next (iteratorName id)).run h = .ok (encodeRecord r) h' ∧ h'.InOrder ∧
      id < h'.store.opened ∧ h'.store.pending id = rest := by
  obtain ⟨s', hnext⟩ := Store.exists_next (s := h.store) (Store.length_iteratorName id)
    (by rw [Store.toNatBE_iteratorName hlt]; exact hid)
  obtain ⟨-, -, -, hopened, hpending⟩ := Store.next_of_ok hnext
  rw [Store.toNatBE_iteratorName hlt, hp] at hnext
  refine ⟨h.setStore s', by rw [run_next hs, hnext]; rfl, hs, ?_, ?_⟩
  · rw [Host.store_setStore, hopened]
    exact hid
  · rw [Host.store_setStore, hpending, Store.toNatBE_iteratorName hlt,
      Store.pendingAfter_of_cons hp, if_pos rfl]

/-- An iterator answers eight zero bytes exactly if it has no record left or the blank one is
next. -/
theorem next_eq_exhaustedRecord_iff :
    ∃ data h', (next (iteratorName id)).run h = .ok data h' ∧
      (data = exhaustedRecord ↔
        h.store.pending id = [] ∨ (h.store.pending id).head? = some blank) := by
  cases hp : h.store.pending id with
  | nil =>
    obtain ⟨h', hrun⟩ := run_next_of_nil hs hid hlt hp
    exact ⟨exhaustedRecord, h', hrun, by simp⟩
  | cons r rest =>
    obtain ⟨h', hrun, -⟩ := run_next_of_cons hs hid hlt hp
    exact ⟨encodeRecord r, h', hrun, by simp [encodeRecord_eq_exhaustedRecord_iff]⟩

/-! ## All answers -/

/-- Draining an iterator gives what is pending in front of the blank record, and nothing else. -/
theorem drains_iff (hb : ∀ r ∈ h.store.pending id, r.Bounded) (out : List Record) :
    Drains (iteratorName id) h out ↔
      out = (h.store.pending id).takeWhile fun r => r ≠ blank := by
  induction hp : h.store.pending id generalizing h out with
  | nil =>
    obtain ⟨h', hrun⟩ := run_next_of_nil hs hid hlt hp
    exact drains_iff_of_exhausted hrun out
  | cons r rest ih =>
    obtain ⟨h', hrun, hs', hid', hp'⟩ := run_next_of_cons hs hid hlt hp
    have hr : r.Bounded := hb r (by rw [hp]; exact List.mem_cons_self)
    have hrest : ∀ r ∈ h'.store.pending id, r.Bounded := by
      intro r' hr'
      rw [hp'] at hr'
      exact hb r' (by rw [hp]; exact List.mem_cons_of_mem r hr')
    by_cases hblank : r = blank
    · -- the guest takes the blank record for the end, whatever is pending behind it
      have hdata : encodeRecord r = exhaustedRecord :=
        (encodeRecord_eq_exhaustedRecord_iff r).mpr hblank
      rw [hdata] at hrun
      rw [List.takeWhile_cons_of_neg (by simpa using hblank)]
      exact drains_iff_of_exhausted hrun out
    · have hdata : encodeRecord r ≠ exhaustedRecord := fun heq =>
        hblank ((encodeRecord_eq_exhaustedRecord_iff r).mp heq)
      rw [List.takeWhile_cons_of_pos (by simpa using hblank),
        drains_iff_of_record hrun hdata (decode_encodeRecord hr)]
      constructor
      · rintro ⟨tail, rfl, htail⟩
        rw [(ih hs' hid' hrest tail hp').mp htail]
      · intro hout
        exact ⟨_, hout, (ih hs' hid' hrest _ hp').mpr rfl⟩

end

/-! ## Opening and draining -/

/-- An operation that changes the data only. -/
def Op.IsEdit : Op → Prop
  | .write _ _ | .remove _ => True
  | .scan _ _ _ | .next _ => False

/-- Changing the data opens no iterator. -/
theorem opened_run_of_edits {h : Host} (hs : h.InOrder) {ops : List Op}
    (hops : ∀ op ∈ ops, op.IsEdit) : (run h ops).store.opened = h.store.opened := by
  rw [store_run hs]
  refine Store.run_induction (P := fun s => s.opened = h.store.opened) rfl fun o ho s h => ?_
  obtain ⟨op, hop, ho⟩ := List.mem_flatMap.mp ho
  cases op with
  | write key value =>
    rw [Op.effect] at ho
    split at ho
    · rw [List.mem_singleton] at ho
      subst ho
      exact h
    · cases ho
  | remove key =>
    rw [Op.effect, List.mem_singleton] at ho
    subst ho
    exact h
  | scan start stop code => exact absurd (hops _ hop) id
  | next name => exact absurd (hops _ hop) id

theorem ofCode_code (order : Order) : Order.ofCode order.code = .ok order := by
  cases order with
  | ascending => rfl
  | descending => rfl

section
variable {h h' : Host} (hs : h.InOrder) {start stop : Option Bytes} {order : Order}
include hs

/-- As long as there is a number left, an iterator can be opened. -/
theorem exists_run_scan (hlt : h.store.opened < Store.maxIterators) :
    ∃ name h', (scan start stop order.code).run h = .ok name h' := by
  obtain ⟨hge, -⟩ | ⟨-, s', hscan, -⟩ := h.store.scan_cases start stop order
  · omega
  · refine ⟨iteratorName h.store.opened, h.setStore s', ?_⟩
    rw [run_scan hs, ofCode_code]
    simp only [hscan]

/-- What is pending of an iterator that has just been opened. -/
theorem pending_of_run_scan {name : Bytes}
    (hrun : (scan start stop order.code).run h = .ok name h') :
    name = iteratorName h.store.opened ∧ h'.InOrder ∧ h.store.opened < UInt32.size ∧
      h.store.opened < h'.store.opened ∧
      h'.store.pending h.store.opened = h.store.range start stop order := by
  rw [run_scan hs, ofCode_code] at hrun
  obtain ⟨-, hscan⟩ | ⟨hlt, s', hscan, -, hopened, hpending⟩ := h.store.scan_cases start stop order
  · simp only [hscan, reduceCtorEq] at hrun
  · simp only [hscan, EStateM.Result.ok.injEq] at hrun
    obtain ⟨rfl, rfl⟩ := hrun
    rw [Store.maxIterators] at hlt
    refine ⟨rfl, hs, by omega, ?_, ?_⟩
    · rw [Host.store_setStore, hopened]
      exact Nat.lt_succ_self _
    · rw [Host.store_setStore, hpending, if_pos rfl]

end

/-- From a new storage on: a change of the data leaves an iterator to be opened. One that is opened
after any run is drained to the records of its range in front of the blank one, so to the range as a
whole exactly if the empty key is out of range or does not hold an empty value. And any iterator
answers eight zero bytes exactly if it has no record left or the blank record is next. -/
theorem drains_of_scan_iff {h : Host} (hnew : New h) (ops : List Op) :
    ((∀ op ∈ ops, op.IsEdit) → ∀ start stop order,
      ∃ name h', (scan start stop (Order.code order)).run (run h ops) = .ok name h') ∧
    (∀ start stop order name h',
      (scan start stop (Order.code order)).run (run h ops) = .ok name h' →
        ∃ records, Store.IsRange (run h ops).store start stop order records ∧
          (∀ out, Drains name h' out ↔ out = records.takeWhile fun r => r ≠ blank) ∧
          (Drains name h' records ↔
            ¬ ((run h ops).store.get? [] = some [] ∧ Store.Within start stop []))) ∧
    (∀ id < (run h ops).store.opened,
      ∃ data h', (next (iteratorName id)).run (run h ops) = .ok data h' ∧
        (data = exhaustedRecord ↔ (run h ops).store.pending id = [] ∨
          ((run h ops).store.pending id).head? = some blank)) := by
  have hs : (run h ops).InOrder := inOrder_run hnew.inOrder ops
  have hbounded := bounded_run hnew ops
  refine ⟨fun hops start stop order => ?_, fun start stop order name h' hrun => ?_,
    fun id hid => ?_⟩
  · apply exists_run_scan hs
    rw [opened_run_of_edits hnew.inOrder hops, hnew.store_eq]
    decide
  · obtain ⟨rfl, hs', hlt, hid, hpending⟩ := pending_of_run_scan hs hrun
    have hrange := Store.isRange_range (run h ops).store start stop order
    have hdrains : ∀ out, Drains (iteratorName (run h ops).store.opened) h' out ↔
        out = ((run h ops).store.range start stop order).takeWhile fun r => r ≠ blank := by
      intro out
      rw [drains_iff hs' hid hlt, hpending]
      intro r hr
      rw [hpending] at hr
      exact hbounded.data r (Store.mem_range.mp hr).1
    refine ⟨_, hrange, hdrains, ?_⟩
    -- all of the range is drained exactly if nothing stops it, so if it has no blank record
    have hblank : blank ∈ (run h ops).store.range start stop order ↔
        (run h ops).store.get? [] = some [] ∧ Store.Within start stop [] := hrange.mem_iff blank
    rw [hdrains, ← hblank, eq_comm, List.takeWhile_eq_self_iff]
    constructor
    · intro hall hmem
      simpa using hall blank hmem
    · intro hnot r hr
      have hne : r ≠ blank := fun heq => hnot (heq ▸ hr)
      simpa using hne
  · have hle := opened_run_le hnew ops
    rw [Store.maxIterators] at hle
    exact next_eq_exhaustedRecord_iff hs hid (by omega)

/-- An iterator over a store without the blank record is drained to its only record. -/
theorem drains_single_record :
    New {} ∧ ∃ records name h',
      (scan none none Order.ascending.code).run (run {} [.write [0x61] [0x62]]) = .ok name h' ∧
      Store.IsRange (run {} [.write [0x61] [0x62]]).store none none .ascending records ∧
      Drains name h' records := by
  have hnew : New {} := rfl
  obtain ⟨hopen, hdrain, -⟩ := drains_of_scan_iff hnew [.write [0x61] [0x62]]
  have hedits : ∀ op ∈ [Op.write [0x61] [0x62]], op.IsEdit := by simp [Op.IsEdit]
  obtain ⟨name, h', hscan⟩ := hopen hedits none none .ascending
  obtain ⟨records, hrange, -, hwhole⟩ := hdrain none none .ascending name h' hscan
  have hblank : (run {} [.write [0x61] [0x62]]).store.get? [] = none := rfl
  exact ⟨hnew, records, name, h', hscan, hrange, hwhole.mpr (by simp [hblank])⟩

/-- The guest is left without any record of a store that holds the blank one and another. -/
theorem not_drains_with_blank :
    ∃ name h', (scan none none Order.ascending.code).run
        (run {} [.write [] [], .write [0x61] [0x62]]) = .ok name h' ∧
      Store.IsRange (run {} [.write [] [], .write [0x61] [0x62]]).store none none .ascending
        [⟨[], []⟩, ⟨[0x61], [0x62]⟩] ∧
      Drains name h' [] ∧ ¬ Drains name h' [⟨[], []⟩, ⟨[0x61], [0x62]⟩] := by
  refine ⟨iteratorName 0, _, rfl, Store.isRange_range _ none none .ascending, .stop rfl, ?_⟩
  intro hd
  cases hd with
  | more hrun hne _ _ =>
    cases hrun
    exact hne rfl

end ContractHost.Database
