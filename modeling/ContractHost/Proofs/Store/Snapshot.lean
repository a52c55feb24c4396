import ContractHost.Proofs.Store.Range
import ContractHost.Proofs.Store.Trace

/-!
# An iterator answers the store as it was when it was opened

Whatever happens to a store and to its other iterators, the steps of an iterator go through the
records that its range had at the moment of the scan: `answersTo_trace` says so of what is pending
in any store, by induction on the run, and `answers_of_scan` of an iterator from its opening on.
-/

namespace ContractHost.Store

/-- In a run, the steps of an iterator that has been opened go through its pending records, and
answer none from their end on. -/
theorem answersTo_trace {s : Store} {id : Nat} (hid : id < s.opened) (hlt : id < UInt32.size)
    (ops : List Op) :
    answersTo (.next (iteratorName id)) (s.trace ops) =
      (List.range (ops.count (.next (iteratorName id)))).map
        fun i => .taken (s.pending id)[i]? := by
  induction ops generalizing s with
  | nil => rfl
  | cons op ops ih =>
    -- the rest of the run starts with what this operation leaves pending
    have hopened : id < (s.step op).2.opened := Nat.lt_of_lt_of_le hid (s.opened_le_step op)
    have htail := ih hopened
    rw [pending_step hid hlt op] at htail
    by_cases hop : op = .next (iteratorName id)
    · subst hop
      rw [if_pos rfl] at htail
      rw [trace, answersTo, List.filter_cons_of_pos (by simp), List.map_cons, answer_next hid hlt,
        List.count_cons_self, List.range_succ_eq_map, List.map_cons, List.map_map,
        List.head?_eq_getElem?]
      -- the rest answers from the second pending record on
      congr 1
      refine htail.trans (List.map_congr_left fun i _ => ?_)
      rw [List.getElem?_tail]
      rfl
    · rw [if_neg hop] at htail
      rw [trace, answersTo, List.filter_cons_of_neg (by simpa using hop),
        List.count_cons_of_ne hop]
      exact htail

/-- A scan that is answered opens an iterator on the range as it is at that moment. -/
theorem pending_of_scan {s : Store} {start stop : Option Bytes} {order : Order} {name : Bytes}
    (h : (s.step (.scan start stop order)).1 = .opened name) :
    name = iteratorName s.opened ∧ s.opened < maxIterators ∧
      s.opened < (s.step (.scan start stop order)).2.opened ∧
      (s.step (.scan start stop order)).2.pending s.opened = s.range start stop order := by
  obtain ⟨-, hscan⟩ | ⟨hlt, s', hscan, -, hopened, hpending⟩ := s.scan_cases start stop order
  · simp only [step, hscan, reduceCtorEq] at h
  · simp only [step, hscan, Answer.opened.injEq] at h ⊢
    refine ⟨h.symm, hlt, ?_, ?_⟩
    · rw [hopened]
      exact Nat.lt_succ_self _
    · rw [hpending, if_pos rfl]

/-- After any run from any store, an iterator that a scan opens answers the records of the range as
the store held them at that moment: the same list whatever is done afterwards, each record once, in
the order asked for, and none from its end on. Between bounds in the wrong order, or of one and the
same key, the list is empty. -/
theorem answers_of_scan (s₀ : Store) (before : List Op) (start stop : Option Bytes)
    (order : Order) {name : Bytes}
    (h : ((s₀.run before).step (.scan start stop order)).1 = .opened name) :
    ∃ records, IsRange (s₀.run before) start stop order records ∧
      (∀ b e, start = some b → stop = some e → e ≤ b → records = []) ∧
      ∀ after : List Op,
        answersTo (.next name) (((s₀.run before).step (.scan start stop order)).2.trace after) =
          (List.range (after.count (.next name))).map fun i => .taken records[i]? := by
  obtain ⟨hname, hlt, hopened, hpending⟩ := pending_of_scan h
  have hrange := isRange_range (s₀.run before) start stop order
  refine ⟨_, hrange, ?_, fun after => ?_⟩
  · rintro b e rfl rfl hle
    exact hrange.eq_nil_of_le hle
  · have hnumber : (s₀.run before).opened < UInt32.size := by
      rw [maxIterators] at hlt
      omega
    rw [hname, answersTo_trace hopened hnumber after, hpending]

/-- Two keys are in the store when the iterator is opened, and both are changed before its steps. -/
theorem answers_of_scan_descending :
    ((run .empty [.insert [1] [10], .insert [2] [20]]).step (.scan none none .descending)).1 =
        .opened (iteratorName 0) ∧
      ∃ records, IsRange (run .empty [.insert [1] [10], .insert [2] [20]]) none none .descending
          records ∧
        answersTo (.next (iteratorName 0))
            (((run .empty [.insert [1] [10], .insert [2] [20]]).step
              (.scan none none .descending)).2.trace
                [.erase [2], .next (iteratorName 0), .insert [1] [11], .next (iteratorName 0),
                  .next (iteratorName 0)]) =
          [.taken records[0]?, .taken records[1]?, .taken records[2]?] := by
  refine ⟨rfl, ?_⟩
  obtain ⟨records, hrange, -, hanswers⟩ :=
    answers_of_scan .empty [.insert [1] [10], .insert [2] [20]] none none .descending rfl
  exact ⟨records, hrange, hanswers _⟩

end ContractHost.Store
