import ContractHost.Backend.Store

/-!
# What a range of a store is

A store compares keys with `compare`; here ranges are said in terms of the lexicographic `<` and `≤`
of lists instead. `IsRange` says what the list of a range has to be: it holds every record of the
store whose key lies within the bounds and no other, and it goes through them strictly in the order
that was asked for, so none comes twice. `isRange_range` says that `Store.range` is such a list, and
`IsRange.unique` that there is only one.
-/

namespace ContractHost

/-! ## The order of keys -/

namespace Bytes

/-- Keys are compared as the tree compares them. -/
theorem compare_eq_lt {a b : Bytes} : compare a b = .lt ↔ a < b := by
  induction a generalizing b with
  | nil =>
    cases b with
    | nil => simp
    | cons y ys => simp [List.compare_nil_cons]
  | cons x xs ih =>
    cases b with
    | nil => simp [List.compare_cons_nil]
    | cons y ys =>
      rw [List.compare_cons_cons, Ordering.then_eq_lt, ih, List.cons_lt_cons_iff,
        Std.compare_eq_lt, Std.LawfulEqOrd.compare_eq_iff_eq]

theorem isLT_compare {a b : Bytes} : (compare a b).isLT = true ↔ a < b := by
  rw [Ordering.isLT_iff_eq_lt, compare_eq_lt]

theorem isLE_compare {a b : Bytes} : (compare a b).isLE = true ↔ a ≤ b := by
  have hswap : compare b a = (compare a b).swap := Std.OrientedOrd.eq_swap
  rw [← List.not_lt, ← compare_eq_lt, hswap]
  cases compare a b <;> simp

end Bytes

/-- Does a key come before another one when a range is gone through in an order? -/
def Order.Precedes : Order → Bytes → Bytes → Prop
  | .ascending, a, b => a < b
  | .descending, a, b => b < a

namespace Store

/-! ## Bounds -/

/-- A key lies within bounds: not before the first, and before the second. A missing bound bounds
nothing. -/
def Within (start stop : Option Bytes) (key : Bytes) : Prop :=
  (∀ b, start = some b → b ≤ key) ∧ (∀ e, stop = some e → key < e)

/-- The bounds of a range are tested as they are said. -/
theorem inRange_iff {start stop : Option Bytes} {key : Bytes} :
    inRange start stop key = true ↔ Within start stop key := by
  rw [inRange, Bool.and_eq_true, Option.all_eq_true, Option.all_eq_true, Within]
  simp only [Bytes.isLE_compare, Bytes.isLT_compare]

/-- Between bounds in the wrong order, or of one and the same key, there is nothing. -/
theorem not_within_of_le {b e key : Bytes} (h : e ≤ b) : ¬ Within (some b) (some e) key := by
  rintro ⟨hb, he⟩
  have hlt : b < e := List.lt_of_le_of_lt (hb b rfl) (he e rfl)
  exact List.not_lt.mpr h hlt

/-! ## Ranges -/

/-- The list of the records of a store between two bounds, in an order. -/
structure IsRange (s : Store) (start stop : Option Bytes) (order : Order)
    (records : List Record) : Prop where
  ordered : records.Pairwise fun a b => order.Precedes a.key b.key
  mem_iff : ∀ r, r ∈ records ↔ s.get? r.key = some r.value ∧ Within start stop r.key

/-- The records of a store are its keys with their values. -/
theorem mem_records {s : Store} {r : Record} : r ∈ s.records ↔ s.get? r.key = some r.value := by
  rw [records, get?, ← Std.TreeMap.mem_toList_iff_getElem?_eq_some, List.mem_map]
  constructor
  · rintro ⟨⟨key, value⟩, hmem, rfl⟩
    exact hmem
  · intro hmem
    exact ⟨(r.key, r.value), hmem, rfl⟩

/-- The records of a store stand in the order of their keys. -/
theorem pairwise_records (s : Store) : s.records.Pairwise fun a b => a.key < b.key := by
  rw [records, List.pairwise_map]
  exact s.data.ordered_keys_toList.imp fun h => Bytes.compare_eq_lt.mp h

/-- A range has the records whose keys lie between the bounds, the lower one included. -/
theorem mem_range {s : Store} {start stop : Option Bytes} {order : Order} {r : Record} :
    r ∈ s.range start stop order ↔ s.get? r.key = some r.value ∧ Within start stop r.key := by
  have hfound : r ∈ (s.records.filter fun r => inRange start stop r.key) ↔
      s.get? r.key = some r.value ∧ Within start stop r.key := by
    rw [List.mem_filter, mem_records, inRange_iff]
  cases order with
  | ascending => exact hfound
  | descending =>
    rw [← hfound]
    exact List.mem_reverse

/-- The records of a range stand in the order that was asked for. -/
theorem pairwise_range (s : Store) (start stop : Option Bytes) (order : Order) :
    (s.range start stop order).Pairwise fun a b => order.Precedes a.key b.key := by
  have hfound := s.pairwise_records.filter fun r => inRange start stop r.key
  cases order with
  | ascending => exact hfound
  | descending => exact List.pairwise_reverse.mpr hfound

theorem isRange_range (s : Store) (start stop : Option Bytes) (order : Order) :
    IsRange s start stop order (s.range start stop order) :=
  ⟨pairwise_range s start stop order, fun _ => mem_range⟩

namespace IsRange

variable {s : Store} {start stop : Option Bytes} {order : Order} {xs ys : List Record}

/-- A range holds no record twice. -/
theorem nodup (h : IsRange s start stop order xs) : xs.Nodup := by
  refine h.ordered.imp fun {a b} hab heq => ?_
  subst heq
  cases order with
  | ascending => exact List.lt_irrefl a.key hab
  | descending => exact List.lt_irrefl a.key hab

/-- There is only one list of a range. -/
theorem unique (hx : IsRange s start stop order xs) (hy : IsRange s start stop order ys) :
    xs = ys := by
  -- two lists with the same records, both strictly in order, are one list
  have hperm : xs.Perm ys := by
    rw [List.perm_ext_iff_of_nodup hx.nodup hy.nodup]
    intro r
    rw [hx.mem_iff, hy.mem_iff]
  refine hperm.eq_of_pairwise (fun a b _ _ hab hba => ?_) hx.ordered hy.ordered
  cases order with
  | ascending => exact absurd hba (List.lt_asymm hab)
  | descending => exact absurd hba (List.lt_asymm hab)

/-- A range whose bounds are in the wrong order, or one and the same key, is empty. -/
theorem eq_nil_of_le {b e : Bytes} (h : IsRange s (some b) (some e) order xs) (hle : e ≤ b) :
    xs = [] := by
  rw [List.eq_nil_iff_forall_not_mem]
  intro r hr
  exact not_within_of_le hle ((h.mem_iff r).mp hr).2

end IsRange

end Store

end ContractHost
