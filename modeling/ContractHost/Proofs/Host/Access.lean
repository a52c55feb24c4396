import ContractHost.Host.Functions
import ContractHost.Proofs.Guest.Region
import ContractHost.Proofs.Host.Turns

/-!
# What the host gets out of a guest, and puts into it

Each way into a guest says of itself when it succeeds: reading the bytes behind a pointer tells what
the region there holds and changes nothing (`run_bytesAt_eq_ok`); bytes get into a new region by one
run of the allocator and one write of the host (`run_newBytes_eq_ok`). Nothing is asked of the
allocator. A pointer that the host hands on was loaded as a region, so it is not zero
(`ptr_ne_zero_of_newBytes`).
-/

namespace ContractHost

open Guest (Memory Region MemoryFault Value)
open Guest.Region (Holds load_eq_ok)

/-! ## Runs that succeed -/

section
variable {ε σ α β : Type} {s t u : σ} {a a' : α} {b : β}

/-- A sequence goes on where its first part left off. -/
theorem run_bind_of_ok {x : EStateM ε σ α} {f : α → EStateM ε σ β} (h : x.run s = .ok a t) :
    (x >>= f).run s = (f a).run t := by
  rw [EStateM.run_bind, h]

/-- A sequence succeeds exactly if its parts do, one after the other. -/
theorem run_bind_eq_ok_iff {x : EStateM ε σ α} {f : α → EStateM ε σ β} :
    (x >>= f).run s = .ok b u ↔ ∃ a t, x.run s = .ok a t ∧ (f a).run t = .ok b u := by
  constructor
  · exact run_bind_eq_ok
  · intro ⟨a, t, hx, hf⟩
    rw [run_bind_of_ok hx, hf]

theorem run_pure_eq_ok : (pure a : EStateM ε σ α).run s = .ok a' t ↔ a = a' ∧ s = t := by
  rw [EStateM.run_pure, EStateM.Result.ok.injEq]

theorem run_throw_ne_ok {e : ε} : (throw e : EStateM ε σ α).run s ≠ .ok a t := nofun

/-- What a run answers, if it succeeds. -/
def answered? : EStateM.Result ε σ α → Option α
  | .ok a _ => some a
  | .error _ _ => none

/-- Why a run failed, if it did. -/
def failed? : EStateM.Result ε σ α → Option ε
  | .ok _ _ => none
  | .error e _ => some e

/-- What a run ended with: its answer, or its failure. -/
def outcome : EStateM.Result ε σ α → Except ε α
  | .ok a _ => .ok a
  | .error e _ => .error e

/-- The state that a run leaves. -/
def left : EStateM.Result ε σ α → σ
  | .ok _ s => s
  | .error _ s => s

/-- A run that answered succeeded. -/
theorem eq_ok_of_answered? {r : EStateM.Result ε σ α} (h : answered? r = some a) :
    r = .ok a (left r) := by
  cases r with
  | ok b s => rw [Option.some.inj h, left]
  | error e s => cases h

/-- A run that failed did not. -/
theorem eq_error_of_failed? {r : EStateM.Result ε σ α} {e : ε} (h : failed? r = some e) :
    r = .error e (left r) := by
  cases r with
  | ok a s => cases h
  | error e' s => rw [Option.some.inj h, left]

/-- What a computation keeps it has kept in the state that it leaves, however it ends. -/
theorem left_of_moves {R : σ → σ → Prop} {x : EStateM ε σ α} (hx : Moves R x) (s : σ) :
    R s (left (x.run s)) := by
  cases hrun : x.run s with
  | ok a t => exact hx.of_ok hrun
  | error e t => exact hx.of_error hrun

end

namespace Access

variable {σ α : Type} {g : Access σ} {s t u : σ} {ptr : UInt32} {r r' : Region} {data : Bytes}

theorem run_ofMemory_eq_ok {result : Except MemoryFault α} {a : α} :
    (ofMemory result : EStateM HostFault σ α).run s = .ok a t ↔ result = .ok a ∧ s = t := by
  cases result with
  | ok a' =>
    rw [Except.ok.injEq]
    exact run_pure_eq_ok
  | error e => exact iff_of_false run_throw_ne_ok nofun

/-- The memory is looked at, and that changes nothing. -/
theorem run_view_eq_ok {m : Memory} : g.view.run s = .ok m t ↔ g.memory s = .ok m ∧ s = t := by
  have hview : g.view.run s = (ofMemory (g.memory s)).run s := rfl
  rw [hview, run_ofMemory_eq_ok]

/-- What reads the memory sees the memory that is there. -/
theorem run_view_bind_ofMemory_eq_ok {f : Memory → Except MemoryFault α} {a : α} :
    (g.view >>= fun m => ofMemory (f m)).run s = .ok a t ↔
      (∃ m, g.memory s = .ok m ∧ f m = .ok a) ∧ s = t := by
  simp only [run_bind_eq_ok_iff, run_view_eq_ok, run_ofMemory_eq_ok]
  constructor
  · rintro ⟨m, _, ⟨hm, rfl⟩, ha, rfl⟩
    exact ⟨⟨m, hm, ha⟩, rfl⟩
  · rintro ⟨⟨m, hm, ha⟩, rfl⟩
    exact ⟨m, s, ⟨hm, rfl⟩, ha, rfl⟩

/-- A region is there exactly if it can be loaded from the memory. -/
theorem run_region_eq_ok : (g.region ptr).run s = .ok r t ↔
    (∃ m, g.memory s = .ok m ∧ Region.load m ptr = .ok r) ∧ s = t := by
  unfold region
  by_cases hptr : ptr = 0
  · rw [if_pos hptr]
    refine iff_of_false run_throw_ne_ok ?_
    rintro ⟨⟨m, -, hload⟩, -⟩
    exact (load_eq_ok.mp hload).1 hptr
  · rw [if_neg hptr]
    exact run_view_bind_ofMemory_eq_ok

/-- A region that is not the null region is read out of the memory. -/
theorem run_read_eq_ok (hptr : r.ptr ≠ 0) : (g.read r).run s = .ok data t ↔
    (∃ m, g.memory s = .ok m ∧ Region.read m r = .ok data) ∧ s = t := by
  have hnull : ¬ r.isNull = true := fun h => hptr (beq_iff_eq.mp h)
  rw [read, if_neg hnull]
  exact run_view_bind_ofMemory_eq_ok

/-- What a region holds, the host reads. -/
theorem run_of_holds {m : Memory} (hm : g.memory s = .ok m) (h : Holds m r data) :
    (g.region r.ptr).run s = .ok r s ∧ (g.read r).run s = .ok data s :=
  ⟨run_region_eq_ok.mpr ⟨⟨m, hm, h.load⟩, rfl⟩,
    (run_read_eq_ok (load_eq_ok.mp h.load).1).mpr ⟨⟨m, hm, h.read⟩, rfl⟩⟩

/-- Writing succeeds exactly if it does in the memory, which then takes the place of the other. -/
theorem run_write_eq_ok : (g.write r data).run s = .ok r' t ↔
    ∃ m m', g.memory s = .ok m ∧ (r.write data).run m = .ok r' m' ∧ g.setMemory m' s = t := by
  simp only [write, onMemory, run_bind_eq_ok_iff, run_view_eq_ok]
  constructor
  · rintro ⟨m, _, ⟨hm, rfl⟩, hrun⟩
    cases hr : (r.write data).run m with
    | error e m' =>
      rw [hr] at hrun
      cases hrun
    | ok a m' =>
      rw [hr] at hrun
      cases hrun
      exact ⟨m, m', hm, hr, rfl⟩
  · rintro ⟨m, m', hm, hr, rfl⟩
    refine ⟨m, s, ⟨hm, rfl⟩, ?_⟩
    rw [hr]
    rfl

/-- A new region is there exactly if its size fits into a word, the allocator answers, and a region
is found behind the pointer that it answers. -/
theorem run_newRegion_eq_ok {size : Nat} : (g.newRegion size).run s = .ok r t ↔
    size < UInt32.size ∧ (g.allocate (UInt32.ofNat size)).run s = .ok r.ptr t ∧
      ∃ m, g.memory t = .ok m ∧ Region.load m r.ptr = .ok r := by
  unfold newRegion
  -- a size that 32 bits do not hold is refused before the allocator runs
  by_cases hsize : UInt32.size ≤ size
  · rw [if_pos hsize]
    exact iff_of_false run_throw_ne_ok fun h => Nat.not_lt.mpr hsize h.1
  rw [if_neg hsize, and_iff_right (Nat.lt_of_not_le hsize)]
  show (g.allocate (UInt32.ofNat size) >>= g.region).run s = .ok r t ↔ _
  simp only [run_bind_eq_ok_iff, run_region_eq_ok]
  constructor
  · rintro ⟨ptr, _, hrun, ⟨m, hm, hload⟩, rfl⟩
    obtain rfl := Region.ptr_of_load hload
    exact ⟨hrun, m, hm, hload⟩
  · rintro ⟨hrun, m, hm, hload⟩
    exact ⟨r.ptr, t, hrun, ⟨m, hm, hload⟩, rfl⟩

/-- Bytes are handed out exactly if there is a new region of their length and they are written into
it. -/
theorem run_newBytes_eq_ok : (g.newBytes data).run s = .ok r' u ↔
    ∃ r t, (g.newRegion data.length).run s = .ok r t ∧ (g.write r data).run t = .ok r' u :=
  run_bind_eq_ok_iff

/-- Writing leaves a region where it is. -/
theorem ptr_of_write (h : (g.write r data).run s = .ok r' t) : r'.ptr = r.ptr := by
  obtain ⟨m, m', -, hwrite, -⟩ := run_write_eq_ok.mp h
  obtain ⟨-, rfl, -⟩ := Region.run_write_eq_ok.mp hwrite
  rfl

/-- The null region is never handed out. -/
theorem ptr_ne_zero_of_newBytes (h : (g.newBytes data).run s = .ok r' u) : r'.ptr ≠ 0 := by
  obtain ⟨r, t, hnew, hwrite⟩ := run_newBytes_eq_ok.mp h
  obtain ⟨-, -, m, -, hload⟩ := run_newRegion_eq_ok.mp hnew
  rw [ptr_of_write hwrite]
  exact (load_eq_ok.mp hload).1

end Access

namespace Service

variable {g : Access World} {w u : World} {ptr p : UInt32} {data : Bytes}

/-- A pointer leads to bytes exactly if there is a region behind it that holds them. -/
theorem run_bytesAt_eq_ok : (bytesAt g ptr).run w = .ok data u ↔
    (∃ m r, g.memory w = .ok m ∧ r.ptr = ptr ∧ Holds m r data) ∧ w = u := by
  have hbytesAt : bytesAt g ptr = g.region ptr >>= g.read := rfl
  simp only [hbytesAt, run_bind_eq_ok_iff, Access.run_region_eq_ok]
  constructor
  · rintro ⟨r, _, ⟨⟨m, hm, hload⟩, rfl⟩, hread⟩
    obtain rfl := Region.ptr_of_load hload
    obtain ⟨⟨m', hm', hdata⟩, rfl⟩ := (Access.run_read_eq_ok (load_eq_ok.mp hload).1).mp hread
    rw [hm] at hm'
    cases hm'
    exact ⟨⟨m, r, hm, rfl, hload, hdata⟩, rfl⟩
  · rintro ⟨⟨m, r, hm, rfl, hholds⟩, rfl⟩
    exact ⟨r, w, ⟨⟨m, hm, hholds.load⟩, rfl⟩, (Access.run_of_holds hm hholds).2⟩

/-- An answer is where a new region holds it. -/
theorem run_answer_eq_ok : (answer g data).run w = .ok p u ↔
    ∃ r, (g.newBytes data).run w = .ok r u ∧ r.ptr = p := by
  have hanswer : answer g data = g.newBytes data >>= fun r => pure r.ptr := rfl
  simp only [hanswer, run_bind_eq_ok_iff, run_pure_eq_ok]
  constructor
  · rintro ⟨r, _, hnew, rfl, rfl⟩
    exact ⟨r, hnew, rfl⟩
  · rintro ⟨r, hnew, rfl⟩
    exact ⟨r, u, hnew, rfl, rfl⟩

/-- Whatever pointer the guest hands out, the answer is not zero. -/
theorem ne_zero_of_answer (h : (answer g data).run w = .ok p u) : p ≠ 0 := by
  obtain ⟨r, hnew, rfl⟩ := run_answer_eq_ok.mp h
  exact Access.ptr_ne_zero_of_newBytes hnew

/-- A region is filled by one write. -/
theorem run_fill_eq_ok : (fill g ptr data).run w = .ok () u ↔
    ∃ m r r', (g.memory w = .ok m ∧ Region.load m ptr = .ok r) ∧
      (g.write r data).run w = .ok r' u := by
  have hfill : fill g ptr data =
      g.region ptr >>= fun r => g.write r data >>= fun _ => pure () := rfl
  simp only [hfill, run_bind_eq_ok_iff, Access.run_region_eq_ok, run_pure_eq_ok]
  constructor
  · rintro ⟨r, _, ⟨⟨m, hm, hload⟩, rfl⟩, r', _, hwrite, -, rfl⟩
    exact ⟨m, r, r', ⟨hm, hload⟩, hwrite⟩
  · rintro ⟨m, r, r', ⟨hm, hload⟩, hwrite⟩
    exact ⟨r, w, ⟨⟨m, hm, hload⟩, rfl⟩, r', u, hwrite, trivial, rfl⟩

/-! ## Results -/

section
variable {results : List Value} {e : HostFault}

/-- The one result of a function is the word that it answers. -/
theorem run_one_eq_ok {x : ServiceM UInt32} :
    (one x).run w = .ok results u ↔ ∃ p, results = [.i32 p] ∧ x.run w = .ok p u := by
  have hone : one x = x >>= fun p => pure [.i32 p] := rfl
  simp only [hone, run_bind_eq_ok_iff, run_pure_eq_ok]
  constructor
  · rintro ⟨p, _, hx, rfl, rfl⟩
    exact ⟨p, rfl, hx⟩
  · rintro ⟨p, rfl, hx⟩
    exact ⟨p, u, hx, rfl, rfl⟩

theorem run_one_eq_error {x : ServiceM UInt32} :
    (one x).run w = .error e u ↔ x.run w = .error e u := by
  have hone : one x = x >>= fun p => pure [.i32 p] := rfl
  rw [hone, run_bind_eq_error]
  refine or_iff_left ?_
  rintro ⟨_, _, -, hpure⟩
  cases hpure

/-- A host function with no results succeeds exactly if what it does succeeds. -/
theorem run_nothing_eq_ok {x : ServiceM Unit} :
    (nothing x).run w = .ok results u ↔ results = [] ∧ x.run w = .ok () u := by
  have hnothing : nothing x = x >>= fun _ => pure [] := rfl
  simp only [hnothing, run_bind_eq_ok_iff, run_pure_eq_ok]
  constructor
  · rintro ⟨_, _, hx, rfl, rfl⟩
    exact ⟨rfl, hx⟩
  · rintro ⟨rfl, hx⟩
    exact ⟨(), u, hx, rfl, rfl⟩

theorem run_nothing_eq_error {x : ServiceM Unit} :
    (nothing x).run w = .error e u ↔ x.run w = .error e u := by
  have hnothing : nothing x = x >>= fun _ => pure [] := rfl
  rw [hnothing, run_bind_eq_error]
  refine or_iff_left ?_
  rintro ⟨_, _, -, hpure⟩
  cases hpure

end

end Service

end ContractHost
