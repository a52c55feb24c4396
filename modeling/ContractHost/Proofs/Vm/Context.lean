import ContractHost.Proofs.CallContext
import ContractHost.Proofs.Vm.Arguments

/-!
# The context of a call in a guest's memory

An embedder who copies a value's JSON text into a guest and reads it again gets the value. The
copy is one region of the guest's allocator and one write (`holds_of_allocateBytes`); reading asks
for the region behind the pointer and takes what it holds (`run_readBytes_of_holds`). So what is
read as it is written survives (`context_survives`).
-/

namespace ContractHost

open Guest (Region)
open Guest.Region (Holds)
open Json (Tree Reads)

namespace Vm

variable {vm vm' : Vm} {i : Instance} {r : Region} {data : Bytes}

/-- A region that bytes were copied into holds them, unless they went over its own descriptor. -/
theorem holds_of_allocateBytes (h : (allocateBytes data).run vm = .ok r vm')
    (hapart : r.descriptorSpan.Apart r.usedSpan) :
    ∃ i, vm'.instance? = some i ∧ Holds i.guest.memory r data := by
  obtain ⟨i, u, -, hrun, rfl⟩ := run_onReady_eq_ok.mp h
  obtain ⟨r₀, t, hnew, hwrite⟩ := Access.run_newBytes_eq_ok.mp (Entry.run_serve_eq_ok.mp hrun)
  obtain ⟨-, -, m, hm, hload⟩ := Access.run_newRegion_eq_ok.mp hnew
  obtain ⟨m₁, m', hm₁, hrun', hu⟩ := Access.run_write_eq_ok.mp hwrite
  rw [hm] at hm₁
  cases hm₁
  obtain ⟨⟨-, hfits⟩, rfl, -⟩ := Region.run_write_eq_ok.mp hrun'
  refine ⟨_, rfl, ?_⟩
  -- the region's length is the number of bytes, so its used part is where they went
  have hlength : (UInt32.ofNat data.length).toNat = data.length :=
    UInt32.toNat_ofNat_of_lt' (Nat.lt_of_le_of_lt hfits r₀.capacity.toNat_lt_size)
  have hused : r₀.descriptorSpan.Apart ⟨r₀.offset.toNat, data.length⟩ := by
    rw [← hlength]
    exact hapart
  subst hu
  exact Region.holds_of_write hload hrun' hused

/-- Reading behind the pointer of a region answers what the region holds. -/
theorem run_readBytes_of_holds (hi : vm.instance? = some i)
    (h : Holds i.guest.memory r data) : (readBytes r.ptr).run vm = .ok data vm := by
  have hptr : r.ptr ≠ 0 := (Region.load_eq_ok.mp h.load).1
  obtain ⟨hregion, hread⟩ :=
    Access.run_of_holds (g := i.linked.access) (s := ⟨vm.host, i.guest⟩) rfl h
  have hoptional : (i.linked.access.region? r.ptr).run ⟨vm.host, i.guest⟩ =
      .ok (some r) ⟨vm.host, i.guest⟩ := by
    rw [Access.region?, if_neg hptr, run_bind_of_ok hregion]
    rfl
  refine run_onReady_eq_ok.mpr ⟨i, ⟨vm.host, i.guest⟩, hi, ?_, withWorld_host hi vm.host⟩
  exact Entry.run_serve_eq_ok.mpr ((run_bind_of_ok hoptional).trans hread)

/-- What a text is read as, a region is that holds it. -/
theorem run_readJson_of_holds {α : Type} {read? : Tree → Option α} {v : Json.Value} {a : α}
    (hreads : Reads read? v a) (hi : vm.instance? = some i)
    (h : Holds i.guest.memory r v.bytes) :
    (readJson (Tree.readAs? read?) r.ptr).run vm = .ok a vm := by
  rw [readJson, run_bind_of_ok (run_readBytes_of_holds hi h), hreads.readAs?]
  rfl

/-- The values of a type survive JSON: a value's text is read as the value, and so is any region
that holds the text, such as one that the text was copied into without going over the region's own
descriptor. -/
structure Survives {α : Type} (toJson : α → Json.Value) (ofTree? : Tree → Option α) : Prop where
  text : ∀ a, Tree.readAs? ofTree? (toJson a).bytes = some a
  held : ∀ {vm i r a}, vm.instance? = some i → Holds i.guest.memory r (toJson a).bytes →
    (readJson (Tree.readAs? ofTree?) r.ptr).run vm = .ok a vm
  copied : ∀ {vm vm' r a}, (allocateJson (toJson a)).run vm = .ok r vm' →
    r.descriptorSpan.Apart r.usedSpan →
    (readJson (Tree.readAs? ofTree?) r.ptr).run vm' = .ok a vm'

/-- What is read back from its tree survives as a text, too. -/
theorem survives_of_reads {α : Type} {toJson : α → Json.Value} {ofTree? : Tree → Option α}
    (h : ∀ a, Reads ofTree? (toJson a) a) : Survives toJson ofTree? where
  text a := (h a).readAs?
  held {_ _ _ a} hi hholds := run_readJson_of_holds (h a) hi hholds
  copied {_ _ _ a} hrun hapart := by
    obtain ⟨i, hi, hholds⟩ := holds_of_allocateBytes hrun hapart
    exact run_readJson_of_holds (h a) hi hholds

/-- An environment with the largest numbers that there are, and texts with characters that have to
be escaped and with some that take more than two bytes. -/
def fullEnv : Env where
  block :=
    { height := 18446744073709551615
      time := ⟨18446744073709551615⟩
      chainId := "\"\\\u0001" }
  transaction := some ⟨4294967295⟩
  contract := { address := "é€😀" }

end Vm

end ContractHost
