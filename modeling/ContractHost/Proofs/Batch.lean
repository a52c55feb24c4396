import ContractHost.Host.Checks

/-!
# A batch is good if each of its members is

`Lists.Aligns` says which lengths make a batch, and `Lists.EachGood` what its members are: a lone
message or a lone key serves every signature. Aligning repeats the lone one (`align_of_aligns`), so
the zips of `Lists.allGood` run over lists of one length and leave no member out
(`allGood_iff`). `run_batchVerify` puts the unpacking of the three lists in front.
-/

namespace ContractHost.Batch

/-! ## The members of a batch -/

namespace Lists

/-- The lists have one length, but for a lone message or a lone key. -/
def Aligns (b : Lists) : Prop :=
  (b.messages.length = b.signatures.length ∧ b.signatures.length = b.keys.length) ∨
    (b.messages.length = 1 ∧ b.signatures.length = b.keys.length) ∨
    (b.keys.length = 1 ∧ b.messages.length = b.signatures.length)

instance (b : Lists) : Decidable b.Aligns := inferInstanceAs (Decidable (_ ∨ _ ∨ _))

/-- The place of the message that a signature is for. -/
def messageAt (b : Lists) (i : Nat) : Nat :=
  if b.messages.length = b.signatures.length then i else 0

/-- The place of the key that a signature is made with. -/
def keyAt (b : Lists) (i : Nat) : Nat :=
  if b.keys.length = b.signatures.length then i else 0

/-- Every signature has a message and a key that it is good for. -/
def EachGood (b : Lists) : Prop :=
  ∀ i < b.signatures.length, ∃ message signature key,
    b.messages[b.messageAt i]? = some message ∧ b.signatures[i]? = some signature ∧
    b.keys[b.keyAt i]? = some key ∧ Ed25519.verify message signature key = true

/-- Lists of one length are zipped without a loss. -/
theorem allGood_iff {b : Lists} (hm : b.messages.length = b.signatures.length)
    (hk : b.keys.length = b.signatures.length) : b.allGood = true ↔ b.EachGood := by
  have hmessage : ∀ i, b.messageAt i = i := fun i => if_pos hm
  have hkey : ∀ i, b.keyAt i = i := fun i => if_pos hk
  simp only [allGood, EachGood, hmessage, hkey, List.all_eq_true]
  constructor
  · intro hall i hi
    refine ⟨b.messages[i], b.signatures[i], b.keys[i], ?_, ?_, ?_, ?_⟩
    · exact List.getElem?_eq_getElem (by omega)
    · exact List.getElem?_eq_getElem hi
    · exact List.getElem?_eq_getElem (by omega)
    · apply hall ((b.messages[i], b.signatures[i]), b.keys[i])
      rw [List.mem_iff_getElem?]
      refine ⟨i, ?_⟩
      simp only [List.getElem?_zip_eq_some]
      exact ⟨⟨List.getElem?_eq_getElem (by omega), List.getElem?_eq_getElem hi⟩,
        List.getElem?_eq_getElem (by omega)⟩
  · rintro heach ⟨⟨message, signature⟩, key⟩ hmem
    obtain ⟨i, hi⟩ := List.mem_iff_getElem?.mp hmem
    simp only [List.getElem?_zip_eq_some] at hi
    obtain ⟨⟨him, his⟩, hik⟩ := hi
    -- a triple of the zips stands at a place of the signatures
    obtain ⟨hlt, -⟩ := List.getElem?_eq_some_iff.mp his
    obtain ⟨message', signature', key', hm', hs', hk', hgood⟩ := heach i hlt
    rw [him, Option.some.injEq] at hm'
    rw [his, Option.some.injEq] at hs'
    rw [hik, Option.some.injEq] at hk'
    subst hm' hs' hk'
    exact hgood

end Lists

/-! ## Aligning -/

/-- A list of one is read at its head. -/
theorem replicate_headD_getElem? {l : List Bytes} (hl : l.length = 1) {i n : Nat} (hi : i < n) :
    (List.replicate n (l.headD []))[i]? = l[0]? := by
  obtain ⟨x, rfl⟩ := List.length_eq_one_iff.mp hl
  rw [List.getElem?_replicate_of_lt hi]
  rfl

/-- Lists that make a batch are aligned, and then have the members that they had before. -/
theorem align_of_aligns {b : Lists} (hb : b.Aligns) :
    ∃ a, align b = .ok a ∧ a.messages.length = a.signatures.length ∧
      a.keys.length = a.signatures.length ∧ (a.EachGood ↔ b.EachGood) := by
  unfold align
  simp only
  split
  · rename_i h
    exact ⟨b, rfl, h.1, by omega, Iff.rfl⟩
  split
  · rename_i hnot h
    -- three lists of one length were dealt with above
    have hne : b.messages.length ≠ b.signatures.length := by omega
    refine ⟨_, rfl, List.length_replicate, h.2.symm, forall₂_congr fun i hi => ?_⟩
    simp only [Lists.messageAt, Lists.keyAt, List.length_replicate, if_neg hne,
      replicate_headD_getElem? h.1 hi, if_true]
  split
  · rename_i hnot _ h
    have hne : b.keys.length ≠ b.signatures.length := by omega
    refine ⟨_, rfl, h.2, by simp [h.2], forall₂_congr fun i hi => ?_⟩
    have hi' : i < b.messages.length := by rw [h.2]; exact hi
    simp only [Lists.messageAt, Lists.keyAt, List.length_replicate, if_neg hne,
      replicate_headD_getElem? h.1 hi', if_pos h.2]
  · rename_i h₁ h₂ h₃
    unfold Lists.Aligns at hb
    omega

/-- Lists that make no batch are refused with their lengths. -/
theorem align_of_not_aligns {b : Lists} (hb : ¬ b.Aligns) :
    align b = .error ⟨b.messages.length, b.signatures.length, b.keys.length⟩ := by
  unfold Lists.Aligns at hb
  unfold align
  simp only
  rw [if_neg (by omega), if_neg (by omega), if_neg (by omega)]

/-! ## Unpacking -/

section
variable {messages signatures keys : Bytes} {e : Sections.Malformed} {ms ss ks : List Bytes}

theorem verify_of_messages_malformed (hm : Sections.decode messages = .error e) :
    verify messages signatures keys = .error (.sections e) := by
  rw [verify, unpack, hm]
  rfl

theorem verify_of_signatures_malformed (hm : Sections.decode messages = .ok ms)
    (hs : Sections.decode signatures = .error e) :
    verify messages signatures keys = .error (.sections e) := by
  rw [verify, unpack, hm, unpack, hs]
  rfl

theorem verify_of_keys_malformed (hm : Sections.decode messages = .ok ms)
    (hs : Sections.decode signatures = .ok ss) (hk : Sections.decode keys = .error e) :
    verify messages signatures keys = .error (.sections e) := by
  rw [verify, unpack, hm, unpack, hs, unpack, hk]
  rfl

/-- Once the three lists are unpacked, only their lengths can be refused. -/
theorem verify_of_decode (hm : Sections.decode messages = .ok ms)
    (hs : Sections.decode signatures = .ok ss) (hk : Sections.decode keys = .ok ks) :
    verify messages signatures keys =
      ((align ⟨ms, ss, ks⟩).mapError .mismatch).map Lists.allGood := by
  rw [verify, unpack, hm, unpack, hs, unpack, hk]
  rfl

end

end ContractHost.Batch

namespace ContractHost.Signatures

variable (h : Host)

theorem run_ofBatch_ok {α : Type} (a : α) : (ofBatch (.ok a)).run h = .ok a h := rfl

theorem run_ofBatch_sections {α : Type} (e : Sections.Malformed) :
    (ofBatch (.error (.sections e)) : HostM α).run h = .error (.validation (.sections e)) h := rfl

/-- A mismatch is entered into the journal before it is a fault. -/
theorem run_ofBatch_mismatch {α : Type} (e : Batch.Mismatch) :
    (ofBatch (.error (.mismatch e)) : HostM α).run h =
      .error (.validation (.batch e)) (h.noting (.batchRefused e)) := rfl

section
variable {messages signatures keys : Bytes} {b : Batch.Lists}
  (hm : Sections.decode messages = .ok b.messages)
  (hs : Sections.decode signatures = .ok b.signatures)
  (hk : Sections.decode keys = .ok b.keys)
include hm hs hk

/-- Lists that make a batch are checked to the end, and the host is as it was. -/
theorem run_batchVerify_of_aligns (hb : b.Aligns) :
    ∃ v, (batchVerify messages signatures keys).run h = .ok v h ∧ (v = true ↔ b.EachGood) := by
  obtain ⟨a, halign, hmessages, hkeys, hgood⟩ := Batch.align_of_aligns hb
  refine ⟨a.allGood, ?_, (Batch.Lists.allGood_iff hmessages hkeys).trans hgood⟩
  rw [batchVerify, Batch.verify_of_decode hm hs hk, halign]
  exact run_ofBatch_ok h a.allGood

/-- Lists that make no batch are refused, and the journal tells it. -/
theorem run_batchVerify_of_not_aligns (hb : ¬ b.Aligns) :
    (batchVerify messages signatures keys).run h =
      .error (.validation (.batch ⟨b.messages.length, b.signatures.length, b.keys.length⟩))
        (h.noting (.batchRefused ⟨b.messages.length, b.signatures.length, b.keys.length⟩)) := by
  rw [batchVerify, Batch.verify_of_decode hm hs hk, Batch.align_of_not_aligns hb]
  exact run_ofBatch_mismatch h _

end

/-- A list that is malformed is complained about, the messages first and the keys last. Three lists
that are read are refused exactly if they make no batch, and otherwise they are checked to the end:
the answer is whether every signature is good for its own message and its own key. -/
theorem run_batchVerify (messages signatures keys : Bytes) :
    match Sections.decode messages, Sections.decode signatures, Sections.decode keys with
    | .error e, _, _ | .ok _, .error e, _ | .ok _, .ok _, .error e =>
      (batchVerify messages signatures keys).run h = .error (.validation (.sections e)) h
    | .ok ms, .ok ss, .ok ks =>
      let b : Batch.Lists := ⟨ms, ss, ks⟩
      (¬ b.Aligns ↔ (batchVerify messages signatures keys).run h =
        .error (.validation (.batch ⟨ms.length, ss.length, ks.length⟩))
          (h.noting (.batchRefused ⟨ms.length, ss.length, ks.length⟩))) ∧
      (b.Aligns → ∃ v, (batchVerify messages signatures keys).run h = .ok v h ∧
        (v = true ↔ b.EachGood)) := by
  split
  · rename_i hm
    rw [batchVerify, Batch.verify_of_messages_malformed hm, run_ofBatch_sections]
  · rename_i hm hs
    rw [batchVerify, Batch.verify_of_signatures_malformed hm hs, run_ofBatch_sections]
  · rename_i hm hs hk
    rw [batchVerify, Batch.verify_of_keys_malformed hm hs hk, run_ofBatch_sections]
  · rename_i ms ss ks hm hs hk
    intro b
    -- lists that make a batch are answered, so a refusal tells that they make none
    refine ⟨⟨run_batchVerify_of_not_aligns h (b := b) hm hs hk, fun hrefused hb => ?_⟩,
      run_batchVerify_of_aligns h (b := b) hm hs hk⟩
    obtain ⟨v, hchecked, -⟩ := run_batchVerify_of_aligns h (b := b) hm hs hk hb
    rw [hchecked] at hrefused
    cases hrefused

/-- A lone message serves two signatures that are too short to be good. -/
theorem run_batchVerify_lone_message :
    (⟨[[1]], [[2], []], [[3], [4]]⟩ : Batch.Lists).Aligns ∧
      ∃ v, (batchVerify [1, 0, 0, 0, 1] [2, 0, 0, 0, 1, 0, 0, 0, 0]
          [3, 0, 0, 0, 1, 4, 0, 0, 0, 1]).run {} = .ok v {} ∧
        (v = true ↔ (⟨[[1]], [[2], []], [[3], [4]]⟩ : Batch.Lists).EachGood) :=
  ⟨by decide, (run_batchVerify {} [1, 0, 0, 0, 1] [2, 0, 0, 0, 1, 0, 0, 0, 0]
    [3, 0, 0, 0, 1, 4, 0, 0, 0, 1]).2 (by decide)⟩

end ContractHost.Signatures
