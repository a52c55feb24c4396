import ContractHost.CallContext
import ContractHost.Proofs.Json.Tree

/-!
# The context of a call is read as it is written

Each type of the context has a JSON form and a reader of trees. The text of the form spells a tree
that the reader takes for the value (`Json.Reads`). For a record it is enough that this holds of its
fields, as the reader finds every field under its own key (`Json.exists_record`). The one field that
may be missing is the transaction, which is left out exactly if there is none.
-/

namespace ContractHost

namespace Json

/-- The text of a JSON value is read as `a`. -/
def Reads {α : Type} (read? : Tree → Option α) (v : Value) (a : α) : Prop :=
  ∃ t, Spells v.bytes t ∧ read? t = some a

section
variable {α : Type} {read? : Tree → Option α} {v : Value} {a : α}

/-- What is read back from the tree of a value is read back from its text. -/
theorem Reads.readAs? (h : Reads read? v a) : Tree.readAs? read? v.bytes = some a := by
  obtain ⟨t, hspells, hread⟩ := h
  rw [Tree.readAs?, read?_of_spells hspells]
  exact hread

/-- A text is read back whatever characters are in it. -/
theorem reads_string (s : String) : Reads Tree.text? (.string s) s :=
  ⟨_, spells_string s, text?_textPieces s⟩

/-- A number below a bound is read back by a reader with that bound. -/
theorem reads_natural {n bound : Nat} (h : n < bound) : Reads (Tree.natural? bound) (.int n) n := by
  refine ⟨_, spells_natural n, ?_⟩
  simp [Tree.natural?, Numeral.isWhole, naturalNumeral, magnitude_digitBytes, h]

/-- A list is read back if its items are. -/
theorem reads_list {f : α → Value} {as : List α} (h : ∀ a ∈ as, Reads read? (f a) a) :
    Reads (Tree.list? read?) (.array (as.map f)) as := by
  have htrees : ∃ trees, List.Forall₂ (fun v t => Spells v.bytes t) (as.map f) trees ∧
      trees.mapM read? = some as := by
    induction as with
    | nil => exact ⟨[], .nil, rfl⟩
    | cons a as ih =>
      obtain ⟨ha, has⟩ := List.forall_mem_cons.mp h
      obtain ⟨t, hspells, hread⟩ := ha
      obtain ⟨trees, hall, hreads⟩ := ih has
      exact ⟨t :: trees, .cons hspells hall, by simp [hread, hreads]⟩
  obtain ⟨trees, hall, hreads⟩ := htrees
  exact ⟨_, spells_array hall, hreads⟩

end

/-! ## Records -/

/-- The members of an object have the names that they were written under. -/
theorem named?_textPieces (members : List (String × Tree)) :
    Tree.named? (members.map fun m => (textPieces m.1, m.2)) = some members := by
  induction members with
  | nil => rfl
  | cons m members ih =>
    rw [Tree.named?] at ih ⊢
    simp [text?_textPieces, ih]

/-- Under keys that are all different there is one member at most. -/
theorem only?_of_nodup {members : List (String × Tree)} (h : (members.map Prod.fst).Nodup)
    (key : String) : Tree.only? members key = some (members.lookup key) := by
  induction members with
  | nil => rfl
  | cons m members ih =>
    obtain ⟨k, t⟩ := m
    obtain ⟨hk, hkeys⟩ := List.nodup_cons.mp h
    by_cases hkey : k = key
    · subst hkey
      -- none of the others stands under the key, or it would be there twice
      have hothers : members.filter (fun m => m.1 == k) = [] := by
        rw [List.filter_eq_nil_iff]
        intro m hm hmk
        rw [beq_iff_eq] at hmk
        exact hk (List.mem_map.mpr ⟨m, hm, hmk⟩)
      simp [Tree.only?, hothers, List.lookup_cons_self]
    · have hne : (k == key) = false := beq_eq_false_iff_ne.mpr hkey
      have hne' : (key == k) = false := beq_eq_false_iff_ne.mpr (Ne.symm hkey)
      have hih := ih hkeys
      unfold Tree.only? at hih ⊢
      rw [List.filter_cons_of_neg (by simp [hne]), List.lookup_cons, hne']
      exact hih

/-- The texts of members spell trees, which stand under the same keys. -/
def Members (members : List (String × Value)) (trees : List (String × Tree)) : Prop :=
  List.Forall₂ (fun m t => t.1 = m.1 ∧ Spells m.2.bytes t.2) members trees

theorem members_nil : Members [] [] := .nil

/-- A member that is spelled goes in front of members that are. -/
theorem members_cons (key : String) {item : Value} {tree : Tree} (h : Spells item.bytes tree)
    {members : List (String × Value)} {trees : List (String × Tree)} (hs : Members members trees) :
    Members ((key, item) :: members) ((key, tree) :: trees) := .cons ⟨rfl, h⟩ hs

/-- The text of a record spells a tree in which every field is found under its name. -/
theorem exists_record {members : List (String × Value)} {trees : List (String × Tree)}
    (h : Members members trees) (hkeys : (trees.map Prod.fst).Nodup) :
    ∃ t, Spells (Value.object members).bytes t ∧
      ∀ names, t.fields? names = some (names.map fun name => trees.lookup name) := by
  have hspells : List.Forall₂ (fun m t => t.1 = textPieces m.1 ∧ Spells m.2.bytes t.2) members
      (trees.map fun t => (textPieces t.1, t.2)) := by
    rw [List.forall₂_map_right_iff]
    refine h.imp fun m t hmember => ?_
    rw [hmember.1]
    exact ⟨rfl, hmember.2⟩
  refine ⟨_, spells_object hspells, fun names => ?_⟩
  have hfields : names.mapM (Tree.only? trees) =
      some (names.map fun name => trees.lookup name) := by
    induction names with
    | nil => rfl
    | cons name names ih => simp [only?_of_nodup hkeys, ih]
  rw [Tree.fields?, named?_textPieces]
  exact hfields

end Json

open Json (Reads exists_record members_nil members_cons reads_string reads_natural reads_list)

/-! ## The types of the context -/

/-- A time is written as a text, since it need not fit a number of JSON, and read back. -/
theorem reads_timestamp (t : Timestamp) : Reads Timestamp.ofTree? t.toJson t := by
  obtain ⟨tree, hspells, htext⟩ := reads_string (String.ofList (Decimal.digits t.nanos.toNat))
  have hdigits := Decimal.read?_digits t.nanos.toNat_lt_size
  refine ⟨tree, hspells, ?_⟩
  simp [Timestamp.ofTree?, htext, hdigits]

/-- An amount is written as a text, too. -/
theorem reads_coin (c : Coin) : Reads Coin.ofTree? c.toJson c := by
  obtain ⟨denom, hdenom, hdenom'⟩ := reads_string c.denom
  obtain ⟨amount, hamount, hamount'⟩ := reads_string c.amount
  have hmembers := members_cons "denom" hdenom (members_cons "amount" hamount members_nil)
  obtain ⟨t, hspells, hfields⟩ := exists_record hmembers (by simp)
  refine ⟨t, hspells, ?_⟩
  simp [Coin.ofTree?, hfields, hdenom', hamount', List.lookup_cons]

theorem reads_block (b : BlockInfo) : Reads BlockInfo.ofTree? b.toJson b := by
  obtain ⟨height, hheight, hheight'⟩ := reads_natural b.height.toNat_lt_size
  obtain ⟨time, htime, htime'⟩ := reads_timestamp b.time
  obtain ⟨chainId, hchain, hchain'⟩ := reads_string b.chainId
  have hmembers := members_cons "height" hheight
    (members_cons "time" htime (members_cons "chain_id" hchain members_nil))
  obtain ⟨t, hspells, hfields⟩ := exists_record hmembers (by simp)
  refine ⟨t, hspells, ?_⟩
  simp [BlockInfo.ofTree?, hfields, hheight', htime', hchain', List.lookup_cons]

/-- The index of a transaction is a number of 32 bits. -/
theorem reads_transaction (i : TransactionInfo) : Reads TransactionInfo.ofTree? i.toJson i := by
  obtain ⟨index, hindex, hindex'⟩ := reads_natural i.index.toNat_lt_size
  obtain ⟨t, hspells, hfields⟩ :=
    exists_record (members_cons "index" hindex members_nil) (by simp)
  refine ⟨t, hspells, ?_⟩
  simp [TransactionInfo.ofTree?, hfields, hindex']

theorem reads_contract (c : ContractInfo) : Reads ContractInfo.ofTree? c.toJson c := by
  obtain ⟨address, haddress, haddress'⟩ := reads_string c.address
  obtain ⟨t, hspells, hfields⟩ :=
    exists_record (members_cons "address" haddress members_nil) (by simp)
  refine ⟨t, hspells, ?_⟩
  simp [ContractInfo.ofTree?, hfields, haddress']

/-- A transaction that is there is not null. -/
theorem transaction?_of_some {tree : Json.Tree} {i : TransactionInfo}
    (h : TransactionInfo.ofTree? tree = some i) : Env.transaction? (some tree) = some (some i) := by
  cases tree with
  | null => cases h
  | _ => exact congrArg (Option.map some) h

/-- What is told of a transaction may be missing, and is missing then in what is read back. -/
theorem reads_env (e : Env) : Reads Env.ofTree? e.toJson e := by
  obtain ⟨info, transaction, contract⟩ := e
  obtain ⟨block, hblock, hblock'⟩ := reads_block info
  obtain ⟨own, hown, hown'⟩ := reads_contract contract
  cases transaction with
  | none =>
    -- the member is left out, and nothing is found under its key
    have hmembers := members_cons "block" hblock (members_cons "contract" hown members_nil)
    obtain ⟨t, hspells, hfields⟩ := exists_record hmembers (by simp)
    refine ⟨t, hspells, ?_⟩
    simp [Env.ofTree?, hfields, hblock', hown', Env.transaction?, List.lookup_cons]
  | some i =>
    obtain ⟨tree, htree, htree'⟩ := reads_transaction i
    have hmembers := members_cons "block" hblock
      (members_cons "transaction" htree (members_cons "contract" hown members_nil))
    obtain ⟨t, hspells, hfields⟩ := exists_record hmembers (by simp)
    refine ⟨t, hspells, ?_⟩
    simp [Env.ofTree?, hfields, hblock', hown', transaction?_of_some htree', List.lookup_cons]

/-- The sender and all the funds that were sent are read back. -/
theorem reads_message (m : MessageInfo) : Reads MessageInfo.ofTree? m.toJson m := by
  obtain ⟨sender, hsender, hsender'⟩ := reads_string m.sender
  have hcoins : ∀ c ∈ m.funds, Reads Coin.ofTree? c.toJson c := fun c _ => reads_coin c
  obtain ⟨funds, hfunds, hfunds'⟩ := reads_list hcoins
  have hmembers := members_cons "sender" hsender (members_cons "funds" hfunds members_nil)
  obtain ⟨t, hspells, hfields⟩ := exists_record hmembers (by simp)
  refine ⟨t, hspells, ?_⟩
  simp [MessageInfo.ofTree?, hfields, hsender', hfunds', List.lookup_cons]

end ContractHost
