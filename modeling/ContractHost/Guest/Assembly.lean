import ContractHost.Guest.Instr

/-!
Instructions as text: the name of an operator and its operands, with blanks between them.

Functions and global variables are named by a dollar sign and a word, or by their numbers. What is
read costs what the name of its operator says (`kind_instr?`).
-/

namespace ContractHost.Guest.Assembly

/-- The names that a text may use, in the order of the numbers that they stand for. -/
structure Names where
  functions : List String
  globals : List String

/-- The number that a name or a number in a text stands for. -/
def index? (names : List String) (word : String) : Option Nat :=
  match word.toList with
  | '$' :: name => names.idxOf? (String.ofList name)
  | _ => word.toNat?

/-- The offset of a load or a store, zero if it is left out. -/
def offset? : List String → Option Nat
  | [] => some 0
  | [word] => if word.startsWith "offset=" then (word.drop 7).toNat? else none
  | _ => none

/-- The instruction of an operator without operands. -/
def simple? : String → Option Instr
  | "drop" => some (.op .drop)
  | "select" => some (.op .select)
  | "nop" => some (.op .nop)
  | "unreachable" => some (.op .unreachable)
  | "memory.size" => some (.op .memorySize)
  | "memory.grow" => some (.op .memoryGrow)
  | "i32.add" => some (.op .i32Add)
  | "i32.sub" => some (.op .i32Sub)
  | "i32.mul" => some (.op .i32Mul)
  | "i32.div_s" => some (.op .i32DivS)
  | "i32.div_u" => some (.op .i32DivU)
  | "i32.rem_u" => some (.op .i32RemU)
  | "i32.eqz" => some (.op .i32Eqz)
  | "i64.mul" => some (.op .i64Mul)
  | "i64.shr_u" => some (.op .i64ShrU)
  | "i32.wrap_i64" => some (.op .i32WrapI64)
  | "i64.extend_i32_u" => some (.op .i64ExtendI32U)
  | "block" => some .block
  | "loop" => some .loop
  | "if" => some .ifThen
  | "else" => some .elseThen
  | "end" => some .close
  | "return" => some .ret
  | _ => none

/-- The instruction of an operator with one operand. -/
def unary? (names : Names) (operator operand : String) : Option Instr :=
  match operator with
  | "i32.const" => operand.toInt?.map fun n => .op (.i32Const (UInt32.ofInt n))
  | "i64.const" => operand.toInt?.map fun n => .op (.i64Const (UInt64.ofInt n))
  | "f32.const" => some (.op .f32Const)
  | "local.get" => operand.toNat?.map fun i => .op (.localGet i)
  | "local.set" => operand.toNat?.map fun i => .op (.localSet i)
  | "local.tee" => operand.toNat?.map fun i => .op (.localTee i)
  | "global.get" => (index? names.globals operand).map fun i => .op (.globalGet i)
  | "global.set" => (index? names.globals operand).map fun i => .op (.globalSet i)
  | "call" => (index? names.functions operand).map .call
  | "br" => operand.toNat?.map .br
  | "br_if" => operand.toNat?.map .brIf
  | _ => none

/-- The instruction of a load or a store. -/
def memoryAccess? (operator : String) (offset : Nat) : Option Instr :=
  match operator with
  | "i32.load" => some (.op (.i32Load offset))
  | "i32.store" => some (.op (.i32Store offset))
  | "i32.load8_u" => some (.op (.i32Load8U offset))
  | "i32.store8" => some (.op (.i32Store8 offset))
  | _ => none

/-! ## Prices of what is read

The price of an instruction and the price of its operator's name are told by two tables, which agree
on everything that can be read. -/

/-- An operator without operands is priced by its name as its instruction is. -/
theorem kind_simple {operator : String} {i : Instr} (h : simple? operator = some i) :
    Gas.Kind.ofName operator = i.kind := by
  unfold simple? at h
  split at h <;> simp at h <;> subst h <;> rfl

/-- A load or a store is priced by its name as its instruction is. -/
theorem kind_memoryAccess {operator : String} {offset : Nat} {i : Instr}
    (h : memoryAccess? operator offset = some i) : Gas.Kind.ofName operator = i.kind := by
  unfold memoryAccess? at h
  split at h <;> simp at h <;> subst h <;> rfl

/-- An operator with one operand is priced by its name as its instruction is. -/
theorem kind_unary {names : Names} {operator operand : String} {i : Instr}
    (h : unary? names operator operand = some i) : Gas.Kind.ofName operator = i.kind := by
  unfold unary? at h
  split at h
  case h_12 => simp at h
  case h_3 => simp at h; subst h; rfl
  all_goals
    obtain ⟨a, _, rfl⟩ := Option.map_eq_some_iff.1 h
    rfl

/-! ## Lines -/

/-- The instruction of a line. -/
def instr? (names : Names) (line : String) : Option Instr :=
  match Gas.words line with
  | [] => none
  | operator :: operands =>
    match (offset? operands).bind (memoryAccess? operator) with
    | some i => some i
    | none =>
      match operands with
      | [] => simple? operator
      | [operand] => unary? names operator operand
      | _ => none

/-- An instruction is priced as the name of its operator says. -/
theorem kind_instr? {names : Names} {line operator : String} {operands : List String} {i : Instr}
    (hw : Gas.words line = operator :: operands) (h : instr? names line = some i) :
    Gas.Kind.ofName operator = i.kind := by
  rw [instr?, hw] at h
  dsimp only at h
  split at h
  next j hj =>
    obtain ⟨offset, _, hm⟩ := Option.bind_eq_some_iff.1 hj
    obtain rfl := Option.some.inj h
    exact kind_memoryAccess hm
  next =>
    split at h
    · exact kind_simple h
    · exact kind_unary h
    · simp at h

/-- The instructions of the lines of a function. -/
def instrs? (names : Names) (lines : List String) : Option (List Instr) := lines.mapM (instr? names)

end ContractHost.Guest.Assembly
