import ContractHost.Guest.Instr

/-!
Code: instructions with their blocks as a tree.

Each form but the last of a run carries what follows it. Code behind an instruction that never comes
back is left out.
-/

namespace ContractHost.Guest

/-- A run of instructions. -/
inductive Code where
  | done
  | op (o : Op) (rest : Code)
  | call (f : Nat) (rest : Code)
  | charge (cost : Nat) (rest : Code)
  | block (body rest : Code)
  | loop (body rest : Code)
  | choose (yes no rest : Code)
  | brIf (depth : Nat) (rest : Code)
  | br (depth : Nat)
  | ret
  deriving DecidableEq, Repr

namespace Code

/-- Code that is built from its end on: what was built last, and for every block whose opening is
still to come its second branch, if it has one, and what follows the block. -/
structure Builder where
  code : Code := .done
  pending : List (Option Code × Code) := []

/-- Puts an instruction in front. -/
def Builder.push? (b : Builder) : Instr → Option Builder
  | .op o => some { b with code := .op o b.code }
  | .call f => some { b with code := .call f b.code }
  | .charge cost => some { b with code := .charge cost b.code }
  | .brIf depth => some { b with code := .brIf depth b.code }
  | .br depth => some { b with code := .br depth }
  | .ret => some { b with code := .ret }
  | .close => some ⟨.done, (none, b.code) :: b.pending⟩
  | .elseThen =>
    match b.pending with
    | (none, rest) :: pending => some ⟨.done, (some b.code, rest) :: pending⟩
    | _ => none
  | .block =>
    match b.pending with
    | (none, rest) :: pending => some ⟨.block b.code rest, pending⟩
    | _ => none
  | .loop =>
    match b.pending with
    | (none, rest) :: pending => some ⟨.loop b.code rest, pending⟩
    | _ => none
  | .ifThen =>
    match b.pending with
    | (no, rest) :: pending => some ⟨.choose b.code (no.getD .done) rest, pending⟩
    | _ => none

/-- The code of instructions whose blocks are all opened and closed. -/
def ofInstrs? (is : List Instr) : Option Code := do
  let b ← is.foldrM (fun i b => Builder.push? b i) {}
  if b.pending.isEmpty then some b.code else none

/-- The code of a function's instructions with its charges. -/
def metered? (is : List Instr) : Option Code := ofInstrs? (meter 0 is)

end Code

end ContractHost.Guest
