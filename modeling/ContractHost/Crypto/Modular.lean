/-!
Arithmetic modulo a number, and multiples of a point by doubling and adding.
-/

namespace ContractHost.Modular

/-- The bits of a number below `2 ^ width`, the most significant one first. -/
def bits (width n : Nat) : List Bool := (List.range width).reverse.map n.testBit

/-- A difference modulo `m`, of numbers below `m`. -/
def sub (m a b : Nat) : Nat := (a + (m - b)) % m

/-- A power modulo `m`, of an exponent below `2 ^ 256`. -/
def pow (m a e : Nat) : Nat :=
  (bits 256 e).foldl (fun acc bit => if bit then acc * acc % m * a % m else acc * acc % m) 1

/-- The inverse modulo a prime below `2 ^ 256`; of zero it is zero. -/
def inverse (m a : Nat) : Nat := pow m a (m - 2)

/-- The sum of `n` times the same point, of `n` below `2 ^ 256`. -/
def multiple {α : Type} (zero : α) (add : α → α → α) (n : Nat) (a : α) : α :=
  (bits 256 n).foldl
    (fun acc bit => if bit then add (add acc acc) a else add acc acc) zero

end ContractHost.Modular
