import ContractHost.Bytes

/-!
The grammar of JSON.

`Tree.read?` accepts exactly the byte strings that are one JSON value between blanks, and keeps the
value's numbers and strings as they are written: whether a string is a text and whether a number
fits is for whoever reads the tree. So a value that nobody looks at may hold escapes that name lone
surrogates, bytes that are not UTF-8, and numbers of any size.
-/

namespace ContractHost.Json

/-- One unit of a string: a byte that stands for itself, or the code unit that an escape names. -/
inductive Piece where
  | raw (b : UInt8)
  | unit (u : Nat)
  deriving DecidableEq, Repr

/-- The exponent of a number as it is written. -/
structure Exponent where
  /-- Is there a minus sign? -/
  negative : Bool
  digits : Bytes
  deriving DecidableEq, Repr

/-- A number as it is written. -/
structure Numeral where
  /-- Is there a minus sign? -/
  negative : Bool
  /-- The digits before point and exponent. -/
  whole : Bytes
  /-- The digits behind the point, none if there is no point. -/
  fraction : Bytes
  exponent : Option Exponent
  deriving DecidableEq, Repr

/-- A JSON value with its numbers and strings unread, members in the order of the text. -/
inductive Tree where
  | null
  | bool (b : Bool)
  | number (n : Numeral)
  | string (ps : List Piece)
  | array (items : List Tree)
  | object (members : List (List Piece × Tree))

/-- Space, tab, line feed and carriage return. -/
def isBlank (b : UInt8) : Bool := b == 0x20 || b == 0x09 || b == 0x0A || b == 0x0D

/-- The rest of a text from its first byte that is no blank. -/
def skipBlanks (bs : Bytes) : Bytes := bs.dropWhile isBlank

/-- A decimal digit. -/
def isDigit (b : UInt8) : Bool := 0x30 ≤ b && b ≤ 0x39

/-! ## Strings -/

/-- The value of a hexadecimal digit of either case. -/
def hexDigit? (b : UInt8) : Option Nat :=
  if 0x30 ≤ b ∧ b ≤ 0x39 then some (b.toNat - 0x30)
  else if 0x41 ≤ b ∧ b ≤ 0x46 then some (b.toNat - 0x41 + 10)
  else if 0x61 ≤ b ∧ b ≤ 0x66 then some (b.toNat - 0x61 + 10)
  else none

/-- The code unit of four hexadecimal digits. -/
def hexUnit? (a b c d : UInt8) : Option Nat := do
  return ((← hexDigit? a) * 16 + (← hexDigit? b)) * 256 + ((← hexDigit? c) * 16 + (← hexDigit? d))

/-- The code unit of an escape of one letter: quote, backslash, slash and `b f n r t`. -/
def escape? (e : UInt8) : Option Nat :=
  if e = 0x22 ∨ e = 0x5C ∨ e = 0x2F then some e.toNat
  else if e = 0x62 then some 0x08
  else if e = 0x66 then some 0x0C
  else if e = 0x6E then some 0x0A
  else if e = 0x72 then some 0x0D
  else if e = 0x74 then some 0x09
  else none

/-- Reads a string from behind its opening quote to its closing one; `ps` holds the pieces read so
far, the last one first. Control characters have to be escaped. -/
def pieces? : Bytes → (ps : List Piece) → Option (List Piece × Bytes)
  | [], _ => none
  | b :: rest, ps =>
    if b = 0x22 then some (ps.reverse, rest)
    else if b = 0x5C then
      match rest with
      | [] => none
      | e :: rest =>
        if e = 0x75 then
          match rest with
          | h₁ :: h₂ :: h₃ :: h₄ :: rest =>
            match hexUnit? h₁ h₂ h₃ h₄ with
            | none => none
            | some u => pieces? rest (.unit u :: ps)
          | _ => none
        else
          match escape? e with
          | none => none
          | some u => pieces? rest (.unit u :: ps)
    else if b < 0x20 then none
    else pieces? rest (.raw b :: ps)

/-! ## Numbers -/

/-- At least one digit, and the rest. -/
def digits? (bs : Bytes) : Option (Bytes × Bytes) :=
  let ds := bs.takeWhile isDigit
  if ds.isEmpty then none else some (ds, bs.dropWhile isDigit)

/-- The digits of the fraction, if there is one: at least one behind a point. -/
def fraction? : Bytes → Option (Bytes × Bytes)
  | 0x2E :: rest => digits? rest
  | bs => some ([], bs)

/-- The exponent, if there is one: its letter, a sign or none, and at least one digit. -/
def exponent? : Bytes → Option (Option Exponent × Bytes)
  | [] => some (none, [])
  | e :: rest =>
    if e = 0x65 ∨ e = 0x45 then
      let (negative, rest) := match rest with
        | 0x2B :: rest => (false, rest)
        | 0x2D :: rest => (true, rest)
        | _ => (false, rest)
      (digits? rest).map fun (ds, rest) => (some ⟨negative, ds⟩, rest)
    else some (none, e :: rest)

/-- Reads a number. Only zero itself starts with the digit zero. -/
def numeral? (bs : Bytes) : Option (Numeral × Bytes) := do
  let (negative, bs) := match bs with
    | 0x2D :: rest => (true, rest)
    | _ => (false, bs)
  let (whole, rest) ← digits? bs
  if whole.head? = some 0x30 ∧ whole.length ≠ 1 then none
  else
    let (fraction, rest) ← fraction? rest
    let (exponent, rest) ← exponent? rest
    return (⟨negative, whole, fraction, exponent⟩, rest)

/-! ## Values -/

/-- The rest of a text behind a given word. -/
def behind? (word : Bytes) (bs : Bytes) : Option Bytes :=
  if word.isPrefixOf bs then some (bs.drop word.length) else none

mutual

/-- Reads a value, blanks in front of it included. `fuel` bounds the number of values and members
read along one path. -/
def value? : (fuel : Nat) → Bytes → Option (Tree × Bytes)
  | 0, _ => none
  | fuel + 1, bs =>
    match skipBlanks bs with
    | [] => none
    | b :: rest =>
      if b = 0x7B then
        match skipBlanks rest with
        | 0x7D :: rest => some (.object [], rest)
        | _ => members? fuel rest []
      else if b = 0x5B then
        match skipBlanks rest with
        | 0x5D :: rest => some (.array [], rest)
        | _ => items? fuel rest []
      else if b = 0x22 then (pieces? rest []).map fun (ps, rest) => (.string ps, rest)
      else if b = 0x6E then (behind? [0x75, 0x6C, 0x6C] rest).map fun rest => (.null, rest)
      else if b = 0x74 then (behind? [0x72, 0x75, 0x65] rest).map fun rest => (.bool true, rest)
      else if b = 0x66 then
        (behind? [0x61, 0x6C, 0x73, 0x65] rest).map fun rest => (.bool false, rest)
      else (numeral? (b :: rest)).map fun (n, rest) => (.number n, rest)

/-- Reads the items of an array up to its closing bracket. -/
def items? : (fuel : Nat) → Bytes → (items : List Tree) → Option (Tree × Bytes)
  | 0, _, _ => none
  | fuel + 1, bs, items =>
    match value? fuel bs with
    | none => none
    | some (item, rest) =>
      match skipBlanks rest with
      | 0x2C :: rest => items? fuel rest (item :: items)
      | 0x5D :: rest => some (.array (item :: items).reverse, rest)
      | _ => none

/-- Reads the members of an object up to its closing brace. -/
def members? : (fuel : Nat) → Bytes → (members : List (List Piece × Tree)) → Option (Tree × Bytes)
  | 0, _, _ => none
  | fuel + 1, bs, members =>
    match skipBlanks bs with
    | 0x22 :: rest =>
      match pieces? rest [] with
      | none => none
      | some (key, rest) =>
        match skipBlanks rest with
        | 0x3A :: rest =>
          match value? fuel rest with
          | none => none
          | some (item, rest) =>
            match skipBlanks rest with
            | 0x2C :: rest => members? fuel rest ((key, item) :: members)
            | 0x7D :: rest => some (.object ((key, item) :: members).reverse, rest)
            | _ => none
        | _ => none
    | _ => none

end

/-- Reads a whole text as one value. Every value and member takes a byte of its own, so the length
bounds them. -/
def Tree.read? (bs : Bytes) : Option Tree := do
  let (tree, rest) ← value? (bs.length + 1) bs
  if (skipBlanks rest).isEmpty then some tree else none

end ContractHost.Json
