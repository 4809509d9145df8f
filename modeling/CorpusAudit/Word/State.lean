/-!
# Mixing words

Ciphers and hashes work on a `State` of sixteen words, which is thought of as a square
of four rows.  The words are mixed four at a time, by columns and by diagonals, with
additions, exclusive disjunctions and turns of their bits.
-/

namespace CorpusAudit.Word

/-- Sixteen words of 32 bits. -/
abbrev State := Vector UInt32 16

/-- A word with its bits moved to the left, those that fall off coming back at the
right. -/
def rotateLeft (w n : UInt32) : UInt32 :=
  w <<< n ||| w >>> (32 - n)

/-- A word with its bits moved to the right, those that fall off coming back at the
left. -/
def rotateRight (w n : UInt32) : UInt32 :=
  w >>> n ||| w <<< (32 - n)

/-- The first words of a list, zeros following where there are too few. -/
def ofList (n : Nat) (ws : List UInt32) : Vector UInt32 n :=
  Vector.ofFn fun i => ws.getD i 0

/-- A place of a state. -/
def place (i : Nat) : Fin 16 :=
  Fin.ofNat 16 i

/-- Four places of a state. -/
structure Quad where
  a : Fin 16
  b : Fin 16
  c : Fin 16
  d : Fin 16

/-- The column that starts at a place of the first row, every row being shifted to the
left against the row above by `shift` places. -/
def Quad.shifted (shift start : Nat) : Quad :=
  let row (i : Nat) : Fin 16 := place (4 * i + (start + shift * i) % 4)
  ⟨row 0, row 1, row 2, row 3⟩

/-- The columns of a state, and after them its diagonals. -/
def quads : List Quad :=
  (List.range 4).map (Quad.shifted 0) ++ (List.range 4).map (Quad.shifted 1)

/-- A state with another word at a place. -/
def put {n : Nat} (v : Vector UInt32 n) (i : Fin n) (w : UInt32) : Vector UInt32 n :=
  v.set i w i.isLt

/-- Mix four words of a state with each other, and with two further words; `turn` is how
bits are turned. -/
def mix (turn : UInt32 → UInt32 → UInt32) (v : State) (q : Quad) (x y : UInt32) : State :=
  let a := v.get q.a + v.get q.b + x
  let d := turn (v.get q.d ^^^ a) 16
  let c := v.get q.c + d
  let b := turn (v.get q.b ^^^ c) 12
  let a := a + b + y
  let d := turn (d ^^^ a) 8
  let c := c + d
  let b := turn (b ^^^ c) 7
  put (put (put (put v q.a a) q.b b) q.c c) q.d d

end CorpusAudit.Word
