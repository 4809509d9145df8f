import CorpusAudit.Word.State

/-!
# A stream of random words

A `Stream` gives a word for every place.  `chacha key` is the key stream of the cipher
ChaCha with twelve rounds, and `seeded` takes the key from a seed of 64 bits.
-/

namespace CorpusAudit.Random

/-- A stream of words. -/
abbrev Stream := Nat → UInt32

/-- Two rounds: one by columns, one by diagonals. -/
def doubleRound (v : Word.State) : Word.State :=
  Word.quads.foldl (fun v q => Word.mix Word.rotateLeft v q 0 0) v

/-- The state from which a block is computed; the counter has 64 bits. -/
def initialState (key : List UInt32) (counter : Nat) : Word.State :=
  Word.ofList 16 ([0x61707865, 0x3320646e, 0x79622d32, 0x6b206574] ++ key
    ++ [UInt32.ofNat counter, UInt32.ofNat (counter / UInt32.size), 0, 0])

/-- A block of sixteen words. -/
def block (key : List UInt32) (counter : Nat) : Word.State :=
  let start := initialState key counter
  (Nat.repeat doubleRound 6 start).zipWith (· + ·) start

/-- The words of the blocks, one after the other. -/
def chacha (key : List UInt32) : Stream := fun i =>
  (block key (i / 16)).get (Word.place i)

/-- The next state of the generator from which keys are taken. -/
def advance (state : UInt64) : UInt64 :=
  state * 6364136223846793005 + 11634580027462260723

/-- The word that a state of the generator gives. -/
def output (state : UInt64) : UInt32 :=
  let mixed := (((state >>> 18) ^^^ state) >>> 27).toUInt32
  let turn := (state >>> 59).toUInt32
  if turn = 0 then mixed else mixed >>> turn ||| mixed <<< (32 - turn)

/-- The key of a seed: eight words. -/
def keyOf (seed : UInt64) : List UInt32 :=
  (List.range 8).map fun i => output (Nat.repeat advance (i + 1) seed)

/-- The stream of a seed. -/
def seeded (seed : UInt64) : Stream :=
  chacha (keyOf seed)

end CorpusAudit.Random
