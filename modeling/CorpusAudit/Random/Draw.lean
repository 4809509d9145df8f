import CorpusAudit.Random.ChaCha

/-!
# Drawing without repetition

`draw` takes a number below a bound from a stream, every number being equally likely, and
`lock` shuffles the end of a list: one place after the other, from the last one down, is
filled with an item drawn from those that are not locked yet.  So the items drawn first
do not depend on how many are drawn after them.
-/

namespace CorpusAudit.Random

/-- How many words of 32 bits one number is drawn from: two if the bound does not fit into
one. -/
def width (bound : Nat) : Nat :=
  if bound < UInt32.size then 1 else 2

/-- The number of which the words at a place and behind it are the digits, the last one
first. -/
def numeral (s : Stream) : Nat → Nat → Nat
  | 0, _ => 0
  | width + 1, place => (s place).toNat + UInt32.size * numeral s width (place + 1)

theorem numeral_lt (s : Stream) (width place : Nat) :
  numeral s width place < Nat.pow UInt32.size width
  := by
  induction width generalizing place with
  | zero => exact Nat.one_pos
  | succ width ih =>
    have hdigit : (s place).toNat + 1 ≤ UInt32.size := (s place).toNat_lt
    calc numeral s (width + 1) place
      _ < UInt32.size + UInt32.size * numeral s width (place + 1) :=
        Nat.add_lt_add_right hdigit _
      _ = UInt32.size * (numeral s width (place + 1) + 1) := by rw [Nat.mul_succ, Nat.add_comm]
      _ ≤ UInt32.size * Nat.pow UInt32.size width := Nat.mul_le_mul_left _ (ih (place + 1))
      _ = Nat.pow UInt32.size (width + 1) := Nat.mul_comm _ _

/-- The greatest low half of a product that is accepted for a bound of at least one. -/
def zone (bound : Nat) : Nat :=
  bound * Nat.pow 2 (32 * width bound - 1 - bound.log2) - 1

/-- How often words are tried for one number.  To try until they are accepted would give the
same number, except after so many refusals in a row, each of which has a probability of less
than one half. -/
def mostTries : Nat := 1024

/-- A number below `bound` from the words at a place and behind it, and the place after
the words that were taken.  The number is the high half of the product of what the words
denote and the bound; words that would make some numbers likelier than others are refused.
When there are no tries left, the number is zero. -/
def drawFrom (s : Stream) (bound : Nat) : Nat → Nat → Nat × Nat
  | 0, place => (0, place)
  | tries + 1, place =>
    let base := Nat.pow UInt32.size (width bound)
    let product := numeral s (width bound) place * bound
    if product % base ≤ zone bound then (product / base, place + width bound)
    else drawFrom s bound tries (place + width bound)

/-- A number below `bound`, and the place after the words that were taken. -/
def draw (s : Stream) (bound place : Nat) : Nat × Nat :=
  drawFrom s bound mostTries place

/-- What is drawn is below the bound. -/
theorem draw_lt (s : Stream) {bound : Nat} (h : 0 < bound) (place : Nat) :
  (draw s bound place).1 < bound
  := by
  simp only [draw]
  generalize mostTries = tries
  induction tries generalizing place with
  | zero => exact h
  | succ tries ih =>
    simp only [drawFrom]
    split
    · have hnumeral := numeral_lt s (width bound) place
      apply Nat.div_lt_of_lt_mul
      exact Nat.mul_lt_mul_of_pos_right hnumeral h
    · exact ih (place + width bound)

variable {α : Type}

/-- Lock `count` places, the last one of the first `free` places first. -/
def lock (s : Stream) : Nat → Nat → Nat → Array α → Array α
  | count + 1, free + 1, place, items =>
    let drawn := draw s (free + 1) place
    lock s count free drawn.2 (items.swapIfInBounds free drawn.1)
  | _, _, _, items => items

/-- Draw `count` items of a list without repetition. -/
def choose (s : Stream) (count : Nat) (items : List α) : List α :=
  let n := items.length
  ((lock s count n 0 items.toArray).toList).drop (n - count)

end CorpusAudit.Random
