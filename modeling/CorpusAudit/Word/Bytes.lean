/-!
# Bytes of words

Numbers are laid out as bytes with the least significant byte first.
-/

namespace CorpusAudit.Word

/-- The number whose bytes are given, the least significant first. -/
def ofBytes (bytes : List UInt8) : Nat :=
  bytes.foldr (fun b n => b.toNat + 256 * n) 0

/-- The lowest `count` bytes of a number, the least significant first. -/
def toBytes : Nat → Nat → List UInt8
  | 0, _ => []
  | count + 1, n => UInt8.ofNat n :: toBytes count (n / 256)

/-- There are as many bytes as are asked for. -/
theorem length_toBytes (count n : Nat) :
  (toBytes count n).length = count
  := by
  induction count generalizing n with
  | zero => rfl
  | succ count ih => simp [toBytes, ih]

/-- A number is given back by its bytes, if there are enough of them. -/
theorem ofBytes_toBytes {count n : Nat} (h : n < Nat.pow 256 count) :
  ofBytes (toBytes count n) = n
  := by
  induction count generalizing n with
  | zero => simp_all [toBytes, ofBytes]
  | succ count ih =>
    have hn : n / 256 < Nat.pow 256 count := by
      rw [Nat.div_lt_iff_lt_mul (by decide)]
      exact h
    have := ih hn
    simp only [ofBytes] at this
    simp only [toBytes, ofBytes, List.foldr_cons, this, UInt8.toNat_ofNat']
    omega

/-- The word at a place of a byte string, four bytes to a word; bytes beyond the end
are zero. -/
def wordAt (bytes : List UInt8) (i : Nat) : UInt32 :=
  UInt32.ofNat (ofBytes ((bytes.drop (4 * i)).take 4))

/-- The bytes of words, four to a word. -/
def wordBytes (words : List UInt32) : List UInt8 :=
  words.flatMap fun w => toBytes 4 w.toNat

end CorpusAudit.Word
