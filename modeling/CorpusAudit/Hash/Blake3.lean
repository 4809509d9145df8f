import CorpusAudit.Word.Bytes
import CorpusAudit.Word.State

/-!
# The BLAKE3 hash

A text is cut into chunks of 1024 bytes, the leaves of a binary tree whose left branches
are complete.  A chunk is hashed block by block, and a parent is a block that holds the
chaining values of its two children.  `digest` are the first 32 bytes of the hash of a
text without a key.
-/

namespace CorpusAudit.Hash.Blake3

open Word (State)

/-- The chaining value from which hashing starts. -/
def initial : List UInt32 :=
  [0x6A09E667, 0xBB67AE85, 0x3C6EF372, 0xA54FF53A, 0x510E527F, 0x9B05688C, 0x1F83D9AB, 0x5BE0CD19]

/-- The order in which the words of a block are taken in the next round. -/
def permutation : List Nat :=
  [2, 6, 3, 10, 7, 0, 4, 13, 1, 11, 12, 5, 9, 14, 15, 8]

/-- The words of a block, two by two. -/
def pairs : List UInt32 → List (UInt32 × UInt32)
  | x :: y :: ws => (x, y) :: pairs ws
  | _ => []

/-- Mix the sixteen words of a block into the state, first by columns and then by
diagonals. -/
def round (v : State) (block : List UInt32) : State :=
  (Word.quads.zip (pairs block)).foldl
    (fun v (q, x, y) => Word.mix Word.rotateRight v q x y) v

/-- Do a number of rounds, the words of the block being taken in another order each
time. -/
def rounds : Nat → State → List UInt32 → State
  | 0, v, _ => v
  | n + 1, v, block => rounds n (round v block) (permutation.map fun i => block.getD i 0)

/-- A block that is ready to be compressed. -/
structure Node where
  /-- Eight words that the blocks before hand on. -/
  chaining : List UInt32
  /-- The sixteen words of the block. -/
  block : List UInt32
  counter : Nat
  length : Nat
  flags : UInt32

namespace Node

/-- The state from which a block is compressed. -/
def start (n : Node) (more : UInt32) : State :=
  Word.ofList 16 (n.chaining ++ initial.take 4
    ++ [UInt32.ofNat n.counter, UInt32.ofNat (n.counter / UInt32.size), UInt32.ofNat n.length,
      n.flags ||| more])

/-- Compress a block, further flags being set; the result has sixteen words. -/
def compress (n : Node) (more : UInt32) : List UInt32 :=
  let v := (rounds 7 (n.start more) n.block).toList
  let low := v.take 8
  let high := v.drop 8
  List.zipWith (· ^^^ ·) low high ++ List.zipWith (· ^^^ ·) high n.chaining

/-- The chaining value that a block hands on. -/
def value (n : Node) : List UInt32 :=
  (n.compress 0).take 8

end Node

/-- The flag of the first block of a chunk. -/
def chunkStart : UInt32 := 1

/-- The flag of the last block of a chunk. -/
def chunkEnd : UInt32 := 2

/-- The flag of a parent. -/
def parentFlag : UInt32 := 4

/-- The flag of the block from which the hash is taken. -/
def rootFlag : UInt32 := 8

/-- The number of bytes of a block. -/
def blockSize : Nat := 64

/-- The number of bytes of a chunk. -/
def chunkSize : Nat := 1024

/-- The sixteen words of a block of bytes; bytes beyond the end are zero. -/
def blockWords (bytes : List UInt8) : List UInt32 :=
  (List.range 16).map (Word.wordAt bytes)

/-- The last block of a chunk, the blocks before it being compressed.  `fuel` is at
least the number of blocks. -/
def chunkNode (counter : Nat) : Nat → List UInt32 → UInt32 → List UInt8 → Node
  | 0, chaining, start, bytes =>
    ⟨chaining, blockWords bytes, counter, bytes.length, start ||| chunkEnd⟩
  | fuel + 1, chaining, start, bytes =>
    if bytes.length ≤ blockSize then
      ⟨chaining, blockWords bytes, counter, bytes.length, start ||| chunkEnd⟩
    else
      let block : Node :=
        ⟨chaining, blockWords (bytes.take blockSize), counter, blockSize, start⟩
      chunkNode counter fuel block.value 0 (bytes.drop blockSize)

/-- The block of a parent. -/
def parentNode (left right : List UInt32) : Node :=
  ⟨initial, left ++ right, 0, blockSize, parentFlag⟩

/-- The number of chunks of the left branch over more than one chunk: the greatest power
of two that leaves something for the right. -/
def leftChunks (length : Nat) : Nat :=
  Nat.pow 2 ((length - 1) / chunkSize).log2

/-- The root of the tree over a text whose first chunk has the given number.  `fuel` is
at least the height of the tree. -/
def treeNode : Nat → Nat → List UInt8 → Node
  | 0, counter, bytes => chunkNode counter (chunkSize / blockSize) initial chunkStart bytes
  | fuel + 1, counter, bytes =>
    if bytes.length ≤ chunkSize then
      chunkNode counter (chunkSize / blockSize) initial chunkStart bytes
    else
      let chunks := leftChunks bytes.length
      let left := treeNode fuel counter (bytes.take (chunks * chunkSize))
      let right := treeNode fuel (counter + chunks) (bytes.drop (chunks * chunkSize))
      parentNode left.value right.value

/-- The hash of a text, as 32 bytes. -/
def digest (bytes : List UInt8) : List UInt8 :=
  let root := treeNode (bytes.length.log2 + 1) 0 bytes
  (Word.wordBytes (root.compress rootFlag)).take 32

/-- Bytes as hexadecimal digits, two to a byte. -/
def hex (bytes : List UInt8) : String :=
  String.ofList (bytes.flatMap fun b =>
    [Nat.digitChar (b.toNat / 16), Nat.digitChar (b.toNat % 16)])

/-- The hash of a text, as 64 hexadecimal digits. -/
def hexDigest (bytes : List UInt8) : String :=
  hex (digest bytes)

end CorpusAudit.Hash.Blake3
