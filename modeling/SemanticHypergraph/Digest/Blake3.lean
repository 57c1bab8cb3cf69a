/-!
# The BLAKE3 digest

The input is cut into chunks of 1024 bytes, and each chunk is compressed block by block into a
chaining value of eight words. The chunks are the leaves of a binary tree in which every left
subtree is full and as large as it can be; the root gives the digest.
-/
namespace SemanticHypergraph.Blake3

abbrev Words (n : Nat) := Vector UInt32 n

def initial : Words 8 :=
  #v[0x6A09E667, 0xBB67AE85, 0x3C6EF372, 0xA54FF53A, 0x510E527F, 0x9B05688C, 0x1F83D9AB, 0x5BE0CD19]

/-- Where each word of a block goes between two rounds. -/
def permutation : Vector (Fin 16) 16 := #v[2, 6, 3, 10, 7, 0, 4, 13, 1, 11, 12, 5, 9, 14, 15, 8]

def chunkStart : UInt32 := 1

def chunkEnd : UInt32 := 2

def parent : UInt32 := 4

def root : UInt32 := 8

def blockLength : Nat := 64

def chunkLength : Nat := 1024

def rotateRight (w n : UInt32) : UInt32 := (w >>> n) ||| (w <<< (32 - n))

/-- Mixes the words `x` and `y` into four words of the state. -/
def mix (s : Words 16) (a b c d : Fin 16) (x y : UInt32) : Words 16 :=
  let va := s[a] + s[b] + x
  let vd := rotateRight (s[d] ^^^ va) 16
  let vc := s[c] + vd
  let vb := rotateRight (s[b] ^^^ vc) 12
  let va := va + vb + y
  let vd := rotateRight (vd ^^^ va) 8
  let vc := vc + vd
  let vb := rotateRight (vb ^^^ vc) 7
  (((s.set a va).set b vb).set c vc).set d vd

/-- Mixes the columns of the state and then its diagonals. -/
def round (s m : Words 16) : Words 16 :=
  let s := mix s 0 4 8 12 m[0] m[1]
  let s := mix s 1 5 9 13 m[2] m[3]
  let s := mix s 2 6 10 14 m[4] m[5]
  let s := mix s 3 7 11 15 m[6] m[7]
  let s := mix s 0 5 10 15 m[8] m[9]
  let s := mix s 1 6 11 12 m[10] m[11]
  let s := mix s 2 7 8 13 m[12] m[13]
  mix s 3 4 9 14 m[14] m[15]

def permute (m : Words 16) : Words 16 := permutation.map fun i => m[i]

/-- Rounds with the block permuted between them. -/
def rounds (s m : Words 16) : Nat → Words 16
  | 0 => s
  | n + 1 => rounds (round s m) (permute m) n

/-- One application of the compression function, still to be carried out: either its first eight
words chain on, or all of them are the output. -/
structure Node where
  chaining : Words 8
  block : Words 16
  counter : UInt64
  length : UInt32
  flags : UInt32

namespace Node

def compress (n : Node) : Words 16 :=
  let tail : Words 8 :=
    #v[initial[0], initial[1], initial[2], initial[3], n.counter.toUInt32,
      (n.counter >>> 32).toUInt32, n.length, n.flags]
  rounds (n.chaining ++ tail) n.block 7

/-- The value that the node above is given. -/
def value (n : Node) : Words 8 :=
  let s := n.compress
  Vector.ofFn fun i : Fin 8 => s[i.val] ^^^ s[i.val + 8]

def ofChildren (left right : Words 8) : Node := ⟨initial, left ++ right, 0, 64, parent⟩

end Node

/-- The word of four bytes, low byte first; missing bytes are zero. -/
def word (bs : List UInt8) : UInt32 :=
  (bs.take 4).foldr (fun b w => b.toUInt32 ||| (w <<< 8)) 0

def blockWords (bs : List UInt8) : Words 16 := Vector.ofFn fun i : Fin 16 => word (bs.drop (4 * i))

/-- The blocks of a chunk from `chaining` on, in a chunk that has `fuel` blocks or fewer; `start` is
set in front of the first block. -/
def chunkFrom (counter : UInt64) (chaining : Words 8) (start : UInt32) :
    Nat → List UInt8 → Node
  | 0, bs => ⟨chaining, blockWords bs, counter, UInt32.ofNat bs.length, start ||| chunkEnd⟩
  | fuel + 1, bs =>
    if bs.length ≤ blockLength then
      ⟨chaining, blockWords bs, counter, UInt32.ofNat bs.length, start ||| chunkEnd⟩
    else
      let node : Node := ⟨chaining, blockWords (bs.take blockLength), counter, 64, start⟩
      chunkFrom counter node.value 0 fuel (bs.drop blockLength)

def chunk (counter : Nat) (bs : List UInt8) : Node :=
  chunkFrom (UInt64.ofNat counter) initial chunkStart 16 bs

/-- The number of chunks that `length` bytes make; the empty input makes one. -/
def chunkCount (length : Nat) : Nat := max 1 ((length + chunkLength - 1) / chunkLength)

/-- The chunks of the left subtree of a tree of `n` chunks: the largest power of two below `n`. -/
def leftChunks (n : Nat) : Nat := Nat.pow 2 (n - 1).log2

/-- The tree over the chunks from number `counter` on, of at most `fuel` levels. -/
def tree (counter : Nat) : Nat → List UInt8 → Node
  | 0, bs => chunk counter bs
  | fuel + 1, bs =>
    let n := chunkCount bs.length
    if n ≤ 1 then chunk counter bs
    else
      let left := leftChunks n
      .ofChildren (tree counter fuel (bs.take (left * chunkLength))).value
        (tree (counter + left) fuel (bs.drop (left * chunkLength))).value

def wordBytes (w : UInt32) : List UInt8 :=
  [w.toUInt8, (w >>> 8).toUInt8, (w >>> 16).toUInt8, (w >>> 24).toUInt8]

def digest (bs : List UInt8) : List UInt8 :=
  let node := tree 0 (chunkCount bs.length) bs
  { node with flags := node.flags ||| root }.value.toList.flatMap wordBytes

end SemanticHypergraph.Blake3
