import Caf.Text.Hex
import Caf.Width

/-!
# BLAKE3

The BLAKE3 digest of a byte string, in its unkeyed mode and with 32 bytes of output. The input is
cut into chunks of 1024 bytes and each chunk into blocks of 64 bytes; the blocks of a chunk are
chained, and the chunks are the leaves of a binary tree. The left subtree of a node is always full,
so the tree comes about by pairing neighbours level by level, where a last node without a neighbour
moves up as it is.
-/

namespace Caf.Blake3

/-- Eight words that stand for a chunk or a subtree. -/
abbrev Chain := Vector UInt32 8

/-- The sixteen words of a block, or of the state of the compression function. -/
abbrev Block := Vector UInt32 16

/-- The initial chaining value. -/
def initial : Chain :=
  #v[0x6a09e667, 0xbb67ae85, 0x3c6ef372, 0xa54ff53a, 0x510e527f, 0x9b05688c, 0x1f83d9ab, 0x5be0cd19]

/-- The order in which the words of a block come in the next round. -/
def schedule : Vector (Fin 16) 16 :=
  #v[2, 6, 3, 10, 7, 0, 4, 13, 1, 11, 12, 5, 9, 14, 15, 8]

/-- First block of a chunk. -/
def chunkStart : UInt32 := 1

/-- Last block of a chunk. -/
def chunkEnd : UInt32 := 2

/-- A node with two children. -/
def parentNode : UInt32 := 4

/-- The node that yields the digest. -/
def rootNode : UInt32 := 8

/-- Bytes of a block. -/
def blockSize : Nat := 64

/-- Bytes of a chunk. -/
def chunkSize : Nat := 1024

/-- Moves the bits of `x` to the right by `n` and those that drop out to the left end. -/
def rotateRight (x : UInt32) (n : UInt32) : UInt32 :=
  (x >>> n) ||| (x <<< (32 - n))

/-- Mixes the words `x` and `y` of the block into the words `a`, `b`, `c` and `d` of the state `v`.
-/
def mix (v : Block) (a b c d : Fin 16) (x y : UInt32) : Block :=
  let va := v[a] + v[b] + x
  let vd := rotateRight (v[d] ^^^ va) 16
  let vc := v[c] + vd
  let vb := rotateRight (v[b] ^^^ vc) 12
  let va := va + vb + y
  let vd := rotateRight (vd ^^^ va) 8
  let vc := vc + vd
  let vb := rotateRight (vb ^^^ vc) 7
  (((v.set a va).set b vb).set c vc).set d vd

/-- One round with the block `m`: the columns of the state `v`, then its diagonals. -/
def round (v m : Block) : Block :=
  let v := mix v 0 4 8 12 m[0] m[1]
  let v := mix v 1 5 9 13 m[2] m[3]
  let v := mix v 2 6 10 14 m[4] m[5]
  let v := mix v 3 7 11 15 m[6] m[7]
  let v := mix v 0 5 10 15 m[8] m[9]
  let v := mix v 1 6 11 12 m[10] m[11]
  let v := mix v 2 7 8 13 m[12] m[13]
  mix v 3 4 9 14 m[14] m[15]

/-- Rounds as many as `count`, with the words of the block in a new `schedule` for each. -/
def rounds : (count : Nat) → (v m : Block) → Block
  | 0, v, _ => v
  | count + 1, v, m => rounds count (round v m) (schedule.map fun i => m[i])

/-- Compresses a block of `length` bytes into a chaining value. The counter takes two words. -/
def compress (chain : Chain) (block : Block) (counter length : Nat) (flags : UInt32) : Chain :=
  let start : Block :=
    #v[chain[0], chain[1], chain[2], chain[3], chain[4], chain[5], chain[6], chain[7],
       initial[0], initial[1], initial[2], initial[3],
       UInt32.ofNat counter, UInt32.ofNat (counter / 2 ^ 32), UInt32.ofNat length, flags]
  let v := rounds 7 start block
  Vector.ofFn fun i : Fin 8 => v[i.val] ^^^ v[i.val + 8]

/-- The byte of the input at `i`, zero behind its end. -/
def byteAt (bytes : ByteArray) (i : Nat) : UInt32 :=
  if h : i < bytes.size then bytes[i].toUInt32 else 0

/-- The four bytes at `i` as a word, least significant byte first. -/
def wordAt (bytes : ByteArray) (i : Nat) : UInt32 :=
  byteAt bytes i ||| (byteAt bytes (i + 1) <<< 8) ||| (byteAt bytes (i + 2) <<< 16) |||
    (byteAt bytes (i + 3) <<< 24)

/-- The block at `offset`, filled up with zeros. -/
def blockAt (bytes : ByteArray) (offset : Nat) : Block :=
  Vector.ofFn fun i : Fin 16 => wordAt bytes (offset + 4 * i.val)

/-- How many pieces of `size` bytes an input of `length` bytes has; an empty input is one piece. -/
def pieces (length size : Nat) : Nat :=
  max 1 ((length + size - 1) / size)

/-- The chaining value of a chunk; `last` is added to the flags of its last block. -/
def chunkChain (chunk : ByteArray) (counter : Nat) (last : UInt32) : Chain :=
  let count := pieces chunk.size blockSize
  (List.range count).foldl
    (fun chain i =>
      let flags := (if i = 0 then chunkStart else 0) |||
        (if i + 1 = count then chunkEnd ||| last else 0)
      let length := min blockSize (chunk.size - i * blockSize)
      compress chain (blockAt chunk (i * blockSize)) counter length flags)
    initial

/-- The chaining value of a node with the children `left` and `right`. -/
def parentChain (left right : Chain) (last : UInt32) : Chain :=
  compress initial (left ++ right) 0 blockSize (parentNode ||| last)

/-- One level of the tree: neighbours are joined, and a last node without one moves up. -/
def pairUp : List Chain → List Chain
  | left :: right :: rest => parentChain left right 0 :: pairUp rest
  | rest => rest

/-- A level has at most as many nodes as the one below it, so that `rootChain` comes to an end. -/
theorem length_pairUp_le : ∀ nodes : List Chain, (pairUp nodes).length ≤ nodes.length
  | [] => Nat.le_refl _
  | [_] => Nat.le_refl _
  | _ :: _ :: rest => by
    have := length_pairUp_le rest
    simp only [pairUp, List.length_cons]
    omega

/-- The root of the tree over some leaves. -/
def rootChain : List Chain → Chain
  | [] => initial
  | [node] => node
  | [left, right] => parentChain left right rootNode
  | n0 :: n1 :: n2 :: rest => rootChain (parentChain n0 n1 0 :: pairUp (n2 :: rest))
termination_by nodes => nodes.length
decreasing_by
  have := length_pairUp_le (n2 :: rest)
  simp only [List.length_cons] at this ⊢
  omega

/-- The chunk with the number `i`. -/
def chunkAt (bytes : ByteArray) (i : Nat) : ByteArray :=
  bytes.extract (i * chunkSize) (min bytes.size ((i + 1) * chunkSize))

/-- The chaining value of the root for an input. -/
def root (bytes : ByteArray) : Chain :=
  -- A single chunk is the root itself.
  if bytes.size ≤ chunkSize then chunkChain bytes 0 rootNode
  else
    rootChain ((List.range (pieces bytes.size chunkSize)).map fun i =>
      chunkChain (chunkAt bytes i) i 0)

/-- The bytes of a word, least significant byte first. -/
def wordBytes (w : UInt32) : List UInt8 :=
  [w.toUInt8, (w >>> 8).toUInt8, (w >>> 16).toUInt8, (w >>> 24).toUInt8]

/-- The digest of an input, as 64 hexadecimal digits. -/
def digest (bytes : ByteArray) : String :=
  Hex.ofBytes ((root bytes).toList.flatMap wordBytes)

end Caf.Blake3
