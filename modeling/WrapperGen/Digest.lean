import WrapperGen.Text.Hex

/-!
The BLAKE3 digest of a text. The bytes are cut into chunks of 1024 bytes, the leaves of a binary
tree in which every left subtree is full; the digest is the root's output.
-/

namespace WrapperGen.Digest

abbrev Words (n : Nat) := Vector UInt32 n

def initialValue : Words 8 :=
  #v[0x6A09E667, 0xBB67AE85, 0x3C6EF372, 0xA54FF53A,
    0x510E527F, 0x9B05688C, 0x1F83D9AB, 0x5BE0CD19]

def chunkStart : UInt32 := 1
def chunkEnd : UInt32 := 2
def parentFlag : UInt32 := 4
def rootFlag : UInt32 := 8

def rotateRight (x amount : UInt32) : UInt32 :=
  (x >>> amount) ||| (x <<< (32 - amount))

/-- Mixes two words into a column or a diagonal of the state. -/
def mix (v : Words 16) (a b c d : Fin 16) (x y : UInt32) : Words 16 :=
  let va := v[a] + v[b] + x
  let vd := rotateRight (v[d] ^^^ va) 16
  let vc := v[c] + vd
  let vb := rotateRight (v[b] ^^^ vc) 12
  let va := va + vb + y
  let vd := rotateRight (vd ^^^ va) 8
  let vc := vc + vd
  let vb := rotateRight (vb ^^^ vc) 7
  (((v.set a va).set b vb).set c vc).set d vd

def round (v m : Words 16) : Words 16 :=
  let v := mix v 0 4 8 12 m[0] m[1]
  let v := mix v 1 5 9 13 m[2] m[3]
  let v := mix v 2 6 10 14 m[4] m[5]
  let v := mix v 3 7 11 15 m[6] m[7]
  let v := mix v 0 5 10 15 m[8] m[9]
  let v := mix v 1 6 11 12 m[10] m[11]
  let v := mix v 2 7 8 13 m[12] m[13]
  mix v 3 4 9 14 m[14] m[15]

def permuted (m : Words 16) : Words 16 :=
  #v[m[2], m[6], m[3], m[10], m[7], m[0], m[4], m[13],
    m[1], m[11], m[12], m[5], m[9], m[14], m[15], m[8]]

def rounds : Nat → Words 16 → Words 16 → Words 16
  | 0, v, _ => v
  | n + 1, v, m => rounds n (round v m) (permuted m)

/-- A node of the tree before its last compression: the root is compressed with a flag more. -/
structure Node where
  chaining : Words 8
  block : Words 16
  counter : UInt64
  length : UInt32
  flags : UInt32

def Node.compress (n : Node) (extra : UInt32) : Words 8 :=
  let h := n.chaining
  let v : Words 16 :=
    #v[h[0], h[1], h[2], h[3], h[4], h[5], h[6], h[7],
      initialValue[0], initialValue[1], initialValue[2], initialValue[3],
      n.counter.toUInt32, (n.counter >>> 32).toUInt32, n.length, n.flags ||| extra]
  let v := rounds 7 v n.block
  Vector.ofFn fun i : Fin 8 => v[i.val] ^^^ v[i.val + 8]

/-- The bytes of the block at an offset as little-endian words, with zeros behind the end. -/
def blockAt (bytes : ByteArray) (offset stop : Nat) : Words 16 :=
  let byte (i : Nat) : UInt32 :=
    if h : i < bytes.size then (if i < stop then bytes[i].toUInt32 else 0) else 0
  Vector.ofFn fun w : Fin 16 =>
    let i := offset + 4 * w.val
    byte i ||| (byte (i + 1) <<< 8) ||| (byte (i + 2) <<< 16) ||| (byte (i + 3) <<< 24)

/-- The blocks of a chunk from `offset` on; the last one is left for the node. -/
def chunkNode (bytes : ByteArray) (counter : UInt64) (stop : Nat) :
    Nat → Nat → Words 8 → UInt32 → Node
  | 0, offset, chaining, flags =>
    ⟨chaining, blockAt bytes offset stop, counter, (stop - offset).toUInt32, flags ||| chunkEnd⟩
  | more + 1, offset, chaining, flags =>
    let node : Node := ⟨chaining, blockAt bytes offset stop, counter, 64, flags⟩
    chunkNode bytes counter stop more (offset + 64) (node.compress 0) 0

/-- The bytes of the left subtree: the largest power of two of chunks with a byte left over. -/
def leftLength (length : Nat) : Nat := 1024 <<< ((length - 1) / 1024).log2

theorem leftLength_pos (length : Nat) : 0 < leftLength length := by
  rw [leftLength, Nat.shiftLeft_eq]
  exact Nat.mul_pos (by decide) (Nat.two_pow_pos _)

theorem leftLength_lt {length : Nat} (h : 1024 < length) : leftLength length < length := by
  have chunks : (length - 1) / 1024 ≠ 0 := by omega
  have power := Nat.log2_self_le chunks
  rw [leftLength, Nat.shiftLeft_eq]
  omega

def treeNode (bytes : ByteArray) (offset length : Nat) : Node :=
  if h : 1024 < length then
    let left := leftLength length
    let l := (treeNode bytes offset left).compress 0
    let r := (treeNode bytes (offset + left) (length - left)).compress 0
    ⟨initialValue, l ++ r, 0, 64, parentFlag⟩
  else
    chunkNode bytes (offset / 1024).toUInt64 (offset + length) ((length - 1) / 64) offset
      initialValue chunkStart
termination_by length
decreasing_by
  · exact leftLength_lt h
  · have := leftLength_pos length
    omega

def bytesOf (w : UInt32) : List UInt8 :=
  [w.toUInt8, (w >>> 8).toUInt8, (w >>> 16).toUInt8, (w >>> 24).toUInt8]

/-- The 64 hexadecimal digits of the digest of a text. -/
def hex (text : String) : String :=
  let bytes := text.toUTF8
  let output := (treeNode bytes 0 bytes.size).compress rootFlag
  String.ofList ((output.toList.flatMap bytesOf).flatMap hexOfByte)

end WrapperGen.Digest
