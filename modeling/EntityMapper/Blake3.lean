/-!
# The BLAKE3 hash

The input is cut into chunks of 1024 bytes and each chunk into blocks of 64
bytes. A chunk's blocks are compressed one after another; the chunks' chaining
values are then joined in pairs, level by level, an odd one moving up unchanged.
Joining in pairs gives the same tree as splitting off the largest power of two
from the left. The root is compressed with a flag of its own, and its first 32
bytes are the hash.
-/

namespace EntityMapper.Blake3

/-- Eight chaining words. -/
abbrev Chain := Vector UInt32 8

/-- The sixteen words of a block or of a state. -/
abbrev Words := Vector UInt32 16

def initialChain : Chain :=
  #v[0x6a09e667, 0xbb67ae85, 0x3c6ef372, 0xa54ff53a, 0x510e527f, 0x9b05688c,
    0x1f83d9ab, 0x5be0cd19]

def chunkStart : UInt32 := 1
def chunkEnd : UInt32 := 2
def parentFlag : UInt32 := 4
def rootFlag : UInt32 := 8

def rotateRight (word count : UInt32) : UInt32 :=
  (word >>> count) ||| (word <<< (32 - count))

/-- The quarter round on the words at four places, mixing in two message words. -/
def quarter (s : Words) (a b c d : Fin 16) (x y : UInt32) : Words :=
  let s := s.set a (s[a] + s[b] + x)
  let s := s.set d (rotateRight (s[d] ^^^ s[a]) 16)
  let s := s.set c (s[c] + s[d])
  let s := s.set b (rotateRight (s[b] ^^^ s[c]) 12)
  let s := s.set a (s[a] + s[b] + y)
  let s := s.set d (rotateRight (s[d] ^^^ s[a]) 8)
  let s := s.set c (s[c] + s[d])
  s.set b (rotateRight (s[b] ^^^ s[c]) 7)

/-- One round: the columns, then the diagonals. -/
def round (s m : Words) : Words :=
  let s := quarter s 0 4 8 12 m[0] m[1]
  let s := quarter s 1 5 9 13 m[2] m[3]
  let s := quarter s 2 6 10 14 m[4] m[5]
  let s := quarter s 3 7 11 15 m[6] m[7]
  let s := quarter s 0 5 10 15 m[8] m[9]
  let s := quarter s 1 6 11 12 m[10] m[11]
  let s := quarter s 2 7 8 13 m[12] m[13]
  quarter s 3 4 9 14 m[14] m[15]

/-- The order in which the next round takes the message words. -/
def permute (m : Words) : Words :=
  #v[m[2], m[6], m[3], m[10], m[7], m[0], m[4], m[13], m[1], m[11], m[12], m[5],
    m[9], m[14], m[15], m[8]]

/-- The given number of rounds. -/
def rounds : Nat → Words → Words → Words
  | 0, s, _ => s
  | n + 1, s, m => rounds n (round s m) (permute m)

/-- A compression that is still to be done: at the root it gets one more flag. -/
structure Node where
  chain : Chain
  block : Words
  counter : Nat
  blockSize : Nat
  flags : UInt32

/-- Seven rounds, then the two halves of the state are folded into the chaining
words. -/
def Node.compress (node : Node) (flag : UInt32) : Chain :=
  let h := node.chain
  let v := rounds 7
    #v[h[0], h[1], h[2], h[3], h[4], h[5], h[6], h[7],
      initialChain[0], initialChain[1], initialChain[2], initialChain[3],
      UInt32.ofNat node.counter, UInt32.ofNat (node.counter / Nat.pow 2 32),
      UInt32.ofNat node.blockSize, node.flags ||| flag] node.block
  #v[v[0] ^^^ v[8], v[1] ^^^ v[9], v[2] ^^^ v[10], v[3] ^^^ v[11],
    v[4] ^^^ v[12], v[5] ^^^ v[13], v[6] ^^^ v[14], v[7] ^^^ v[15]]

/-- The word at a place of a block, its bytes in little-endian order; bytes past
the end are zero. -/
def wordAt (bytes : Array UInt8) (place : Nat) : UInt32 :=
  let byte (i : Nat) : UInt32 := (bytes.getD (4 * place + i) 0).toUInt32
  byte 0 ||| byte 1 <<< 8 ||| byte 2 <<< 16 ||| byte 3 <<< 24

def blockWords (bytes : List UInt8) : Words :=
  let array := bytes.toArray
  Vector.ofFn fun place => wordAt array place

/-- Compress the blocks of one chunk in turn; the last one is left for the
caller. -/
def chunkBlocks (counter : Nat) : Nat → Chain → UInt32 → List UInt8 → Node
  | 0, chain, flags, bytes =>
    ⟨chain, blockWords bytes, counter, bytes.length, flags ||| chunkEnd⟩
  | fuel + 1, chain, flags, bytes =>
    if bytes.length ≤ 64 then
      ⟨chain, blockWords bytes, counter, bytes.length, flags ||| chunkEnd⟩
    else
      let node : Node := ⟨chain, blockWords (bytes.take 64), counter, 64, flags⟩
      chunkBlocks counter fuel (node.compress 0) 0 (bytes.drop 64)

/-- The node of one chunk of at most 1024 bytes. -/
def chunkNode (counter : Nat) (bytes : List UInt8) : Node :=
  chunkBlocks counter 16 initialChain chunkStart bytes

/-- Nodes of all chunks; an empty input has one empty chunk. -/
def chunkNodes : Nat → Nat → List UInt8 → List Node
  | 0, counter, bytes => [chunkNode counter bytes]
  | fuel + 1, counter, bytes =>
    if bytes.length ≤ 1024 then [chunkNode counter bytes]
    else chunkNode counter (bytes.take 1024) ::
      chunkNodes fuel (counter + 1) (bytes.drop 1024)

/-- The node above two nodes. -/
def parent (left right : Node) : Node :=
  ⟨initialChain, (left.compress 0 ++ right.compress 0).cast (by decide), 0,
    64, parentFlag⟩

/-- One level of the tree: neighbours are joined, an odd one moves up. -/
def joinPairs : List Node → List Node
  | left :: right :: rest => parent left right :: joinPairs rest
  | rest => rest

/-- Join levels until one node is left. The fuel bounds the number of levels. -/
def root : Nat → List Node → Option Node
  | _, [] => none
  | _, [node] => some node
  | 0, node :: _ => some node
  | fuel + 1, nodes => root fuel (joinPairs nodes)

/-- The bytes of a word in little-endian order. -/
def wordBytes (word : UInt32) : List UInt8 :=
  [word.toUInt8, (word >>> 8).toUInt8, (word >>> 16).toUInt8, (word >>> 24).toUInt8]

/-- The 32 bytes of the hash. -/
def hash (bytes : List UInt8) : List UInt8 :=
  let nodes := chunkNodes (bytes.length / 1024) 0 bytes
  match root nodes.length nodes with
  | some node => (node.compress rootFlag).toList.flatMap wordBytes
  | none => []

end EntityMapper.Blake3
