import SecureGroup.Chunks
import SecureGroup.Crypto.Words

/-!
# BLAKE3

`Blake3.digest` is the unkeyed hash with 32 octets of output.  A message is cut into chunks of
1024 octets; each chunk is a chain of blocks, and the chaining values of the chunks are the
leaves of a binary tree whose every left subtree is full.  Joining neighbours level by level, an
odd last one going up as it is, builds exactly that tree (`rootOf`).
-/

namespace SecureGroup.Blake3

/-! ## Algorithm -/

/-- Eight words that stand for a chunk or a subtree. -/
structure ChainingValue where
  a : UInt32
  b : UInt32
  c : UInt32
  d : UInt32
  e : UInt32
  f : UInt32
  g : UInt32
  h : UInt32

/-- The initial state, and the key of the unkeyed hash. -/
def iv : ChainingValue :=
  ⟨0x6a09e667, 0xbb67ae85, 0x3c6ef372, 0xa54ff53a, 0x510e527f, 0x9b05688c, 0x1f83d9ab, 0x5be0cd19⟩

def chunkStart : UInt32 := 1

def chunkEnd : UInt32 := 2

def parent : UInt32 := 4

def root : UInt32 := 8

@[inline]
def rotr (x n : UInt32) : UInt32 := (x >>> n) ||| (x <<< (32 - n))

/-- Mixes two words `x` and `y` of a block into four words of the state. -/
@[inline]
def mix (a b c d x y : UInt32) : UInt32 × UInt32 × UInt32 × UInt32 :=
  let a := a + b + x
  let d := rotr (d ^^^ a) 16
  let c := c + d
  let b := rotr (b ^^^ c) 12
  let a := a + b + y
  let d := rotr (d ^^^ a) 8
  let c := c + d
  let b := rotr (b ^^^ c) 7
  (a, b, c, d)

/-- One round: mixes a block into the columns of the state, then into its diagonals. -/
def round (s m : Words32) : Words32 :=
  let (x0, x4, x8, x12) := mix s.w0 s.w4 s.w8 s.w12 m.w0 m.w1
  let (x1, x5, x9, x13) := mix s.w1 s.w5 s.w9 s.w13 m.w2 m.w3
  let (x2, x6, x10, x14) := mix s.w2 s.w6 s.w10 s.w14 m.w4 m.w5
  let (x3, x7, x11, x15) := mix s.w3 s.w7 s.w11 s.w15 m.w6 m.w7
  let (x0, x5, x10, x15) := mix x0 x5 x10 x15 m.w8 m.w9
  let (x1, x6, x11, x12) := mix x1 x6 x11 x12 m.w10 m.w11
  let (x2, x7, x8, x13) := mix x2 x7 x8 x13 m.w12 m.w13
  let (x3, x4, x9, x14) := mix x3 x4 x9 x14 m.w14 m.w15
  ⟨x0, x1, x2, x3, x4, x5, x6, x7, x8, x9, x10, x11, x12, x13, x14, x15⟩

/-- The words of a block in the order of the next round. -/
def permute (m : Words32) : Words32 :=
  ⟨m.w2, m.w6, m.w3, m.w10, m.w7, m.w0, m.w4, m.w13, m.w1, m.w11, m.w12, m.w5, m.w9, m.w14, m.w15,
    m.w8⟩

/-- The chaining value after one block of `length` octets. -/
def compress (cv : ChainingValue) (block : Words32) (counter : UInt64) (length flags : UInt32) :
    ChainingValue :=
  let start : Words32 := ⟨cv.a, cv.b, cv.c, cv.d, cv.e, cv.f, cv.g, cv.h, iv.a, iv.b, iv.c, iv.d,
    counter.toUInt32, (counter >>> 32).toUInt32, length, flags⟩
  let s := (Nat.fold 7 (fun _ _ (s, m) => (round s m, permute m)) (start, block)).1
  ⟨s.w0 ^^^ s.w8, s.w1 ^^^ s.w9, s.w2 ^^^ s.w10, s.w3 ^^^ s.w11, s.w4 ^^^ s.w12, s.w5 ^^^ s.w13,
    s.w6 ^^^ s.w14, s.w7 ^^^ s.w15⟩

/-- Little-endian words; missing octets of the last one are zero. -/
def words : Bytes → List UInt32
  | [] => []
  | a :: b :: c :: d :: rest =>
    (a.toUInt32 ||| (b.toUInt32 <<< 8) ||| (c.toUInt32 <<< 16) ||| (d.toUInt32 <<< 24)) ::
      words rest
  | a :: rest =>
    [a.toUInt32 ||| ((rest.getD 0 0).toUInt32 <<< 8) ||| ((rest.getD 1 0).toUInt32 <<< 16)]

def blockWords (block : Bytes) : Words32 :=
  let w := words block
  .ofList (w ++ List.replicate (16 - w.length) 0)

/-- Chains the blocks of a chunk; `first` is the flag of the first block, `last` of the last. -/
def chain (counter : UInt64) (last : UInt32) : ChainingValue → UInt32 → List Bytes → ChainingValue
  | cv, _, [] => cv
  | cv, first, [b] =>
    compress cv (blockWords b) counter (UInt32.ofNat b.length) (first ||| chunkEnd ||| last)
  | cv, first, b :: bs =>
    chain counter last (compress cv (blockWords b) counter (UInt32.ofNat b.length) first) 0 bs

/-- The chaining value of one chunk; an empty chunk is one empty block. -/
def chunkValue (counter : Nat) (last : UInt32) (chunk : Bytes) : ChainingValue :=
  let blocks := if chunk.isEmpty then [[]] else chunks 64 chunk
  chain (UInt64.ofNat counter) last iv chunkStart blocks

def join (flags : UInt32) (l r : ChainingValue) : ChainingValue :=
  compress iv ⟨l.a, l.b, l.c, l.d, l.e, l.f, l.g, l.h, r.a, r.b, r.c, r.d, r.e, r.f, r.g, r.h⟩ 0 64
    (parent ||| flags)

/-- Joins neighbours; an odd last value goes up as it is. -/
def joinPairs : List ChainingValue → List ChainingValue
  | a :: b :: rest => join 0 a b :: joinPairs rest
  | rest => rest

theorem length_joinPairs_le (l : List ChainingValue) : (joinPairs l).length ≤ l.length := by
  fun_induction joinPairs l <;> simp_all
  omega

def rootOf : List ChainingValue → ChainingValue
  | [] => iv
  | [a] => a
  | [a, b] => join root a b
  | a :: b :: c :: rest => rootOf (join 0 a b :: joinPairs (c :: rest))
termination_by l => l.length
decreasing_by
  have := length_joinPairs_le (c :: rest)
  simp only [List.length_cons] at this ⊢
  omega

def digest (m : Bytes) : Octets 32 :=
  let value := match chunks 1024 m with
    | [] => chunkValue 0 root []
    | [c] => chunkValue 0 root c
    | cs => rootOf (cs.mapIdx fun i c => chunkValue i 0 c)
  ⟨Bytes.ofWords32LE
    [value.a, value.b, value.c, value.d, value.e, value.f, value.g, value.h], by simp⟩

end SecureGroup.Blake3
