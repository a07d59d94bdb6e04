import GoQuorum.Lib.Bytes

/-!
# SHA-256

The hash function on byte strings.  A message is padded to blocks of 64 bytes
(`Sha256.pad`), each block is compressed into a state of eight words, and the digest is the state
in big-endian order.  The message schedule is not tabulated: a round consumes the first word of a
window of sixteen words and appends the word sixteen places later.
-/

namespace Lib

/-- The `w` low bytes of `n`, most significant first. -/
def beBytes (w n : ℕ) : Bytes := (leBytes w n).reverse

/-- The number whose bytes are listed most significant first. -/
def beNat (bs : Bytes) : ℕ := leNat bs.reverse

namespace Sha256

/-! ## Words -/

/-- Rotation to the right. -/
def rotr (x : UInt32) (n : UInt32) : UInt32 := (x >>> n) ||| (x <<< (32 - n))

/-- The function `Σ₀`. -/
def bigSigma0 (x : UInt32) : UInt32 := rotr x 2 ^^^ rotr x 13 ^^^ rotr x 22

/-- The function `Σ₁`. -/
def bigSigma1 (x : UInt32) : UInt32 := rotr x 6 ^^^ rotr x 11 ^^^ rotr x 25

/-- The function `σ₀`. -/
def sigma0 (x : UInt32) : UInt32 := rotr x 7 ^^^ rotr x 18 ^^^ (x >>> 3)

/-- The function `σ₁`. -/
def sigma1 (x : UInt32) : UInt32 := rotr x 17 ^^^ rotr x 19 ^^^ (x >>> 10)

/-- Bitwise choice between `y` and `z`. -/
def ch (x y z : UInt32) : UInt32 := (x &&& y) ^^^ (~~~x &&& z)

/-- Bitwise majority. -/
def maj (x y z : UInt32) : UInt32 := (x &&& y) ^^^ (x &&& z) ^^^ (y &&& z)

/-- The round constants. -/
def roundConstants : List UInt32 :=
  [0x428a2f98, 0x71374491, 0xb5c0fbcf, 0xe9b5dba5, 0x3956c25b, 0x59f111f1, 0x923f82a4, 0xab1c5ed5,
   0xd807aa98, 0x12835b01, 0x243185be, 0x550c7dc3, 0x72be5d74, 0x80deb1fe, 0x9bdc06a7, 0xc19bf174,
   0xe49b69c1, 0xefbe4786, 0x0fc19dc6, 0x240ca1cc, 0x2de92c6f, 0x4a7484aa, 0x5cb0a9dc, 0x76f988da,
   0x983e5152, 0xa831c66d, 0xb00327c8, 0xbf597fc7, 0xc6e00bf3, 0xd5a79147, 0x06ca6351, 0x14292967,
   0x27b70a85, 0x2e1b2138, 0x4d2c6dfc, 0x53380d13, 0x650a7354, 0x766a0abb, 0x81c2c92e, 0x92722c85,
   0xa2bfe8a1, 0xa81a664b, 0xc24b8b70, 0xc76c51a3, 0xd192e819, 0xd6990624, 0xf40e3585, 0x106aa070,
   0x19a4c116, 0x1e376c08, 0x2748774c, 0x34b0bcb5, 0x391c0cb3, 0x4ed8aa4a, 0x5b9cca4f, 0x682e6ff3,
   0x748f82ee, 0x78a5636f, 0x84c87814, 0x8cc70208, 0x90befffa, 0xa4506ceb, 0xbef9a3f7, 0xc67178f2]

/-! ## Compression -/

/-- The eight words carried from block to block. -/
structure State where
  a : UInt32
  b : UInt32
  c : UInt32
  d : UInt32
  e : UInt32
  f : UInt32
  g : UInt32
  h : UInt32

/-- The state before the first block. -/
def initial : State :=
  ⟨0x6a09e667, 0xbb67ae85, 0x3c6ef372, 0xa54ff53a, 0x510e527f, 0x9b05688c, 0x1f83d9ab, 0x5be0cd19⟩

/-- Wordwise sum. -/
def State.add (s t : State) : State :=
  ⟨s.a + t.a, s.b + t.b, s.c + t.c, s.d + t.d, s.e + t.e, s.f + t.f, s.g + t.g, s.h + t.h⟩

/-- One round, with its constant and its word of the schedule. -/
def round (k w : UInt32) (s : State) : State :=
  let t1 := s.h + bigSigma1 s.e + ch s.e s.f s.g + k + w
  let t2 := bigSigma0 s.a + maj s.a s.b s.c
  ⟨t1 + t2, s.a, s.b, s.c, s.d + t1, s.e, s.f, s.g⟩

/-- The word of the schedule that follows a window of sixteen. -/
def nextWord (w : List UInt32) : UInt32 :=
  sigma1 (w.getD 14 0) + w.getD 9 0 + sigma0 (w.getD 1 0) + w.getD 0 0

/-- The rounds with the listed constants, from a window of the schedule. -/
def rounds : List UInt32 → List UInt32 → State → State
  | [], _, s => s
  | k :: ks, w, s => rounds ks (w.tail ++ [nextWord w]) (round k (w.getD 0 0) s)

/-- The first `n` big-endian words of a byte string. -/
def words : ℕ → Bytes → List UInt32
  | 0, _ => []
  | n + 1, bs => UInt32.ofNat (beNat (bs.take 4)) :: words n (bs.drop 4)

/-- Compress one block of 64 bytes. -/
def compress (s : State) (block : Bytes) : State :=
  s.add (rounds roundConstants (words 16 block) s)

/-- Compress `n` blocks. -/
def compressBlocks : ℕ → Bytes → State → State
  | 0, _, s => s
  | n + 1, bs, s => compressBlocks n (bs.drop 64) (compress s (bs.take 64))

/-! ## Messages -/

/-- The message, the byte `0x80`, zeros up to a multiple of 64 bytes, and the length in bits. -/
def pad (msg : Bytes) : Bytes :=
  msg ++ 0x80 :: List.replicate ((119 - msg.length % 64) % 64) 0 ++ beBytes 8 (8 * msg.length)

/-- The words of a state in big-endian order. -/
def State.toBytes (s : State) : Bytes :=
  [s.a, s.b, s.c, s.d, s.e, s.f, s.g, s.h].flatMap fun w => beBytes 4 w.toNat

end Sha256

/-- The SHA-256 digest of a byte string. -/
@[irreducible] def sha256 (msg : Bytes) : Bytes :=
  let padded := Sha256.pad msg
  (Sha256.compressBlocks (padded.length / 64) padded Sha256.initial).toBytes

theorem length_sha256 (msg : Bytes) : (sha256 msg).length = 32 := by
  rw [sha256]
  simp [Sha256.State.toBytes, beBytes]

/-- The digest of `abc`. -/
example : sha256 [97, 98, 99] = beBytes 32
    0xba7816bf8f01cfea414140de5dae2223b00361a396177a9cb410ff61f20015ad := by
  decide +kernel

end Lib
