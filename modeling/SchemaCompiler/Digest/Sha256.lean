/-!
# SHA-256

The digest of a byte string. The padded message is cut into blocks of sixteen words; each block is
extended to a schedule of sixty-four words, which a compression step mixes into eight chaining words.
-/

namespace SchemaCompiler

namespace Sha256

/-! ## Constants -/

/-- The chaining words before the first block. -/
def initial : List UInt32 :=
  [0x6a09e667, 0xbb67ae85, 0x3c6ef372, 0xa54ff53a, 0x510e527f, 0x9b05688c, 0x1f83d9ab, 0x5be0cd19]

/-- The constant of each round. -/
def roundConstants : List UInt32 :=
  [0x428a2f98, 0x71374491, 0xb5c0fbcf, 0xe9b5dba5, 0x3956c25b, 0x59f111f1, 0x923f82a4, 0xab1c5ed5,
    0xd807aa98, 0x12835b01, 0x243185be, 0x550c7dc3, 0x72be5d74, 0x80deb1fe, 0x9bdc06a7, 0xc19bf174,
    0xe49b69c1, 0xefbe4786, 0x0fc19dc6, 0x240ca1cc, 0x2de92c6f, 0x4a7484aa, 0x5cb0a9dc, 0x76f988da,
    0x983e5152, 0xa831c66d, 0xb00327c8, 0xbf597fc7, 0xc6e00bf3, 0xd5a79147, 0x06ca6351, 0x14292967,
    0x27b70a85, 0x2e1b2138, 0x4d2c6dfc, 0x53380d13, 0x650a7354, 0x766a0abb, 0x81c2c92e, 0x92722c85,
    0xa2bfe8a1, 0xa81a664b, 0xc24b8b70, 0xc76c51a3, 0xd192e819, 0xd6990624, 0xf40e3585, 0x106aa070,
    0x19a4c116, 0x1e376c08, 0x2748774c, 0x34b0bcb5, 0x391c0cb3, 0x4ed8aa4a, 0x5b9cca4f, 0x682e6ff3,
    0x748f82ee, 0x78a5636f, 0x84c87814, 0x8cc70208, 0x90befffa, 0xa4506ceb, 0xbef9a3f7, 0xc67178f2]

/-! ## Padding -/

/-- The big-endian bytes of a number, in a given count. -/
def bigEndian (n : Nat) : (count : Nat) → List UInt8
  | 0 => []
  | count + 1 => bigEndian (n / 256) count ++ [UInt8.ofNat (n % 256)]

/-- The message with a one bit, zeros up to a multiple of 64 bytes, and its length in bits. -/
def pad (message : List UInt8) : List UInt8 :=
  let zeros := (119 - message.length % 64) % 64
  message ++ 0x80 :: (List.replicate zeros 0 ++ bigEndian (8 * message.length) 8)

/-- The big-endian words that bytes form. -/
def words : List UInt8 → List UInt32
  | a :: b :: c :: d :: rest =>
    (a.toUInt32 <<< 24 ||| b.toUInt32 <<< 16 ||| c.toUInt32 <<< 8 ||| d.toUInt32) :: words rest
  | _ => []

/-! ## Rounds -/

def rotateRight (x : UInt32) (n : UInt32) : UInt32 :=
  x >>> n ||| x <<< (32 - n)

/-- Extends a schedule, given with its last word in front, by so many words. -/
def extend : (count : Nat) → List UInt32 → List UInt32
  | 0, w => w
  | count + 1, w =>
    let word (back : Nat) : UInt32 := w.getD (back - 1) 0
    let s0 := rotateRight (word 15) 7 ^^^ rotateRight (word 15) 18 ^^^ word 15 >>> 3
    let s1 := rotateRight (word 2) 17 ^^^ rotateRight (word 2) 19 ^^^ word 2 >>> 10
    extend count ((word 16 + s0 + word 7 + s1) :: w)

/-- The schedule of a block. -/
def schedule (block : List UInt32) : List UInt32 :=
  (extend 48 block.reverse).reverse

/-- One round with the sum of its constant and its word of the schedule. -/
def round (state : List UInt32) (input : UInt32) : List UInt32 :=
  match state with
  | [a, b, c, d, e, f, g, h] =>
    let s1 := rotateRight e 6 ^^^ rotateRight e 11 ^^^ rotateRight e 25
    let choice := (e &&& f) ^^^ (~~~e &&& g)
    let t1 := h + s1 + choice + input
    let s0 := rotateRight a 2 ^^^ rotateRight a 13 ^^^ rotateRight a 22
    let majority := (a &&& b) ^^^ (a &&& c) ^^^ (b &&& c)
    [t1 + s0 + majority, a, b, c, d + t1, e, f, g]
  | _ => state

/-- Mixes a block into the chaining words. -/
def compress (chaining block : List UInt32) : List UInt32 :=
  let mixed := (List.zipWith (· + ·) roundConstants (schedule block)).foldl round chaining
  List.zipWith (· + ·) chaining mixed

/-- Mixes in as many blocks as words are left. -/
def absorb (chaining : List UInt32) (input : List UInt32) : List UInt32 :=
  match input with
  | [] => chaining
  | w :: rest => absorb (compress chaining (w :: rest.take 15)) (rest.drop 15)
termination_by input.length
decreasing_by
  simp only [List.length_drop, List.length_cons]
  omega

/-- The eight words of the digest. -/
def digest (message : List UInt8) : List UInt32 :=
  absorb initial (words (pad message))

/-! ## Text -/

/-- A word as eight hexadecimal digits in lower case. -/
def hexWord (w : UInt32) : List Char :=
  let digits := Nat.toDigits 16 w.toNat
  List.replicate (8 - digits.length) '0' ++ digits

/-- The digest as text. -/
def hex (message : List UInt8) : String :=
  String.ofList ((digest message).flatMap hexWord)

end Sha256

end SchemaCompiler
