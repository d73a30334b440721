import NexusEngine.TextEncodings

/-!
# SHA-256

The hash of `hashlib`, on lists of bytes. Words are numbers below `2 ^ 32`.
-/

namespace NexusEngine.Sha256

open TextEncodings

def rotr (n x : ℕ) : ℕ := x >>> n ||| x <<< (32 - n) % 0x100000000

def xor₃ (x y z : ℕ) : ℕ := x ^^^ y ^^^ z

/-- The working variables of a block. -/
structure Registers where
  a : ℕ
  b : ℕ
  c : ℕ
  d : ℕ
  e : ℕ
  f : ℕ
  g : ℕ
  h : ℕ

def initial : Registers :=
  ⟨0x6a09e667, 0xbb67ae85, 0x3c6ef372, 0xa54ff53a, 0x510e527f, 0x9b05688c, 0x1f83d9ab, 0x5be0cd19⟩

def constants : List ℕ := [
  0x428a2f98, 0x71374491, 0xb5c0fbcf, 0xe9b5dba5, 0x3956c25b, 0x59f111f1, 0x923f82a4, 0xab1c5ed5,
  0xd807aa98, 0x12835b01, 0x243185be, 0x550c7dc3, 0x72be5d74, 0x80deb1fe, 0x9bdc06a7, 0xc19bf174,
  0xe49b69c1, 0xefbe4786, 0x0fc19dc6, 0x240ca1cc, 0x2de92c6f, 0x4a7484aa, 0x5cb0a9dc, 0x76f988da,
  0x983e5152, 0xa831c66d, 0xb00327c8, 0xbf597fc7, 0xc6e00bf3, 0xd5a79147, 0x06ca6351, 0x14292967,
  0x27b70a85, 0x2e1b2138, 0x4d2c6dfc, 0x53380d13, 0x650a7354, 0x766a0abb, 0x81c2c92e, 0x92722c85,
  0xa2bfe8a1, 0xa81a664b, 0xc24b8b70, 0xc76c51a3, 0xd192e819, 0xd6990624, 0xf40e3585, 0x106aa070,
  0x19a4c116, 0x1e376c08, 0x2748774c, 0x34b0bcb5, 0x391c0cb3, 0x4ed8aa4a, 0x5b9cca4f, 0x682e6ff3,
  0x748f82ee, 0x78a5636f, 0x84c87814, 0x8cc70208, 0x90befffa, 0xa4506ceb, 0xbef9a3f7, 0xc67178f2]

/-- Sixteen consecutive words of the message schedule. -/
structure Schedule where
  w0 : ℕ
  w1 : ℕ
  w2 : ℕ
  w3 : ℕ
  w4 : ℕ
  w5 : ℕ
  w6 : ℕ
  w7 : ℕ
  w8 : ℕ
  w9 : ℕ
  w10 : ℕ
  w11 : ℕ
  w12 : ℕ
  w13 : ℕ
  w14 : ℕ
  w15 : ℕ

def schedule : List ℕ → Schedule
  | [w₀, w₁, w₂, w₃, w₄, w₅, w₆, w₇, w₈, w₉, w₁₀, w₁₁, w₁₂, w₁₃, w₁₄, w₁₅] =>
    ⟨w₀, w₁, w₂, w₃, w₄, w₅, w₆, w₇, w₈, w₉, w₁₀, w₁₁, w₁₂, w₁₃, w₁₄, w₁₅⟩
  | _ => ⟨0, 0, 0, 0, 0, 0, 0, 0, 0, 0, 0, 0, 0, 0, 0, 0⟩

def Schedule.next : Schedule → Schedule
  | ⟨w₀, w₁, w₂, w₃, w₄, w₅, w₆, w₇, w₈, w₉, w₁₀, w₁₁, w₁₂, w₁₃, w₁₄, w₁₅⟩ =>
    ⟨w₁, w₂, w₃, w₄, w₅, w₆, w₇, w₈, w₉, w₁₀, w₁₁, w₁₂, w₁₃, w₁₄, w₁₅,
      (w₀ + xor₃ (rotr 7 w₁) (rotr 18 w₁) (w₁ >>> 3) + w₉ +
        xor₃ (rotr 17 w₁₄) (rotr 19 w₁₄) (w₁₄ >>> 10)) % 0x100000000⟩

def Registers.round : Registers → ℕ → ℕ → Registers
  | ⟨a, b, c, d, e, f, g, h⟩, k, w =>
    let t₁ := h + xor₃ (rotr 6 e) (rotr 11 e) (rotr 25 e) +
      ((e &&& f) ^^^ ((0xffffffff - e) &&& g)) + k + w
    let t₂ := xor₃ (rotr 2 a) (rotr 13 a) (rotr 22 a) + xor₃ (a &&& b) (a &&& c) (b &&& c)
    ⟨(t₁ + t₂) % 0x100000000, a, b, c, (d + t₁) % 0x100000000, e, f, g⟩

/-- One round for each constant. -/
def rounds : List ℕ → Schedule → Registers → Registers
  | [], _, r => r
  | k :: ks, ws, r => rounds ks ws.next (r.round k ws.w0)

/-- The first `k` blocks of `n` bytes. -/
def blocks (n : ℕ) : ℕ → Bytes → List Bytes
  | 0, _ => []
  | k + 1, bs => bs.take n :: blocks n k (bs.drop n)

def fromBytes (bs : Bytes) : ℕ := bs.foldl (fun n b => n * 256 + b.toNat) 0

def toBytes (width n : ℕ) : Bytes :=
  (List.range width).map fun i => UInt8.ofNat (n >>> (8 * (width - 1 - i)) % 256)

def Registers.add (r r' : Registers) : Registers :=
  ⟨(r.a + r'.a) % 0x100000000, (r.b + r'.b) % 0x100000000, (r.c + r'.c) % 0x100000000,
    (r.d + r'.d) % 0x100000000, (r.e + r'.e) % 0x100000000, (r.f + r'.f) % 0x100000000,
    (r.g + r'.g) % 0x100000000, (r.h + r'.h) % 0x100000000⟩

def Registers.compress (r : Registers) (block : Bytes) : Registers :=
  r.add (rounds constants (schedule ((blocks 4 16 block).map fromBytes)) r)

/-- A one bit, zeros up to the last eight bytes of a block, and the length in bits. -/
def padMessage (bs : Bytes) : Bytes :=
  bs ++ 0x80 :: (List.replicate ((119 - bs.length % 64) % 64) 0 ++ toBytes 8 (8 * bs.length))

def sha256 (bs : Bytes) : Bytes :=
  let message := padMessage bs
  let r := (blocks 64 (message.length / 64) message).foldl Registers.compress initial
  [r.a, r.b, r.c, r.d, r.e, r.f, r.g, r.h].flatMap (toBytes 4)

example : hexdigest (sha256 (utf8 "abc".toList)) =
    "ba7816bf8f01cfea414140de5dae2223b00361a396177a9cb410ff61f20015ad" := by decide +kernel

theorem length_toBytes (width n : ℕ) : (toBytes width n).length = width := by
  rw [toBytes, List.length_map, List.length_range]

theorem length_sha256 (bs : Bytes) : (sha256 bs).length = 32 := by
  simp [sha256, length_toBytes]

end NexusEngine.Sha256
