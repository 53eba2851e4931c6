/-
  Naitron.Lib.Sha256

  SHA-256 for messages of whole bytes, after FIPS 180-4, and HMAC, after
  RFC 2104.

  The constants are not tables: they are the first 32 bits of the fractional
  parts of the cube roots and square roots of the first primes, as the
  standard defines them.  The length field is the 64-bit block of the message
  length in bits, so for messages from 2^64 bits on, which the standard leaves
  out, it is its low end.
-/

import Mathlib.Data.Nat.NthRoot.Defs
import Mathlib.Data.Nat.Prime.Basic
import Naitron.Lib.Blocks

namespace Naitron.Lib.Sha256

-- ============================================================================
-- Functions and constants (sections 3 and 4)
-- ============================================================================

/-- `ROTR^n`. -/
def rotr (n x : UInt32) : UInt32 := x >>> n ||| x <<< (32 - n)

/-- `SHR^n`. -/
def shr (n x : UInt32) : UInt32 := x >>> n

def ch (x y z : UInt32) : UInt32 := (x &&& y) ^^^ (~~~x &&& z)

def maj (x y z : UInt32) : UInt32 := (x &&& y) ^^^ (x &&& z) ^^^ (y &&& z)

/-- The functions `Σ₀`, `Σ₁`. -/
def bigSigma0 (x : UInt32) : UInt32 := rotr 2 x ^^^ rotr 13 x ^^^ rotr 22 x

def bigSigma1 (x : UInt32) : UInt32 := rotr 6 x ^^^ rotr 11 x ^^^ rotr 25 x

/-- The functions `σ₀`, `σ₁`. -/
def smallSigma0 (x : UInt32) : UInt32 := rotr 7 x ^^^ rotr 18 x ^^^ shr 3 x

def smallSigma1 (x : UInt32) : UInt32 := rotr 17 x ^^^ rotr 19 x ^^^ shr 10 x

/-- The first 32 bits of the fractional part of the `d`-th root of `p`. -/
def fracRoot (d p : ℕ) : UInt32 := UInt32.ofNat (Nat.nthRoot d (p * 2 ^ (32 * d)))

/-- The first 64 primes. -/
def firstPrimes : List ℕ := (List.range 312).filter Nat.Prime

/-- The constants `K`, from cube roots. -/
def roundConstants : List UInt32 := firstPrimes.map (fracRoot 3)

-- ============================================================================
-- Preprocessing (section 5)
-- ============================================================================

/-- The number of zero bytes between the byte `0x80` and the length, for a
    message of `n` bytes. -/
def padZeros (n : ℕ) : ℕ := (119 - n % 64) % 64

/-- The 64-bit block of a number, most significant byte first. -/
def lengthField (l : ℕ) : List UInt8 :=
  (List.range 8).map fun i => UInt8.ofNat (l / 256 ^ (7 - i))

/-- The padded message. -/
def pad (msg : List UInt8) : List UInt8 :=
  msg ++ 0x80 :: (List.replicate (padZeros msg.length) 0 ++ lengthField (8 * msg.length))

/-- Eight words: a hash value, or the working variables. -/
structure Words where
  (a b c d e f g h : UInt32)
deriving DecidableEq

/-- Eight words in order. -/
def Words.ofList (ws : List UInt32) : Words :=
  ⟨ws.getD 0 0, ws.getD 1 0, ws.getD 2 0, ws.getD 3 0, ws.getD 4 0, ws.getD 5 0, ws.getD 6 0,
    ws.getD 7 0⟩

/-- `H⁽⁰⁾`, from square roots. -/
def initialHash : Words := .ofList ((firstPrimes.take 8).map (fracRoot 2))

-- ============================================================================
-- Computation (section 6.2)
-- ============================================================================

/-- The `t`-th word of a block, its first byte the most significant. -/
def wordAt (block : List UInt8) (t : ℕ) : UInt32 :=
  ⟨(block.getD (4 * t) 0).toBitVec ++ (block.getD (4 * t + 1) 0).toBitVec
    ++ (block.getD (4 * t + 2) 0).toBitVec ++ (block.getD (4 * t + 3) 0).toBitVec⟩

/-- The message schedule `W_t`. -/
def schedule (block : List UInt8) (t : ℕ) : UInt32 :=
  if t < 16 then wordAt block t
  else
    smallSigma1 (schedule block (t - 2)) + schedule block (t - 7)
      + smallSigma0 (schedule block (t - 15)) + schedule block (t - 16)

/-- One round, with `K_t` and `W_t`. -/
def round (v : Words) (k w : UInt32) : Words :=
  let t₁ := v.h + bigSigma1 v.e + ch v.e v.f v.g + k + w
  let t₂ := bigSigma0 v.a + maj v.a v.b v.c
  ⟨t₁ + t₂, v.a, v.b, v.c, v.d + t₁, v.e, v.f, v.g⟩

/-- The hash value after a block. -/
def compress (H : Words) (block : List UInt8) : Words :=
  let v := (List.range 64).foldl
    (fun v t => round v (roundConstants.getD t 0) (schedule block t)) H
  ⟨H.a + v.a, H.b + v.b, H.c + v.c, H.d + v.d, H.e + v.e, H.f + v.f, H.g + v.g, H.h + v.h⟩

/-- The bytes of a word, most significant first. -/
def wordBytes (w : UInt32) : List UInt8 :=
  [⟨w.toBitVec.extractLsb' 24 8⟩, ⟨w.toBitVec.extractLsb' 16 8⟩, ⟨w.toBitVec.extractLsb' 8 8⟩,
    ⟨w.toBitVec.extractLsb' 0 8⟩]

/-- The bytes of a hash value. -/
def Words.bytes (H : Words) : List UInt8 :=
  [H.a, H.b, H.c, H.d, H.e, H.f, H.g, H.h].flatMap wordBytes

/-- The message digest. -/
def sha256 (msg : List UInt8) : List UInt8 :=
  ((blocks 64 (pad msg)).foldl compress initialHash).bytes

/-- The zeros fill up to eight bytes before the end of a block, and no fewer
    do. -/
theorem padZeros_least (n : ℕ) :
    (n + 1 + padZeros n) % 64 = 56 ∧ ∀ z, (n + 1 + z) % 64 = 56 → padZeros n ≤ z := by
  rw [padZeros]
  constructor
  · omega
  · intro z hz
    omega

end Naitron.Lib.Sha256

namespace Naitron.Lib

/-- HMAC over a hash function with blocks of `n` bytes, RFC 2104: a key longer
    than a block is hashed first. -/
def hmac (hash : List UInt8 → List UInt8) (n : ℕ) (key text : List UInt8) : List UInt8 :=
  let k := if n < key.length then hash key else key
  let k := k ++ List.replicate (n - k.length) 0
  hash (k.map (· ^^^ 0x5c) ++ hash (k.map (· ^^^ 0x36) ++ text))

end Naitron.Lib
