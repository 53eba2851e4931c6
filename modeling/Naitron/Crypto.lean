/-
  Naitron.Crypto

  `src/common/crypto.c`: SHA-256, HMAC-SHA256 and base64url.

  Words are `UInt32`, so `+`, `<<` and `>>` wrap as in C.  `sha_update` copies
  its input into the block buffer in pieces and compresses the buffer when it
  is full; here the bytes go in one at a time.
-/

import Naitron.Bytes

namespace Naitron

-- ============================================================================
-- SHA-256
-- ============================================================================

/-- The round constants `K`. -/
def shaK : List UInt32 :=
  [0x428a2f98, 0x71374491, 0xb5c0fbcf, 0xe9b5dba5, 0x3956c25b, 0x59f111f1, 0x923f82a4, 0xab1c5ed5,
    0xd807aa98, 0x12835b01, 0x243185be, 0x550c7dc3, 0x72be5d74, 0x80deb1fe, 0x9bdc06a7, 0xc19bf174,
    0xe49b69c1, 0xefbe4786, 0x0fc19dc6, 0x240ca1cc, 0x2de92c6f, 0x4a7484aa, 0x5cb0a9dc, 0x76f988da,
    0x983e5152, 0xa831c66d, 0xb00327c8, 0xbf597fc7, 0xc6e00bf3, 0xd5a79147, 0x06ca6351, 0x14292967,
    0x27b70a85, 0x2e1b2138, 0x4d2c6dfc, 0x53380d13, 0x650a7354, 0x766a0abb, 0x81c2c92e, 0x92722c85,
    0xa2bfe8a1, 0xa81a664b, 0xc24b8b70, 0xc76c51a3, 0xd192e819, 0xd6990624, 0xf40e3585, 0x106aa070,
    0x19a4c116, 0x1e376c08, 0x2748774c, 0x34b0bcb5, 0x391c0cb3, 0x4ed8aa4a, 0x5b9cca4f, 0x682e6ff3,
    0x748f82ee, 0x78a5636f, 0x84c87814, 0x8cc70208, 0x90befffa, 0xa4506ceb, 0xbef9a3f7, 0xc67178f2]

/-- Eight words: the chaining value `h[8]`, or the variables `a` .. `h` of
    `sha_block`. -/
structure ShaWords where
  (a b c d e f g h : UInt32)
deriving DecidableEq, Repr

/-- `sha_ctx`; `n` is the length of `buf`. -/
structure ShaCtx where
  h : ShaWords
  total : UInt64
  buf : Bytes
deriving DecidableEq, Repr

def rotr (x n : UInt32) : UInt32 := x >>> n ||| x <<< (32 - n)

/-- `sha_init`. -/
def shaInit : ShaCtx where
  h := ⟨0x6a09e667, 0xbb67ae85, 0x3c6ef372, 0xa54ff53a, 0x510e527f, 0x9b05688c, 0x1f83d9ab,
    0x5be0cd19⟩
  total := 0
  buf := []

/-- The big-endian words of a block. -/
def shaLoad : Bytes → List UInt32
  | p₀ :: p₁ :: p₂ :: p₃ :: p =>
      (p₀.toUInt32 <<< 24 ||| p₁.toUInt32 <<< 16 ||| p₂.toUInt32 <<< 8 ||| p₃.toUInt32) :: shaLoad p
  | _ => []

/-- One more word `w[i]`, from the words before it, the last one first. -/
def shaExtend (w : List UInt32) : List UInt32 :=
  let w₂ := w.getD 1 0
  let w₇ := w.getD 6 0
  let w₁₅ := w.getD 14 0
  let w₁₆ := w.getD 15 0
  let s₀ := rotr w₁₅ 7 ^^^ rotr w₁₅ 18 ^^^ w₁₅ >>> 3
  let s₁ := rotr w₂ 17 ^^^ rotr w₂ 19 ^^^ w₂ >>> 10
  (w₁₆ + s₀ + w₇ + s₁) :: w

/-- The message schedule `w[64]`. -/
def shaSchedule (block : Bytes) : List UInt32 :=
  (shaExtend^[48] (shaLoad block).reverse).reverse

/-- One round of `sha_block`. -/
def shaRound (v : ShaWords) (kw : UInt32 × UInt32) : ShaWords :=
  let S₁ := rotr v.e 6 ^^^ rotr v.e 11 ^^^ rotr v.e 25
  let ch := (v.e &&& v.f) ^^^ (~~~v.e &&& v.g)
  let t₁ := v.h + S₁ + ch + kw.1 + kw.2
  let S₀ := rotr v.a 2 ^^^ rotr v.a 13 ^^^ rotr v.a 22
  let maj := (v.a &&& v.b) ^^^ (v.a &&& v.c) ^^^ (v.b &&& v.c)
  let t₂ := S₀ + maj
  ⟨t₁ + t₂, v.a, v.b, v.c, v.d + t₁, v.e, v.f, v.g⟩

/-- `sha_block`. -/
def shaBlock (h : ShaWords) (block : Bytes) : ShaWords :=
  let v := (shaK.zip (shaSchedule block)).foldl shaRound h
  ⟨h.a + v.a, h.b + v.b, h.c + v.c, h.d + v.d, h.e + v.e, h.f + v.f, h.g + v.g, h.h + v.h⟩

/-- One byte of `sha_update`. -/
def shaPush (c : ShaCtx) (b : UInt8) : ShaCtx :=
  let buf := c.buf ++ [b]
  if buf.length = 64 then { h := shaBlock c.h buf, total := c.total + 1, buf := [] }
  else { c with total := c.total + 1, buf }

/-- `sha_update`. -/
def shaUpdate (c : ShaCtx) (p : Bytes) : ShaCtx := p.foldl shaPush c

/-- The zero padding of `sha_final`: a block is full after 64 bytes at most. -/
def shaPad : Nat → ShaCtx → ShaCtx
  | 0, c => c
  | fuel + 1, c => if c.buf.length ≠ 56 then shaPad fuel (shaPush c 0) else c

/-- The bytes of a word, most significant first. -/
def wordBytes (w : UInt32) : Bytes :=
  [(w >>> 24).toUInt8, (w >>> 16).toUInt8, (w >>> 8).toUInt8, w.toUInt8]

/-- The bit count at the end of the last block. -/
def lengthBytes (bits : UInt64) : Bytes :=
  ([56, 48, 40, 32, 24, 16, 8, 0] : List UInt64).map fun n => (bits >>> n).toUInt8

/-- `sha_final`. -/
def shaFinal (c : ShaCtx) : Bytes :=
  let bits := c.total * 8
  let c := shaPad 64 (shaPush c 0x80)
  let h := (shaUpdate c (lengthBytes bits)).h
  [h.a, h.b, h.c, h.d, h.e, h.f, h.g, h.h].flatMap wordBytes

/-- `ntc_sha256`. -/
def ntcSha256 (data : Bytes) : Bytes := shaFinal (shaUpdate shaInit data)

/-- The key of `ntc_hmac_sha256`, filled up to a block. -/
def hmacKey (key : Bytes) : Bytes :=
  let k := if 64 < key.length then ntcSha256 key else key
  k ++ List.replicate (64 - k.length) 0

/-- `ntc_hmac_sha256`. -/
def ntcHmacSha256 (key msg : Bytes) : Bytes :=
  let ipad := (hmacKey key).map (· ^^^ 0x36)
  let opad := (hmacKey key).map (· ^^^ 0x5c)
  let inner := shaFinal (shaUpdate (shaUpdate shaInit ipad) msg)
  shaFinal (shaUpdate (shaUpdate shaInit opad) inner)

theorem shaFinal_length (c : ShaCtx) : (shaFinal c).length = 32 := rfl

-- FIPS 180-4, "abc"
example : (ntcSha256 (lit "abc")).take 4 = [0xba, 0x78, 0x16, 0xbf] := by decide +kernel

-- ============================================================================
-- base64url
-- ============================================================================

/-- The alphabet `B64U`. -/
def b64u : Bytes := lit "ABCDEFGHIJKLMNOPQRSTUVWXYZabcdefghijklmnopqrstuvwxyz0123456789-_"

/-- The character `B64U[(n >> (18 - 6 * j)) & 0x3f]`. -/
def b64Char (n : UInt32) (j : Nat) : UInt8 :=
  b64u.getD ((n >>> UInt32.ofNat (18 - 6 * j)) &&& 0x3f).toNat 0

/-- Groups of three bytes, four characters each; a shorter group at the end
    has one character more than bytes. -/
def base64url : Bytes → Bytes
  | [] => []
  | [a] => (List.range 2).map (b64Char (a.toUInt32 <<< 16))
  | [a, b] => (List.range 3).map (b64Char (a.toUInt32 <<< 16 ||| b.toUInt32 <<< 8))
  | a :: b :: c :: rest =>
      (List.range 4).map (b64Char (a.toUInt32 <<< 16 ||| b.toUInt32 <<< 8 ||| c.toUInt32))
        ++ base64url rest

/-- `ntc_base64url_encode`: `none` for -1, when there is no room for the
    characters and a NUL. -/
def ntcBase64urlEncode (inp : Bytes) (cap : Nat) : Option Bytes :=
  if (base64url inp).length < cap then some (base64url inp) else none

/-- `b64val`. -/
def b64val (c : UInt8) : Option UInt32 :=
  if 65 ≤ c ∧ c ≤ 90 then some (c - 65).toUInt32
  else if 97 ≤ c ∧ c ≤ 122 then some ((c - 97).toUInt32 + 26)
  else if 48 ≤ c ∧ c ≤ 57 then some ((c - 48).toUInt32 + 52)
  else if c = 45 then some 62
  else if c = 95 then some 63
  else none

/-- The loop of `ntc_base64url_decode`, with room for `room` more bytes. -/
def base64Loop : Bytes → UInt32 → UInt32 → Nat → Option Bytes
  | [], _, _, _ => some []
  | c :: s, acc, bits, room =>
      match b64val c with
      | none => none
      | some v =>
          let acc := acc <<< 6 ||| v
          let bits := bits + 6
          if 8 ≤ bits then
            match room with
            | 0 => none
            | room + 1 =>
                (base64Loop s acc (bits - 8) room).map fun out =>
                  (acc >>> (bits - 8) &&& 0xff).toUInt8 :: out
          else base64Loop s acc bits room

/-- `ntc_base64url_decode`: `none` for -1. -/
def ntcBase64urlDecode (inp : Bytes) (cap : Nat) : Option Bytes := base64Loop inp 0 0 cap

theorem base64url_length_32 {s : Bytes} (h : s.length = 32) : (base64url s).length = 43 := by
  iterate 32 (rcases s with _ | ⟨_, s⟩; · cases h)
  rcases s with _ | ⟨_, s⟩
  · rfl
  · simp at h

/-- The code of an HMAC fits the buffer `macb64`. -/
theorem ntcBase64urlEncode_hmac (key msg : Bytes) :
    ntcBase64urlEncode (ntcHmacSha256 key msg) 64 = some (base64url (ntcHmacSha256 key msg)) := by
  have hlen : (base64url (ntcHmacSha256 key msg)).length = 43 :=
    base64url_length_32 (shaFinal_length _)
  rw [ntcBase64urlEncode, if_pos (by omega)]

end Naitron
