/-
  Naitron.Base64

  The base64url codec of `src/common/crypto.c` with its capacities and its
  `int` results.

  `base64url` is the text; the encoder's loops, which check the capacity at
  every character, come to it or to -1.  The decoder keeps the bits it has not
  used in the low end of a 32-bit accumulator whose high end it lets overflow;
  what it reads back does not depend on it.
-/

import Naitron.Crypto

namespace Naitron

-- ============================================================================
-- The code
-- ============================================================================

/-- The inner loop of `ntc_base64url_encode` over the characters `js` of a
    group, with `out` written so far. -/
def b64PutGroup (n : UInt32) (cap : Nat) : List Nat → Bytes → Option Bytes
  | [], out => some out
  | j :: js, out =>
      if cap ≤ out.length + 1 then none else b64PutGroup n cap js (out ++ [b64Char n j])

/-- The outer loop of `ntc_base64url_encode`. -/
def b64Put (cap : Nat) : Bytes → Bytes → Option Bytes
  | [], out => some out
  | [a], out => b64PutGroup (a.toUInt32 <<< 16) cap (List.range 2) out
  | [a, b], out =>
      b64PutGroup (a.toUInt32 <<< 16 ||| b.toUInt32 <<< 8) cap (List.range 3) out
  | a :: b :: c :: rest, out =>
      (b64PutGroup (a.toUInt32 <<< 16 ||| b.toUInt32 <<< 8 ||| c.toUInt32) cap (List.range 4)
        out).bind (b64Put cap rest)

/-- The conversion `(int)o` of a `size_t`. -/
def toCInt (o : Nat) : Int :=
  if o % 2 ^ 32 < 2 ^ 31 then (o % 2 ^ 32 : Nat) else (o % 2 ^ 32 : Nat) - 2 ^ 32

/-- `ntc_base64url_encode`: its result and the characters before the NUL. -/
def ntcBase64urlEncodeInt (inp : Bytes) (cap : Nat) : Int × Bytes :=
  match b64Put cap inp [] with
  | none => (-1, [])
  | some out => if cap ≤ out.length then (-1, []) else (toCInt out.length, out)

/-- `ntc_base64url_decode`: its result and the bytes written. -/
def ntcBase64urlDecodeInt (inp : Bytes) (cap : Nat) : Int × Bytes :=
  match ntcBase64urlDecode inp cap with
  | none => (-1, [])
  | some out => (toCInt out.length, out)

-- ============================================================================
-- Encoding
-- ============================================================================

theorem b64PutGroup_eq (n : UInt32) (cap : Nat) :
    ∀ (js : List Nat) (out : Bytes),
      b64PutGroup n cap js out
        = if js = [] ∨ out.length + js.length < cap then some (out ++ js.map (b64Char n))
          else none := by
  intro js
  induction js with
  | nil =>
      intro out
      rw [b64PutGroup, if_pos (Or.inl rfl), List.map_nil, List.append_nil]
  | cons j js ih =>
      intro out
      rw [b64PutGroup]
      split_ifs with hfull hroom hroom
      · rcases hroom with h | h
        · cases h
        · rw [List.length_cons] at h
          omega
      · rfl
      · rw [ih, if_pos, List.append_assoc]
        · rfl
        · rcases hroom with h | h
          · cases h
          · right
            rw [List.length_append, List.length_singleton]
            rw [List.length_cons] at h
            omega
      · rw [ih, if_neg]
        intro h
        rw [List.length_append, List.length_singleton] at h
        rw [List.length_cons] at hroom
        rcases h with rfl | h
        · exact hroom (Or.inr (by rw [List.length_nil]; omega))
        · exact hroom (Or.inr (by omega))

theorem base64url_length (x : Bytes) : (base64url x).length = (4 * x.length + 2) / 3 := by
  induction x using base64url.induct with
  | case1 => rfl
  | case2 a =>
      rw [base64url, List.length_map, List.length_range, List.length_singleton]
  | case3 a b =>
      rw [base64url, List.length_map, List.length_range, List.length_cons, List.length_singleton]
  | case4 a b c rest ih =>
      rw [base64url, List.length_append, ih, List.length_map, List.length_range]
      simp only [List.length_cons]
      omega

/-- The encoder's loops write the text if it fits. -/
theorem b64Put_eq (cap : Nat) (x out : Bytes) :
    b64Put cap x out
      = if x = [] ∨ out.length + (base64url x).length < cap then some (out ++ base64url x)
        else none := by
  induction x using base64url.induct generalizing out with
  | case1 => rw [b64Put, if_pos (Or.inl rfl), base64url, List.append_nil]
  | case2 a =>
      rw [b64Put, b64PutGroup_eq, base64url, List.length_map]
      exact if_congr (by simp) rfl rfl
  | case3 a b =>
      rw [b64Put, b64PutGroup_eq, base64url, List.length_map]
      exact if_congr (by simp) rfl rfl
  | case4 a b c rest ih =>
      rw [b64Put, b64PutGroup_eq, base64url, List.length_append, List.length_map,
        List.length_range]
      by_cases hgroup : out.length + 4 < cap
      · rw [if_pos (Or.inr hgroup), Option.bind_some, ih, List.append_assoc, List.length_append,
          List.length_map, List.length_range]
        refine if_congr ?_ rfl rfl
        constructor
        · rintro (rfl | h)
          · exact Or.inr (by rw [base64url, List.length_nil]; omega)
          · exact Or.inr (by omega)
        · rintro (h | h)
          · cases h
          · exact Or.inr (by omega)
      · rw [if_neg, if_neg, Option.bind_none]
        · rintro (h | h)
          · cases h
          · omega
        · rintro (h | h)
          · cases h
          · exact hgroup h

/-- The encoder's result: the text and its length as an `int`, or -1. -/
theorem ntcBase64urlEncodeInt_eq (x : Bytes) (cap : Nat) :
    ntcBase64urlEncodeInt x cap
      = if (4 * x.length + 2) / 3 < cap then
          (toCInt ((4 * x.length + 2) / 3), base64url x)
        else (-1, []) := by
  rw [ntcBase64urlEncodeInt, b64Put_eq, List.length_nil, List.nil_append, Nat.zero_add,
    base64url_length]
  by_cases hfits : (4 * x.length + 2) / 3 < cap
  · rw [if_pos (Or.inr hfits), if_pos hfits]
    dsimp only
    rw [base64url_length, if_neg (by omega)]
  · rw [if_neg hfits]
    by_cases hx : x = []
    · rw [if_pos (Or.inl hx)]
      dsimp only
      rw [base64url_length, if_pos (by omega)]
    · rw [if_neg fun h => h.elim hx hfits]

/-- The encoder as the rest of the gateway is modelled with it. -/
theorem ntcBase64urlEncode_eq_int (x : Bytes) (cap : Nat) :
    ntcBase64urlEncode x cap
      = if (4 * x.length + 2) / 3 < cap then some (ntcBase64urlEncodeInt x cap).2 else none := by
  rw [ntcBase64urlEncode, base64url_length, ntcBase64urlEncodeInt_eq]
  split_ifs <;> rfl

-- ============================================================================
-- Decoding
-- ============================================================================

/-- The alphabet, read back. -/
theorem b64val_alphabet : ∀ v : Fin 64, b64val (b64u.getD v.val 0) = some (UInt32.ofNat v.val) := by
  decide +kernel

/-- A character of the alphabet is read back as the six bits it stands for. -/
theorem b64val_b64Char (n : UInt32) (j : Nat) :
    b64val (b64Char n j) = some (n >>> UInt32.ofNat (18 - 6 * j) &&& 0x3f) := by
  have hlt : (n >>> UInt32.ofNat (18 - 6 * j) &&& 0x3f).toNat < 64 := by
    rw [UInt32.toNat_and]
    exact Nat.lt_of_le_of_lt Nat.and_le_right (by decide)
  have hread := b64val_alphabet ⟨_, hlt⟩
  rw [b64Char, hread]
  exact congrArg some UInt32.ofNat_toNat

theorem b64Char_mem (n : UInt32) (j : Nat) : b64Char n j ∈ b64u := by
  have hlt : (n >>> UInt32.ofNat (18 - 6 * j) &&& 0x3f).toNat < b64u.length := by
    rw [UInt32.toNat_and]
    exact Nat.lt_of_le_of_lt Nat.and_le_right (by decide)
  rw [b64Char, List.getD_eq_getElem?_getD, List.getElem?_eq_getElem hlt, Option.getD_some]
  exact List.getElem_mem hlt

/-- The text consists of characters of the alphabet. -/
theorem base64url_mem (x : Bytes) : ∀ c ∈ base64url x, c ∈ b64u := by
  have hgroup : ∀ (n : UInt32) (js : List Nat), ∀ c ∈ js.map (b64Char n), c ∈ b64u := by
    intro n js c hc
    obtain ⟨j, _, rfl⟩ := List.mem_map.mp hc
    exact b64Char_mem n j
  induction x using base64url.induct with
  | case1 => exact fun c hc => absurd hc List.not_mem_nil
  | case2 a => exact hgroup _ _
  | case3 a b => exact hgroup _ _
  | case4 a b c rest ih =>
      intro ch hch
      rw [base64url, List.mem_append] at hch
      rcases hch with hch | hch
      · exact hgroup _ _ ch hch
      · exact ih ch hch

/-- A character that fills no byte. -/
theorem base64Loop_keep {c : UInt8} {v : UInt32} (h : b64val c = some v) (s : Bytes)
    (acc : UInt32) (room : Nat) :
    base64Loop (c :: s) acc 0 room = base64Loop s (acc <<< 6 ||| v) 6 room := by
  rw [base64Loop, h]
  rfl

/-- A character that fills a byte. -/
theorem base64Loop_emit {c : UInt8} {v : UInt32} (h : b64val c = some v) (s : Bytes)
    (acc bits : UInt32) (room : Nat) (hbits : 8 ≤ bits + 6) :
    base64Loop (c :: s) acc bits (room + 1)
      = (base64Loop s (acc <<< 6 ||| v) (bits + 6 - 8) room).map fun out =>
          ((acc <<< 6 ||| v) >>> (bits + 6 - 8) &&& 0xff).toUInt8 :: out := by
  rw [base64Loop, h]
  dsimp only
  rw [if_pos hbits]

section Bits

variable (acc : UInt32) (a b c : UInt8)

/-- The bits of a group of three bytes. -/
abbrev groupBits : UInt32 := a.toUInt32 <<< 16 ||| b.toUInt32 <<< 8 ||| c.toUInt32

/-- The first byte of a group, from two characters. -/
theorem groupBits_first :
    (((acc <<< 6 ||| groupBits a b c >>> 18 &&& 0x3f) <<< 6
        ||| groupBits a b c >>> 12 &&& 0x3f) >>> 4 &&& 0xff).toUInt8 = a := by
  apply UInt8.eq_of_toBitVec_eq
  apply BitVec.eq_of_getLsbD_eq
  intro i hi
  simp only [groupBits]
  simp
  interval_cases i <;> simp

/-- The second byte, from three. -/
theorem groupBits_second :
    ((((acc <<< 6 ||| groupBits a b c >>> 12 &&& 0x3f)) <<< 6
        ||| groupBits a b c >>> 6 &&& 0x3f) >>> 2 &&& 0xff).toUInt8 = b := by
  apply UInt8.eq_of_toBitVec_eq
  apply BitVec.eq_of_getLsbD_eq
  intro i hi
  simp only [groupBits]
  simp
  interval_cases i <;> simp

/-- The third byte, from the last two. -/
theorem groupBits_third :
    (((acc <<< 6 ||| groupBits a b c >>> 6 &&& 0x3f) <<< 6
        ||| groupBits a b c >>> 0 &&& 0x3f) >>> 0 &&& 0xff).toUInt8 = c := by
  apply UInt8.eq_of_toBitVec_eq
  apply BitVec.eq_of_getLsbD_eq
  intro i hi
  simp only [groupBits]
  simp
  interval_cases i <;> simp

theorem groupBits_one : a.toUInt32 <<< 16 = groupBits a 0 0 := by
  simp [groupBits]

theorem groupBits_two : a.toUInt32 <<< 16 ||| b.toUInt32 <<< 8 = groupBits a b 0 := by
  simp [groupBits]

variable (room : Nat) (s : Bytes)

/-- Two characters give a byte back. -/
theorem base64Loop_first :
    ∃ acc' : UInt32, base64Loop (b64Char (groupBits a b c) 0 :: b64Char (groupBits a b c) 1 :: s) acc 0
        (room + 1)
      = (base64Loop s (acc' <<< 6 ||| groupBits a b c >>> 12 &&& 0x3f) 4 room).map (a :: ·) := by
  refine ⟨acc <<< 6 ||| groupBits a b c >>> 18 &&& 0x3f, ?_⟩
  rw [base64Loop_keep (b64val_b64Char _ 0),
    base64Loop_emit (b64val_b64Char _ 1) s _ 6 room (by decide)]
  exact congrArg (fun byte => Option.map (byte :: ·) _) (groupBits_first acc a b c)

/-- A third character gives the second byte back. -/
theorem base64Loop_second :
    base64Loop (b64Char (groupBits a b c) 2 :: s) (acc <<< 6 ||| groupBits a b c >>> 12 &&& 0x3f) 4
        (room + 1)
      = (base64Loop s ((acc <<< 6 ||| groupBits a b c >>> 12 &&& 0x3f) <<< 6
          ||| groupBits a b c >>> 6 &&& 0x3f) 2 room).map (b :: ·) := by
  rw [base64Loop_emit (b64val_b64Char _ 2) s _ 4 room (by decide)]
  exact congrArg (fun byte => Option.map (byte :: ·) _) (groupBits_second acc a b c)

/-- A fourth character gives the third byte back. -/
theorem base64Loop_third :
    ∃ acc' : UInt32, base64Loop (b64Char (groupBits a b c) 3 :: s)
        (acc <<< 6 ||| groupBits a b c >>> 6 &&& 0x3f) 2 (room + 1)
      = (base64Loop s acc' 0 room).map (c :: ·) := by
  refine ⟨(acc <<< 6 ||| groupBits a b c >>> 6 &&& 0x3f) <<< 6
    ||| groupBits a b c >>> 0 &&& 0x3f, ?_⟩
  rw [base64Loop_emit (b64val_b64Char _ 3) s _ 2 room (by decide)]
  exact congrArg (fun byte => Option.map (byte :: ·) _) (groupBits_third acc a b c)

end Bits

/-- The text is decoded to what it was made from, whatever is left in the
    accumulator. -/
theorem base64Loop_base64url (x : Bytes) :
    ∀ (acc : UInt32) (room : Nat), x.length ≤ room →
      base64Loop (base64url x) acc 0 room = some x := by
  induction x using base64url.induct with
  | case1 =>
      intro acc room _
      rfl
  | case2 a =>
      intro acc room hroom
      obtain ⟨room, rfl⟩ := Nat.exists_eq_add_of_le' hroom
      rw [base64url, groupBits_one]
      obtain ⟨acc₁, h₁⟩ := base64Loop_first acc a 0 0 room []
      exact h₁
  | case3 a b =>
      intro acc room hroom
      obtain ⟨room, rfl⟩ := Nat.exists_eq_add_of_le' hroom
      rw [base64url, groupBits_two]
      obtain ⟨acc₁, h₁⟩ := base64Loop_first acc a b 0 (room + 1) [b64Char (groupBits a b 0) 2]
      rw [base64Loop_second] at h₁
      exact h₁
  | case4 a b c rest ih =>
      intro acc room hroom
      rw [List.length_cons, List.length_cons, List.length_cons] at hroom
      obtain ⟨room, rfl⟩ : ∃ r, room = r + 3 := ⟨room - 3, by omega⟩
      rw [base64url]
      obtain ⟨acc₁, h₁⟩ := base64Loop_first acc a b c (room + 2)
        (b64Char (groupBits a b c) 2 :: b64Char (groupBits a b c) 3 :: base64url rest)
      obtain ⟨acc₂, h₂⟩ := base64Loop_third
        (acc₁ <<< 6 ||| groupBits a b c >>> 12 &&& 0x3f) a b c room (base64url rest)
      rw [base64Loop_second, h₂, ih acc₂ room (by omega)] at h₁
      exact h₁

/-- The bits the accumulator holds between two characters. -/
def PendingBits (bits : UInt32) : Prop := bits = 0 ∨ bits = 2 ∨ bits = 4 ∨ bits = 6

/-- With bits pending a character fills a byte and leaves two bits less. -/
theorem PendingBits.next {bits : UInt32} (h : PendingBits bits) (hne : bits ≠ 0) :
    8 ≤ bits + 6 ∧ PendingBits (bits + 6 - 8) ∧ (bits + 6 - 8).toNat + 2 = bits.toNat := by
  rcases h with rfl | rfl | rfl | rfl
  · exact absurd rfl hne
  · exact ⟨by decide, Or.inl rfl, rfl⟩
  · exact ⟨by decide, Or.inr (Or.inl rfl), rfl⟩
  · exact ⟨by decide, Or.inr (Or.inr (Or.inl rfl)), rfl⟩

/-- A character that finds no room. -/
theorem base64Loop_full {c : UInt8} {v : UInt32} (h : b64val c = some v) (s : Bytes)
    (acc bits : UInt32) (hbits : 8 ≤ bits + 6) : base64Loop (c :: s) acc bits 0 = none := by
  rw [base64Loop, h]
  dsimp only
  rw [if_pos hbits]

/-- The decoder fails at a character outside the alphabet or where the bytes
    do not fit, and else writes eight bits a byte. -/
theorem base64Loop_length (s : Bytes) :
    ∀ (acc bits : UInt32) (room : Nat), PendingBits bits →
      (base64Loop s acc bits room = none ↔
        (∃ c ∈ s, b64val c = none) ∨ room < (6 * s.length + bits.toNat) / 8) ∧
      ∀ out ∈ base64Loop s acc bits room, out.length = (6 * s.length + bits.toNat) / 8 := by
  induction s with
  | nil =>
      intro acc bits room hbits
      have hzero : (6 * ([] : Bytes).length + bits.toNat) / 8 = 0 := by
        rcases hbits with rfl | rfl | rfl | rfl <;> rfl
      rw [base64Loop, hzero]
      refine ⟨iff_of_false (Option.some_ne_none _) ?_, ?_⟩
      · rintro (⟨c, hc, _⟩ | h)
        · exact List.not_mem_nil hc
        · exact Nat.not_lt_zero _ h
      · intro out hout
        rw [← Option.some.inj hout]
        rfl
  | cons c s ih =>
      intro acc bits room hbits
      cases hc : b64val c with
      | none =>
          have hfail : base64Loop (c :: s) acc bits room = none := by
            rw [base64Loop, hc]
          rw [hfail]
          exact ⟨iff_of_true rfl (Or.inl ⟨c, List.mem_cons_self, hc⟩),
            fun out hout => absurd hout (Option.not_mem_none out)⟩
      | some v =>
          have hbad : (∃ c' ∈ c :: s, b64val c' = none) ↔ ∃ c' ∈ s, b64val c' = none := by
            rw [List.exists_mem_cons_iff, hc]
            exact or_iff_right (Option.some_ne_none v)
          rw [hbad, List.length_cons]
          by_cases hzero : bits = 0
          · have hkeep := ih (acc <<< 6 ||| v) 6 room (Or.inr (Or.inr (Or.inr rfl)))
            have hsum : 6 * s.length + (6 : UInt32).toNat = 6 * (s.length + 1) + bits.toNat := by
              rw [hzero]
              show 6 * s.length + 6 = 6 * (s.length + 1) + 0
              omega
            rw [hsum] at hkeep
            rw [hzero, base64Loop_keep hc, ← hzero]
            exact hkeep
          · obtain ⟨hfills, hpending, hless⟩ := hbits.next hzero
            cases room with
            | zero =>
                rw [base64Loop_full hc s acc bits hfills]
                exact ⟨iff_of_true rfl (Or.inr (by omega)),
                  fun out hout => absurd hout (Option.not_mem_none out)⟩
            | succ room =>
                obtain ⟨hnone, hlength⟩ := ih (acc <<< 6 ||| v) (bits + 6 - 8) room hpending
                have hsum : (6 * (s.length + 1) + bits.toNat) / 8
                    = (6 * s.length + (bits + 6 - 8).toNat) / 8 + 1 := by omega
                rw [base64Loop_emit hc s acc bits room hfills, Option.map_eq_none_iff, hnone, hsum,
                  Nat.succ_lt_succ_iff]
                refine ⟨Iff.rfl, fun out hout => ?_⟩
                obtain ⟨rest, hrest, rfl⟩ := Option.map_eq_some_iff.mp hout
                rw [List.length_cons, hlength rest hrest]

/-- What the decoder does with any text. -/
theorem ntcBase64urlDecode_length (s : Bytes) (cap : Nat) :
    (ntcBase64urlDecode s cap = none ↔ (∃ c ∈ s, b64val c = none) ∨ cap < 6 * s.length / 8) ∧
      ∀ out ∈ ntcBase64urlDecode s cap, out.length = 6 * s.length / 8 := by
  have hloop := base64Loop_length s 0 0 cap (Or.inl rfl)
  exact hloop

-- ============================================================================
-- The codec
-- ============================================================================

/-- An `int` is not negative exactly below 2^31. -/
theorem toCInt_nonneg_iff (o : Nat) : 0 ≤ toCInt o ↔ o % 2 ^ 32 < 2 ^ 31 := by
  rw [toCInt]
  split_ifs <;> omega

theorem toCInt_of_lt {o : Nat} (h : o < 2 ^ 31) : toCInt o = o := by
  rw [toCInt]
  split_ifs <;> omega

/-- The encoder succeeds exactly if the text and a NUL fit, and then gives the
    text without padding, which decodes to the bytes. -/
def EncodeLaw (x : Bytes) (cap : Nat) : Prop :=
  (0 ≤ (ntcBase64urlEncodeInt x cap).1 ↔ (4 * x.length + 2) / 3 < cap) ∧
    ((4 * x.length + 2) / 3 < cap →
      (ntcBase64urlEncodeInt x cap).1 = ((4 * x.length + 2) / 3 : Nat) ∧
      (ntcBase64urlEncodeInt x cap).2.length = (4 * x.length + 2) / 3 ∧
      (∀ c ∈ (ntcBase64urlEncodeInt x cap).2, c ∈ b64u) ∧
      ∀ room, x.length ≤ room →
        ntcBase64urlDecodeInt (ntcBase64urlEncodeInt x cap).2 room
          = ((x.length : Int), x))

/-- The decoder fails exactly at a character outside the alphabet or where the
    bytes do not fit. -/
def DecodeLaw (s : Bytes) (cap : Nat) : Prop :=
  (ntcBase64urlDecodeInt s cap).1 < 0 ↔ (∃ c ∈ s, c ∉ b64u) ∨ cap < 6 * s.length / 8

/-- A character that is read stands in the alphabet at its value. -/
theorem b64u_getElem_of_b64val {c : UInt8} {v : UInt32} (h : b64val c = some v) :
    b64u[v.toNat]? = some c := by
  have hbytes : ∀ n : Fin 256, (b64val (UInt8.ofNat n.val)).all
      (fun v => b64u[v.toNat]? == some (UInt8.ofNat n.val)) = true := by
    decide +kernel
  have hc := hbytes ⟨c.toNat, c.toNat_lt⟩
  rw [UInt8.ofNat_toNat, h, Option.all_some, beq_iff_eq] at hc
  exact hc

/-- The characters outside the alphabet are those that are not read. -/
theorem b64val_eq_none_iff (c : UInt8) : b64val c = none ↔ c ∉ b64u := by
  have hread : ∀ d ∈ b64u, b64val d ≠ none := by decide +kernel
  cases hc : b64val c with
  | none => exact iff_of_true rfl fun hmem => hread c hmem hc
  | some v =>
      have hmem := List.mem_of_getElem? (b64u_getElem_of_b64val hc)
      exact iff_of_false (Option.some_ne_none v) (not_not_intro hmem)

/-- The encoder keeps its law exactly where the length of the text is an
    `int` or does not fit, the decoder where it has an `int` to return. -/
theorem base64url_codec_iff (x : Bytes) (hx : x.length < 2 ^ 31) (cap : Nat) (s : Bytes)
    (room : Nat) :
    (EncodeLaw x cap ↔ (4 * x.length + 2) / 3 < 2 ^ 31 ∨ cap ≤ (4 * x.length + 2) / 3) ∧
    (DecodeLaw s room ↔
      (∃ c ∈ s, c ∉ b64u) ∨ room < 6 * s.length / 8 ∨ 6 * s.length / 8 % 2 ^ 32 < 2 ^ 31) := by
  constructor
  · have henc := ntcBase64urlEncodeInt_eq x cap
    constructor
    · rintro ⟨hsucc, _⟩
      by_contra hnot
      obtain ⟨hbig, hfits⟩ := not_or.mp hnot
      have hlt : (4 * x.length + 2) / 3 < cap := by omega
      rw [henc, if_pos hlt] at hsucc
      have hword : (4 * x.length + 2) / 3 < 2 ^ 32 := by omega
      have hnonneg := (toCInt_nonneg_iff _).mp (hsucc.mpr hlt)
      rw [Nat.mod_eq_of_lt hword] at hnonneg
      exact hbig hnonneg
    · intro hcond
      by_cases hlt : (4 * x.length + 2) / 3 < cap
      · have hint : (4 * x.length + 2) / 3 < 2 ^ 31 := by omega
        rw [if_pos hlt] at henc
        refine ⟨?_, fun _ => ?_⟩
        · rw [henc, toCInt_of_lt hint]
          exact iff_of_true (Int.natCast_nonneg _) hlt
        · rw [henc]
          refine ⟨toCInt_of_lt hint, base64url_length x, base64url_mem x, fun room hroom => ?_⟩
          have hdec : ntcBase64urlDecode (base64url x) room = some x :=
            base64Loop_base64url x 0 room hroom
          rw [ntcBase64urlDecodeInt, hdec]
          exact Prod.ext (toCInt_of_lt hx) rfl
      · rw [if_neg hlt] at henc
        refine ⟨?_, fun h => absurd h hlt⟩
        rw [henc]
        exact iff_of_false (by decide) hlt
  · obtain ⟨hnone, hlength⟩ := ntcBase64urlDecode_length s room
    simp only [b64val_eq_none_iff] at hnone
    rw [DecodeLaw, ntcBase64urlDecodeInt]
    cases hdec : ntcBase64urlDecode s room with
    | none =>
        have hfails := hnone.mp hdec
        exact iff_of_true (iff_of_true (by decide) hfails) (hfails.imp_right Or.inl)
    | some out =>
        have hok : ¬ ((∃ c ∈ s, c ∉ b64u) ∨ room < 6 * s.length / 8) := by
          rw [← hnone, hdec]
          exact Option.some_ne_none out
        have hlen := hlength out hdec
        have hneg := toCInt_nonneg_iff out.length
        rw [hlen] at hneg
        dsimp only
        rw [hlen, ← not_le, hneg, iff_false_right hok, not_not, ← or_assoc, or_iff_right hok]

theorem base64url_codec_hello :
    EncodeLaw (lit "hello world!") 64 ∧ DecodeLaw (lit "aGVsbG8gd29ybGQh") 12 := by
  have hcodec := base64url_codec_iff (lit "hello world!") (by decide) 64
    (lit "aGVsbG8gd29ybGQh") 12
  exact ⟨hcodec.1.mpr (Or.inl (by decide)), hcodec.2.mpr (Or.inr (Or.inr (by decide)))⟩

/-- For 1.5 GiB the number of characters is 2^31, as an `int` negative. -/
theorem base64url_encode_wraps : ¬ EncodeLaw (List.replicate (3 * 2 ^ 29) 97) (2 ^ 32) := by
  have hwraps : ∀ (x : Bytes) (cap : Nat), x.length = 3 * 2 ^ 29 → cap = 2 ^ 32 →
      ¬ EncodeLaw x cap := by
    rintro x cap hx rfl ⟨hsucc, _⟩
    have hlen : (4 * x.length + 2) / 3 = 2 ^ 31 := by omega
    rw [ntcBase64urlEncodeInt_eq, hlen, if_pos (by decide), toCInt_nonneg_iff] at hsucc
    exact absurd (hsucc.mpr (by decide)) (by decide)
  exact hwraps _ _ List.length_replicate rfl

end Naitron
