/-
  Naitron.Sha256Spec

  `src/common/crypto.c` computes SHA-256 and HMAC-SHA256.

  `sha_update` is a machine that consumes blocks of 64 bytes; both its loop
  over pieces and the byte-at-a-time reading the model uses come to the same
  state.  `sha_final` feeds it the padding, so what it has consumed at the end
  are the blocks of the padded message.
-/

import Naitron.Crypto
import Naitron.Lib.Sha256

namespace Naitron

open Naitron.Lib

-- ============================================================================
-- One block
-- ============================================================================

/-- The words of the code as those of the standard. -/
def ShaWords.words (v : ShaWords) : Sha256.Words :=
  ⟨v.a, v.b, v.c, v.d, v.e, v.f, v.g, v.h⟩

/-- No number from 2 to 17 divides `n`, but `n` itself. -/
def passesTrials (n : ℕ) : Bool :=
  Nat.ble 2 n && (List.range' 2 16).all fun d => Nat.ble n d || n % d != 0

/-- Trial divisors up to 17 are enough below 324. -/
theorem prime_eq_passesTrials {n : ℕ} (h : n < 324) : decide n.Prime = passesTrials n := by
  have hsqrt : Nat.sqrt n < 18 := Nat.sqrt_lt'.mpr (by omega)
  rw [Bool.eq_iff_iff, decide_eq_true_iff, passesTrials]
  simp only [Bool.and_eq_true, Nat.ble_eq, List.all_eq_true, List.mem_range'_1, Bool.or_eq_true,
    bne_iff_ne, ne_eq]
  constructor
  · intro hp
    refine ⟨hp.two_le, fun d hd => ?_⟩
    rw [or_iff_not_imp_left, not_le]
    intro hlt hzero
    exact (Nat.prime_def_lt'.mp hp).2 d hd.1 hlt (Nat.dvd_of_mod_eq_zero hzero)
  · rintro ⟨h2, htrials⟩
    refine Nat.prime_def_le_sqrt.mpr ⟨h2, fun m hm hle hdvd => ?_⟩
    have hlt : m < n := lt_of_le_of_lt hle (Nat.sqrt_lt_self (by omega))
    rcases htrials m ⟨hm, by omega⟩ with hbelow | hrest
    · omega
    · exact hrest (Nat.mod_eq_zero_of_dvd hdvd)

theorem firstPrimes_eq : Sha256.firstPrimes = (List.range 312).filter passesTrials := by
  rw [Sha256.firstPrimes]
  apply List.filter_congr
  intro n hn
  rw [List.mem_range] at hn
  exact prime_eq_passesTrials (by omega)

theorem shaK_eq : Sha256.roundConstants = shaK := by
  rw [Sha256.roundConstants, firstPrimes_eq]
  decide +kernel

theorem shaInit_eq : Sha256.initialHash = shaInit.h.words := by
  rw [Sha256.initialHash, firstPrimes_eq]
  decide +kernel

/-- The bytes of a word read as in the code. -/
theorem load_word (p₀ p₁ p₂ p₃ : UInt8) :
    p₀.toUInt32 <<< 24 ||| p₁.toUInt32 <<< 16 ||| p₂.toUInt32 <<< 8 ||| p₃.toUInt32
      = ⟨p₀.toBitVec ++ p₁.toBitVec ++ p₂.toBitVec ++ p₃.toBitVec⟩ := by
  apply UInt32.eq_of_toBitVec_eq
  apply BitVec.eq_of_getLsbD_eq
  intro i hi
  have hcat : (p₀.toBitVec ++ p₁.toBitVec ++ p₂.toBitVec ++ p₃.toBitVec).getLsbD i
      = if i < 8 then p₃.toBitVec.getLsbD i
        else if i - 8 < 8 then p₂.toBitVec.getLsbD (i - 8)
        else if i - 8 - 8 < 8 then p₁.toBitVec.getLsbD (i - 8 - 8)
        else p₀.toBitVec.getLsbD (i - 8 - 8 - 8) := by
    rw [BitVec.getLsbD_append, BitVec.getLsbD_append, BitVec.getLsbD_append]
  refine Eq.trans ?_ hcat.symm
  simp
  interval_cases i <;> simp

/-- Eight bits of a word. -/
theorem extract_byte (w : UInt32) (k : UInt32) (hk : k.toNat ≤ 24) :
    (⟨w.toBitVec.extractLsb' k.toNat 8⟩ : UInt8) = (w >>> k).toUInt8 := by
  apply UInt8.eq_of_toBitVec_eq
  apply BitVec.eq_of_getLsbD_eq
  intro i hi
  have hmod : k.toNat % 32 = k.toNat := Nat.mod_eq_of_lt (by omega)
  simp [hi, hmod]

theorem wordBytes_eq (w : UInt32) : Sha256.wordBytes w = wordBytes w := by
  have h₀ : (⟨w.toBitVec.extractLsb' 0 8⟩ : UInt8) = w.toUInt8 := by
    have h := extract_byte w 0 (by decide)
    rwa [UInt32.shiftRight_zero] at h
  have h₃ := extract_byte w 24 (by decide)
  have h₂ := extract_byte w 16 (by decide)
  have h₁ := extract_byte w 8 (by decide)
  rw [Sha256.wordBytes, wordBytes, h₀]
  exact congrArg₂ _ h₃ (congrArg₂ _ h₂ (congrArg₂ _ h₁ rfl))

theorem wordAt_cons (p₀ p₁ p₂ p₃ : UInt8) (p : Bytes) (t : Nat) :
    Sha256.wordAt (p₀ :: p₁ :: p₂ :: p₃ :: p) (t + 1) = Sha256.wordAt p t := by
  have hindex : ∀ k, (p₀ :: p₁ :: p₂ :: p₃ :: p).getD (4 * (t + 1) + k) 0 = p.getD (4 * t + k) 0 := by
    intro k
    have hshift : 4 * (t + 1) + k = 4 * t + k + 4 := by omega
    rw [hshift]
    rfl
  rw [Sha256.wordAt, hindex 1, hindex 2, hindex 3]
  rw [show (p₀ :: p₁ :: p₂ :: p₃ :: p).getD (4 * (t + 1)) 0 = p.getD (4 * t) 0 from hindex 0]
  rfl

theorem shaLoad_eq : ∀ (n : Nat) (p : Bytes), p.length = 4 * n →
    shaLoad p = (List.range n).map (Sha256.wordAt p) := by
  intro n
  induction n with
  | zero =>
      intro p hp
      rw [List.length_eq_zero_iff.mp hp]
      rfl
  | succ n ih =>
      intro p hp
      obtain ⟨p₀, p₁, p₂, p₃, rest, rfl⟩ : ∃ p₀ p₁ p₂ p₃ rest, p = p₀ :: p₁ :: p₂ :: p₃ :: rest := by
        rcases p with _ | ⟨p₀, _ | ⟨p₁, _ | ⟨p₂, _ | ⟨p₃, rest⟩⟩⟩⟩
        · simp at hp
        · simp at hp; omega
        · simp at hp; omega
        · simp at hp; omega
        · exact ⟨p₀, p₁, p₂, p₃, rest, rfl⟩
      have hrest : rest.length = 4 * n := by
        simp only [List.length_cons] at hp
        omega
      rw [shaLoad, load_word, ih rest hrest, List.range_succ_eq_map, List.map_cons, List.map_map]
      exact congrArg _ (List.map_congr_left fun t _ => (wordAt_cons p₀ p₁ p₂ p₃ rest t).symm)

/-- Counting from the end of a mapped range. -/
theorem getD_reverse_map_range (W : Nat → UInt32) {m j : Nat} (h : j < m) :
    (((List.range m).map W).reverse).getD j 0 = W (m - 1 - j) := by
  rw [List.getD_eq_getElem?_getD, List.getElem?_reverse (by simpa using h), List.length_map,
    List.length_range, List.getElem?_map, List.getElem?_range (by omega)]
  rfl

/-- One more word of the schedule. -/
theorem shaExtend_eq (block : Bytes) (n : Nat) :
    shaExtend (((List.range (16 + n)).map (Sha256.schedule block)).reverse)
      = ((List.range (16 + (n + 1))).map (Sha256.schedule block)).reverse := by
  have hword : Sha256.schedule block (16 + n)
      = Sha256.schedule block (16 + n - 16)
        + Sha256.smallSigma0 (Sha256.schedule block (16 + n - 15))
        + Sha256.schedule block (16 + n - 7)
        + Sha256.smallSigma1 (Sha256.schedule block (16 + n - 2)) := by
    rw [Sha256.schedule, if_neg (by omega)]
    ac_rfl
  have h₂ : 16 + n - 1 - 1 = 16 + n - 2 := by omega
  have h₇ : 16 + n - 1 - 6 = 16 + n - 7 := by omega
  have h₁₅ : 16 + n - 1 - 14 = 16 + n - 15 := by omega
  have h₁₆ : 16 + n - 1 - 15 = 16 + n - 16 := by omega
  rw [shaExtend, getD_reverse_map_range _ (by omega), getD_reverse_map_range _ (by omega),
    getD_reverse_map_range _ (by omega), getD_reverse_map_range _ (by omega), h₂, h₇, h₁₅, h₁₆,
    ← Nat.add_assoc, List.range_succ, List.map_append, List.reverse_append, List.map_singleton,
    List.reverse_singleton, List.singleton_append, hword]
  rfl

/-- The schedule of the code is that of the standard. -/
theorem shaSchedule_eq {block : Bytes} (h : block.length = 64) :
    shaSchedule block = (List.range 64).map (Sha256.schedule block) := by
  have hfirst : shaLoad block = (List.range 16).map (Sha256.schedule block) := by
    rw [shaLoad_eq 16 block h]
    refine List.map_congr_left fun t ht => ?_
    rw [Sha256.schedule, if_pos (List.mem_range.mp ht)]
  have hextend : ∀ n, shaExtend^[n] (shaLoad block).reverse
      = ((List.range (16 + n)).map (Sha256.schedule block)).reverse := by
    intro n
    induction n with
    | zero => rw [hfirst]; rfl
    | succ n ih => rw [Function.iterate_succ_apply', ih, shaExtend_eq]
  rw [shaSchedule, hextend 48, List.reverse_reverse]

/-- `sha_block` is the compression function. -/
theorem shaBlock_eq (H : ShaWords) {block : Bytes} (h : block.length = 64) :
    (shaBlock H block).words = Sha256.compress H.words block := by
  have hzip : shaK.zip (shaSchedule block) = (List.range 64).map fun t =>
      (Sha256.roundConstants.getD t 0, Sha256.schedule block t) := by
    have hconst : shaK = (List.range 64).map fun t => Sha256.roundConstants.getD t 0 := by
      rw [shaK_eq]
      decide
    conv_lhs => rw [shaSchedule_eq h, hconst]
    rw [List.zip_map']
  have hrounds : ∀ (ts : List Nat) (v : ShaWords),
      ((ts.map fun t => (Sha256.roundConstants.getD t 0, Sha256.schedule block t)).foldl
        shaRound v).words
      = ts.foldl (fun v t => Sha256.round v (Sha256.roundConstants.getD t 0)
          (Sha256.schedule block t)) v.words := by
    intro ts
    induction ts with
    | nil => exact fun _ => rfl
    | cons t ts ih => exact fun v => ih (shaRound v _)
  rw [Sha256.compress, ← hrounds, ← hzip]
  rfl

-- ============================================================================
-- The stream
-- ============================================================================

/-- `sha_update` as it copies pieces into the buffer. -/
def shaUpdateLoop (c : ShaCtx) (p : Bytes) : ShaCtx :=
  let r := copyPiece 64 shaBlock p.length (c.h, c.buf) p
  { h := r.1, total := c.total + UInt64.ofNat p.length, buf := r.2 }

theorem shaPush_eq (c : ShaCtx) (b : UInt8) :
    shaPush c b =
      { h := (pushElem 64 shaBlock (c.h, c.buf) b).1, total := c.total + 1
        buf := (pushElem 64 shaBlock (c.h, c.buf) b).2 } := by
  rw [shaPush, pushElem]
  dsimp only
  split_ifs <;> rfl

theorem shaUpdate_cons (c : ShaCtx) (b : UInt8) (p : Bytes) :
    shaUpdate c (b :: p) = shaUpdate (shaPush c b) p := rfl

theorem shaUpdate_pair (p : Bytes) : ∀ c : ShaCtx,
    shaUpdate c p =
      { h := (p.foldl (pushElem 64 shaBlock) (c.h, c.buf)).1
        total := c.total + UInt64.ofNat p.length
        buf := (p.foldl (pushElem 64 shaBlock) (c.h, c.buf)).2 } := by
  induction p with
  | nil =>
      intro c
      simp [shaUpdate]
  | cons b p ih =>
      intro c
      rw [shaUpdate_cons, ih, shaPush_eq, List.foldl_cons, List.length_cons]
      congr 1
      rw [UInt64.ofNat_add, UInt64.add_assoc]
      congr 1
      exact UInt64.add_comm _ _

/-- What `sha_update` leaves: the state has taken the full blocks of the
    buffer and the piece, the buffer holds the rest. -/
theorem shaUpdate_eq {c : ShaCtx} (hc : c.buf.length < 64) (p : Bytes) :
    shaUpdate c p =
      { h := (blocks 64 (c.buf ++ p)).foldl shaBlock c.h
        total := c.total + UInt64.ofNat p.length
        buf := blocksRest 64 (c.buf ++ p) } := by
  rw [shaUpdate_pair, foldl_pushElem (by decide) p _ hc]

/-- The loop over pieces and the byte-at-a-time reading agree. -/
theorem shaUpdateLoop_eq {c : ShaCtx} (hc : c.buf.length < 64) (p : Bytes) :
    shaUpdateLoop c p = shaUpdate c p := by
  rw [shaUpdate_eq hc, shaUpdateLoop, copyPiece_eq (by decide) p.length _ p hc (le_refl _)]

theorem shaUpdate_buf_lt {c : ShaCtx} (hc : c.buf.length < 64) (p : Bytes) :
    (shaUpdate c p).buf.length < 64 := by
  rw [shaUpdate_eq hc]
  exact blocksRest_length_lt (by decide) _

theorem shaUpdate_append (c : ShaCtx) (p q : Bytes) :
    shaUpdate c (p ++ q) = shaUpdate (shaUpdate c p) q :=
  List.foldl_append

/-- A message in pieces. -/
theorem shaUpdateLoop_flatten :
    ∀ (pieces : List Bytes) {c : ShaCtx}, c.buf.length < 64 →
      pieces.foldl shaUpdateLoop c = shaUpdateLoop c pieces.flatten := by
  intro pieces
  induction pieces with
  | nil =>
      intro c hc
      rw [shaUpdateLoop_eq hc]
      rfl
  | cons p pieces ih =>
      intro c hc
      have hp := shaUpdateLoop_eq hc p
      have hbuf : (shaUpdateLoop c p).buf.length < 64 := by
        rw [hp]
        exact shaUpdate_buf_lt hc p
      rw [List.foldl_cons, ih hbuf, shaUpdateLoop_eq hbuf, hp, List.flatten_cons,
        shaUpdateLoop_eq hc, shaUpdate_append]

-- ============================================================================
-- The padding
-- ============================================================================

theorem shaPush_buf_length {c : ShaCtx} (hc : c.buf.length < 64) (b : UInt8) :
    (shaPush c b).buf.length = (c.buf.length + 1) % 64 := by
  rw [shaPush]
  have hlen : (c.buf ++ [b]).length = c.buf.length + 1 := by
    rw [List.length_append, List.length_singleton]
  split_ifs with hfull
  · rw [hlen] at hfull
    rw [hfull]
    rfl
  · show (c.buf ++ [b]).length = _
    rw [hlen] at hfull ⊢
    omega

theorem shaUpdate_buf_length : ∀ (p : Bytes) {c : ShaCtx}, c.buf.length < 64 →
    (shaUpdate c p).buf.length = (c.buf.length + p.length) % 64 := by
  intro p
  induction p with
  | nil =>
      intro c hc
      rw [List.length_nil, Nat.add_zero, Nat.mod_eq_of_lt hc]
      rfl
  | cons b p ih =>
      intro c hc
      have hpush := shaPush_buf_length hc b
      rw [shaUpdate_cons, ih (by rw [hpush]; omega), hpush, List.length_cons]
      omega

/-- The zero padding, by the number of zeros it takes. -/
theorem shaPad_eq : ∀ (z fuel : Nat) {c : ShaCtx}, c.buf.length < 64 → z ≤ fuel →
    (c.buf.length + z) % 64 = 56 → (∀ y < z, (c.buf.length + y) % 64 ≠ 56) →
    shaPad fuel c = shaUpdate c (List.replicate z 0) := by
  intro z
  induction z with
  | zero =>
      intro fuel c hc _ hend _
      have hfull : c.buf.length = 56 := by omega
      cases fuel with
      | zero => rfl
      | succ fuel =>
          rw [shaPad, if_neg (by omega)]
          rfl
  | succ z ih =>
      intro fuel c hc hfuel hend hfirst
      obtain ⟨fuel, rfl⟩ : ∃ f, fuel = f + 1 := ⟨fuel - 1, by omega⟩
      have hpush := shaPush_buf_length hc 0
      have hne : c.buf.length ≠ 56 := by
        have h := hfirst 0 (Nat.succ_pos z)
        omega
      rw [shaPad, if_pos hne, ih fuel (by rw [hpush]; omega) (by omega) (by rw [hpush]; omega)]
      · rfl
      · intro y hy
        have h := hfirst (y + 1) (Nat.succ_lt_succ hy)
        rw [hpush]
        omega

/-- A byte of a 64-bit number. -/
theorem ofNat_shift_byte (n k : Nat) (hk : k + 8 ≤ 64) :
    (UInt64.ofNat n >>> UInt64.ofNat k).toUInt8 = UInt8.ofNat (n / 2 ^ k) := by
  apply UInt8.toNat_inj.mp
  have hshift : (UInt64.ofNat k).toNat % 64 = k := by
    rw [UInt64.toNat_ofNat']
    omega
  rw [UInt64.toNat_toUInt8, UInt64.toNat_shiftRight, hshift, UInt64.toNat_ofNat',
    Nat.shiftRight_eq_div_pow, UInt8.toNat_ofNat']
  have hword : (2 : Nat) ^ 64 = 2 ^ k * 2 ^ (64 - k) := by
    rw [← Nat.pow_add]
    congr 1
    omega
  have hbyte : (2 : Nat) ^ 8 ∣ 2 ^ (64 - k) := Nat.pow_dvd_pow 2 (by omega)
  rw [hword, Nat.mod_mul_right_div_self, Nat.mod_mod_of_dvd _ hbyte]

/-- The bit count of the code is the length field. -/
theorem lengthBytes_eq (n : Nat) :
    lengthBytes (UInt64.ofNat n * 8) = Sha256.lengthField (8 * n) := by
  have hbits : UInt64.ofNat n * 8 = UInt64.ofNat (8 * n) := by
    rw [Nat.mul_comm, UInt64.ofNat_mul]
    rfl
  have hpow : ∀ i, (256 : Nat) ^ i = 2 ^ (8 * i) := fun i => by rw [Nat.pow_mul]
  rw [lengthBytes, hbits, Sha256.lengthField]
  have hbyte := fun k hk => ofNat_shift_byte (8 * n) k hk
  simp only [hpow]
  exact congrArg₂ _ (hbyte 56 (by decide)) (congrArg₂ _ (hbyte 48 (by decide))
    (congrArg₂ _ (hbyte 40 (by decide)) (congrArg₂ _ (hbyte 32 (by decide))
      (congrArg₂ _ (hbyte 24 (by decide)) (congrArg₂ _ (hbyte 16 (by decide))
        (congrArg₂ _ (hbyte 8 (by decide)) (congrArg₂ _ (hbyte 0 (by decide)) rfl)))))))

/-- `sha_final` after a message: the blocks of the padded message. -/
theorem shaFinal_eq (data : Bytes) :
    shaFinal (shaUpdate shaInit data)
      = let h := (shaUpdate shaInit (Sha256.pad data)).h
        [h.a, h.b, h.c, h.d, h.e, h.f, h.g, h.h].flatMap wordBytes := by
  have hinit : shaInit.buf.length < 64 := by decide
  have hdata : (shaUpdate shaInit data).buf.length = data.length % 64 := by
    rw [shaUpdate_buf_length data hinit]
    simp [shaInit]
  have htotal : (shaUpdate shaInit data).total = UInt64.ofNat data.length := by
    rw [shaUpdate_eq hinit]
    exact UInt64.zero_add _
  have hmark := shaPush_buf_length (c := shaUpdate shaInit data) (by omega) 0x80
  obtain ⟨hend, hleast⟩ := Sha256.padZeros_least data.length
  have hpad : shaPad 64 (shaPush (shaUpdate shaInit data) 0x80)
      = shaUpdate (shaPush (shaUpdate shaInit data) 0x80)
          (List.replicate (Sha256.padZeros data.length) 0) := by
    apply shaPad_eq
    · rw [hmark]
      omega
    · rw [Sha256.padZeros]
      omega
    · rw [hmark, hdata]
      omega
    · intro y hy hstop
      rw [hmark, hdata] at hstop
      have := hleast y (by omega)
      omega
  rw [shaFinal, htotal, lengthBytes_eq]
  dsimp only
  rw [hpad, ← shaUpdate_append]
  have hall : shaUpdate (shaPush (shaUpdate shaInit data) 0x80)
        (List.replicate (Sha256.padZeros data.length) 0 ++ Sha256.lengthField (8 * data.length))
      = shaUpdate shaInit (Sha256.pad data) := by
    rw [Sha256.pad, shaUpdate_append shaInit data, shaUpdate_cons]
  rw [hall]

/-- Every block of a cut list is full. -/
theorem blocks_length (n : Nat) (s : Bytes) : ∀ b ∈ blocks n s, b.length = n := by
  induction s using blocks.induct n with
  | case1 s h ih =>
      rw [blocks, if_pos h]
      intro b hb
      rcases List.mem_cons.mp hb with rfl | hb
      · exact List.length_take_of_le h.2
      · exact ih b hb
  | case2 s h =>
      rw [blocks, if_neg h]
      exact fun b hb => absurd hb List.not_mem_nil

theorem foldl_shaBlock_eq : ∀ (bs : List Bytes) (H : ShaWords), (∀ b ∈ bs, b.length = 64) →
    (bs.foldl shaBlock H).words = bs.foldl Sha256.compress H.words := by
  intro bs
  induction bs with
  | nil => exact fun _ _ => rfl
  | cons b bs ih =>
      intro H hbs
      rw [List.foldl_cons, ih _ fun b' hb' => hbs b' (List.mem_cons_of_mem b hb'),
        shaBlock_eq H (hbs b List.mem_cons_self)]
      rfl

/-- `ntc_sha256` is SHA-256. -/
theorem ntcSha256_eq (data : Bytes) : ntcSha256 data = Sha256.sha256 data := by
  have hh : (shaUpdate shaInit (Sha256.pad data)).h.words
      = (blocks 64 (Sha256.pad data)).foldl Sha256.compress Sha256.initialHash := by
    rw [shaUpdate_eq (by decide), shaInit_eq]
    exact foldl_shaBlock_eq _ _ (blocks_length 64 _)
  have hbytes : Sha256.wordBytes = wordBytes := funext wordBytes_eq
  rw [ntcSha256, shaFinal_eq, Sha256.sha256, ← hh, Sha256.Words.bytes, hbytes]
  rfl

/-- `ntc_hmac_sha256` is HMAC over it. -/
theorem ntcHmacSha256_eq (key msg : Bytes) :
    ntcHmacSha256 key msg = hmac Sha256.sha256 64 key msg := by
  have hkey : hmacKey key =
      (if 64 < key.length then Sha256.sha256 key else key)
        ++ List.replicate (64 - (if 64 < key.length then Sha256.sha256 key else key).length) 0 := by
    rw [hmacKey, ntcSha256_eq]
  rw [ntcHmacSha256, ← shaUpdate_append, ← shaUpdate_append]
  show ntcSha256 (_ ++ ntcSha256 (_ ++ msg)) = _
  rw [ntcSha256_eq, ntcSha256_eq, hmac, hkey]

/-- SHA-256 of every byte string, in any division into pieces and from any
    state, and HMAC for every key and message. -/
theorem sha256_hmac_standard :
    (∀ data : Bytes, ntcSha256 data = Sha256.sha256 data) ∧
    (∀ (c : ShaCtx) (pieces : List Bytes), c.buf.length < 64 →
      pieces.foldl shaUpdateLoop c = shaUpdateLoop c pieces.flatten ∧
        shaUpdateLoop c pieces.flatten = shaUpdate c pieces.flatten) ∧
    (∀ key msg : Bytes, ntcHmacSha256 key msg = hmac Sha256.sha256 64 key msg) :=
  ⟨ntcSha256_eq,
    fun _ pieces hc => ⟨shaUpdateLoop_flatten pieces hc, shaUpdateLoop_eq hc pieces.flatten⟩,
    ntcHmacSha256_eq⟩

/-- `abc` in two pieces. -/
theorem sha256_hmac_standard_abc :
    [lit "a", lit "bc"].foldl shaUpdateLoop shaInit = shaUpdateLoop shaInit (lit "abc") ∧
      ntcSha256 (lit "abc") = Sha256.sha256 (lit "abc") :=
  ⟨(sha256_hmac_standard.2.1 shaInit [lit "a", lit "bc"] (by decide)).1,
    sha256_hmac_standard.1 (lit "abc")⟩

end Naitron
