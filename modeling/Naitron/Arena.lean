/-
  Naitron.Arena

  The arena allocator: blocks from `malloc`, linked from `first` to `cur`, and
  regions cut off the current block one after the other.

  Addresses are numbers below 2^64, with `size_t` arithmetic on them; a block
  is its header of 32 bytes and the `cap` bytes of `data` behind it.  Of
  `malloc` nothing is known but that what it returns does not overlap what it
  has returned before.
-/

import Naitron.HttpRequest
import Naitron.Lib.Chain
import Naitron.Lib.Steps

namespace Naitron

open Lib (Region Chain)

-- ============================================================================
-- The code
-- ============================================================================

/-- `a + b` of two `size_t`. -/
def sizeAdd (a b : Nat) : Nat := (a + b) % sizeMax

/-- `NTC_ARENA_ALIGN`. -/
def ntcArenaAlign : Nat := 16

/-- `NTC_ARENA_DEFAULT_BLOCK`. -/
def ntcArenaDefaultBlock : Nat := 16 * 1024

/-- `sizeof(ntc_arena_block)`. -/
def blockHeader : Nat := 32

/-- `ntc_arena_block`, without its data. -/
structure NtcArenaBlock where
  next : Nat
  cap : Nat
  off : Nat
deriving DecidableEq, Repr

/-- `ntc_arena`. -/
structure NtcArena where
  first : Nat := 0
  cur : Nat := 0
  blockSize : Nat := 0
deriving DecidableEq, Repr

/-- A region that `ntc_arena_alloc` returned, and the size it was asked for. -/
structure ArenaRegion extends Region where
  size : Nat
deriving DecidableEq, Repr

/-- The arena and the memory it has: the blocks by address, how many there have
    been, and the regions returned since the last reset. -/
structure ArenaState where
  arena : NtcArena := {}
  heap : Nat → Option NtcArenaBlock := fun _ => none
  mallocs : Nat := 0
  regions : List ArenaRegion := []

namespace ArenaState

/-- Write a block. -/
def setBlock (s : ArenaState) (p : Nat) (b : Option NtcArenaBlock) : ArenaState :=
  { s with heap := Function.update s.heap p b }

@[simp] theorem setBlock_self (s : ArenaState) (p : Nat) (b : Option NtcArenaBlock) :
    (s.setBlock p b).heap p = b :=
  Function.update_self ..

theorem setBlock_of_ne (s : ArenaState) {p q : Nat} (b : Option NtcArenaBlock) (h : q ≠ p) :
    (s.setBlock p b).heap q = s.heap q :=
  Function.update_of_ne h ..

/-- The `next` field of a block. -/
def next (s : ArenaState) (p : Nat) : Option Nat := (s.heap p).map (·.next)

end ArenaState

/-- `block_new`; address 0 is NULL. -/
def blockNew (malloc : Nat → Nat) (cap : Nat) (s : ArenaState) : ArenaState × Nat :=
  if sizeMax - 1 - blockHeader < cap then (s, 0)
  else
    let b := malloc (blockHeader + cap)
    if b = 0 then (s, 0)
    else ({ s.setBlock b (some ⟨0, cap, 0⟩) with mallocs := s.mallocs + 1 }, b)

/-- `align_up`. -/
def alignUp (n a : Nat) : Nat := sizeAdd n (a - 1) &&& (sizeMax - 1 - (a - 1))

/-- `ntc_arena_init`; `false` is `NTC_ERR_OOM`. -/
def ntcArenaInit (malloc : Nat → Nat) (blockSize : Nat) (s : ArenaState) : ArenaState × Bool :=
  let blockSize := if blockSize = 0 then ntcArenaDefaultBlock else blockSize
  let (s, b) := blockNew malloc blockSize s
  if b = 0 then (s, false)
  else ({ s with arena := ⟨b, b, blockSize⟩ }, true)

/-- The tail of `ntc_arena_alloc`: `size` bytes of a block from `off` on. -/
def bump (s : ArenaState) (b : Nat) (block : NtcArenaBlock) (off size : Nat) : ArenaState :=
  s.setBlock b (some { block with off := off + size })

/-- `ntc_arena_alloc`.  The result is `none` where the code follows a pointer
    that does not point to a block. -/
def ntcArenaAlloc (malloc : Nat → Nat) (size : Nat) (s : ArenaState) :
    Option (ArenaState × Nat) :=
  if s.arena.cur = 0 then some (s, 0)
  else
    let size := if size = 0 then 1 else size
    if sizeMax - 1 - (ntcArenaAlign - 1) < size then some (s, 0)
    else
      (s.heap s.arena.cur).bind fun b =>
        let base := s.arena.cur + blockHeader
        let aligned := alignUp (sizeAdd base b.off) ntcArenaAlign
        let newOff := sizeSub aligned base
        if b.cap < newOff ∨ b.cap - newOff < size then
          let need := sizeAdd size (ntcArenaAlign - 1)
          let cap := if s.arena.blockSize < need then need else s.arena.blockSize
          let (s', nb) := blockNew malloc cap s
          if nb = 0 then some (s', 0)
          else
            let s' := s'.setBlock s.arena.cur (some { b with next := nb })
            let s' := { s' with arena.cur := nb }
            (s'.heap nb).map fun b =>
              let base := nb + blockHeader
              let aligned := alignUp base ntcArenaAlign
              (bump s' nb b (sizeSub aligned base) size, aligned)
        else some (bump s s.arena.cur b newOff size, aligned)

/-- The loop of `ntc_arena_reset` that frees the blocks; `none` where it frees
    what is no block, or has not ended after `n` turns. -/
def freeBlocks : Nat → Nat → ArenaState → Option ArenaState
  | 0, b, s => if b = 0 then some s else none
  | n + 1, b, s =>
      if b = 0 then some s
      else (s.heap b).bind fun block => freeBlocks n block.next (s.setBlock b none)

/-- `ntc_arena_reset`. -/
def ntcArenaReset (s : ArenaState) : Option ArenaState :=
  if s.arena.first = 0 then some s
  else
    (s.heap s.arena.first).bind fun first =>
      (freeBlocks s.mallocs first.next s).bind fun s =>
        (s.heap s.arena.first).map fun first =>
          { s.setBlock s.arena.first (some { first with next := 0, off := 0 }) with
            arena.cur := s.arena.first }

-- ============================================================================
-- Runs
-- ============================================================================

/-- A call, with what `malloc` answers during it. -/
inductive ArenaOp where
  | init (malloc : Nat → Nat) (blockSize : Nat)
  | alloc (malloc : Nat → Nat) (size : Nat)
  | reset

/-- The bytes of a block. -/
def NtcArenaBlock.region (b : NtcArenaBlock) (p : Nat) : Region := ⟨p, blockHeader + b.cap⟩

/-- The data area of a block. -/
def NtcArenaBlock.data (b : NtcArenaBlock) (p : Nat) : Region := ⟨p + blockHeader, b.cap⟩

/-- The region at an address that was just returned: what is taken of the
    current block from there on. -/
def ArenaState.taken (s : ArenaState) (p size : Nat) : ArenaRegion :=
  { addr := p
    len := (s.heap s.arena.cur).elim 0 fun b => s.arena.cur + blockHeader + b.off - p
    size := size }

/-- One call. -/
def arenaStep (s : Option ArenaState) (op : ArenaOp) : Option ArenaState :=
  s.bind fun s =>
    match op with
    | .init malloc blockSize => some (ntcArenaInit malloc blockSize s).1
    | .alloc malloc size => (ntcArenaAlloc malloc size s).map fun r =>
        if r.2 = 0 then r.1
        else { r.1 with regions := r.1.taken r.2 size :: r.1.regions }
    | .reset => (ntcArenaReset s).map fun s => { s with regions := [] }

/-- What is assumed of `malloc`: its regions do not wrap the address space and
    do not overlap a block that was not freed. -/
def MallocOk (s : ArenaState) (malloc : Nat → Nat) : Prop :=
  ∀ n, 0 < n → malloc n = 0 ∨ (malloc n + n ≤ sizeMax ∧
    ∀ p b, s.heap p = some b → Region.Disjoint ⟨malloc n, n⟩ (b.region p))

/-- The assumption for a call in a run. -/
def ArenaOp.MallocOk (s : Option ArenaState) : ArenaOp → Prop
  | .init malloc _ => ∀ s' ∈ s, Naitron.MallocOk s' malloc
  | .alloc malloc _ => ∀ s' ∈ s, Naitron.MallocOk s' malloc
  | .reset => True

-- ============================================================================
-- Alignment
-- ============================================================================

/-- Clearing the four low bits of a 64-bit number. -/
theorem and_mask {n : Nat} (h : n < sizeMax) :
    n &&& (sizeMax - 1 - (ntcArenaAlign - 1)) = n / 16 * 16 := by
  have hmask : sizeMax - 1 - (ntcArenaAlign - 1) = (2 ^ 60 - 1) <<< 4 := by decide
  have hshift : n / 16 * 16 = n >>> 4 <<< 4 := by
    rw [Nat.shiftLeft_eq, Nat.shiftRight_eq_div_pow]
  rw [hmask, hshift]
  apply Nat.eq_of_testBit_eq
  intro i
  rw [Nat.testBit_and, Nat.testBit_shiftLeft, Nat.testBit_shiftLeft, Nat.testBit_two_pow_sub_one,
    Nat.testBit_shiftRight]
  by_cases hi : 4 ≤ i
  · rw [Nat.add_sub_cancel' hi]
    by_cases hlt : i - 4 < 60
    · simp only [hi, hlt, decide_true, Bool.true_and, Bool.and_true]
    · have hfalse : n.testBit i = false :=
        Nat.testBit_lt_two_pow (h.trans_le (Nat.pow_le_pow_right (by omega) (by omega)))
      rw [hfalse, Bool.false_and, Bool.and_false]
  · simp only [hi, decide_false, Bool.false_and, Bool.and_false]

theorem alignUp_eq (n : Nat) : alignUp n ntcArenaAlign = (n + 15) % sizeMax / 16 * 16 := by
  rw [alignUp, sizeAdd, and_mask (Nat.mod_lt _ (by decide)), show ntcArenaAlign - 1 = 15 from rfl]

/-- An address of the address space, rounded up: 0 where that wraps. -/
theorem alignUp_sizeAdd {a b : Nat} (h : a + b ≤ sizeMax) :
    alignUp (sizeAdd a b) ntcArenaAlign =
      if a + b + 15 < sizeMax then (a + b + 15) / 16 * 16 else 0 := by
  have hmax : sizeMax = 18446744073709551616 := rfl
  rw [alignUp_eq, sizeAdd]
  split
  · next hlt => rw [Nat.mod_eq_of_lt (show a + b < sizeMax by omega), Nat.mod_eq_of_lt hlt]
  · next hwrap =>
    by_cases hlt : a + b < sizeMax
    · rw [Nat.mod_eq_of_lt hlt, Nat.mod_eq_sub_mod (by omega), Nat.mod_eq_of_lt (by omega)]
      omega
    · rw [show a + b = sizeMax by omega]
      decide

/-- Where the current block has room: the region begins at a multiple of 16 in
    what is left of the block, and ends in it.  An address that wraps leaves no
    room. -/
theorem room_in_block {base cap off size : Nat} (hbase : 0 < base)
    (hblock : base + cap ≤ sizeMax)
    (hoff : off ≤ cap) (hsize : 0 < size)
    (hroom : ¬(cap < sizeSub (alignUp (sizeAdd base off) ntcArenaAlign) base ∨
      cap - sizeSub (alignUp (sizeAdd base off) ntcArenaAlign) base < size)) :
    alignUp (sizeAdd base off) ntcArenaAlign =
        base + sizeSub (alignUp (sizeAdd base off) ntcArenaAlign) base ∧
      off ≤ sizeSub (alignUp (sizeAdd base off) ntcArenaAlign) base ∧
      sizeSub (alignUp (sizeAdd base off) ntcArenaAlign) base + size ≤ cap ∧
      alignUp (sizeAdd base off) ntcArenaAlign % 16 = 0 := by
  have hmax : sizeMax = 18446744073709551616 := rfl
  rw [alignUp_sizeAdd (by omega)] at hroom ⊢
  by_cases hwrap : base + off + 15 < sizeMax
  · rw [if_pos hwrap] at hroom ⊢
    rw [sizeSub_of_le (by omega) (by omega)] at hroom ⊢
    omega
  · -- the rest of the address space is the rest of the block
    rw [if_neg hwrap] at hroom
    have hoff' : sizeSub 0 base = sizeMax - base := by
      rw [sizeSub, Nat.zero_add, Nat.mod_eq_of_lt (by omega)]
    omega

/-- A new block has room behind the bytes skipped for alignment. -/
theorem room_in_new_block {base cap size : Nat} (hblock : base + cap ≤ sizeMax)
    (hsize : 0 < size) (hneed : size + 15 ≤ cap) :
    alignUp base ntcArenaAlign = base + sizeSub (alignUp base ntcArenaAlign) base ∧
      sizeSub (alignUp base ntcArenaAlign) base + size ≤ cap ∧
      alignUp base ntcArenaAlign % 16 = 0 := by
  have haligned : alignUp base ntcArenaAlign = (base + 15) / 16 * 16 := by
    rw [alignUp_eq, Nat.mod_eq_of_lt (by omega)]
  rw [haligned, sizeSub_of_le (by omega) (by omega)]
  omega

-- ============================================================================
-- Blocks
-- ============================================================================

/-- The blocks in memory: in the address space, filled up to `off` at most, and
    apart from each other. -/
structure HeapInv (heap : Nat → Option NtcArenaBlock) : Prop where
  block : ∀ {p b}, heap p = some b →
    p ≠ 0 ∧ 0 < b.cap ∧ b.off ≤ b.cap ∧ p + blockHeader + b.cap ≤ sizeMax
  apart : ∀ {p q b c}, heap p = some b → heap q = some c → p ≠ q →
    (b.region p).Disjoint (c.region q)

/-- The region lies in what a block has given away. -/
def Held (heap : Nat → Option NtcArenaBlock) (r : Region) : Prop :=
  ∃ p b, heap p = some b ∧ r.Inside ⟨p + blockHeader, b.off⟩

variable {heap heap' : Nat → Option NtcArenaBlock} {p : Nat} {b b' : NtcArenaBlock} {r : Region}

/-- Fewer blocks. -/
theorem HeapInv.restrict (h : HeapInv heap) (hsub : ∀ p b, heap' p = some b → heap p = some b) :
    HeapInv heap' where
  block := fun hp => h.block (hsub _ _ hp)
  apart := fun hp hq hne => h.apart (hsub _ _ hp) (hsub _ _ hq) hne

/-- A block where there was none, or one in place of another of its size. -/
theorem HeapInv.update (h : HeapInv heap) (hp : p ≠ 0) (hcap : 0 < b.cap) (hoff : b.off ≤ b.cap)
    (hspace : p + blockHeader + b.cap ≤ sizeMax)
    (hapart : ∀ q c, heap q = some c → q ≠ p → (b.region p).Disjoint (c.region q)) :
    HeapInv (Function.update heap p (some b)) where
  block := by
    intro q c hq
    by_cases hqp : q = p
    · subst hqp
      rw [Function.update_self] at hq
      obtain rfl := Option.some.inj hq
      exact ⟨hp, hcap, hoff, hspace⟩
    · rw [Function.update_of_ne hqp] at hq
      exact h.block hq
  apart := by
    intro q r c d hq hr hne
    by_cases hqp : q = p
    · subst hqp
      rw [Function.update_self] at hq
      rw [Function.update_of_ne hne.symm] at hr
      obtain rfl := Option.some.inj hq
      exact hapart r d hr hne.symm
    · rw [Function.update_of_ne hqp] at hq
      by_cases hrp : r = p
      · subst hrp
        rw [Function.update_self] at hr
        obtain rfl := Option.some.inj hr
        exact (hapart q c hq hqp).symm
      · rw [Function.update_of_ne hrp] at hr
        exact h.apart hq hr hne

/-- Another fill level, or another successor. -/
theorem HeapInv.change (h : HeapInv heap) (hb : heap p = some b) (hcap : b'.cap = b.cap)
    (hoff : b'.off ≤ b'.cap) : HeapInv (Function.update heap p (some b')) := by
  obtain ⟨hp, hpos, -, hspace⟩ := h.block hb
  rw [← hcap] at hpos hspace
  refine h.update hp hpos hoff hspace fun q c hq hqp => ?_
  have hregion : b'.region p = b.region p := by rw [NtcArenaBlock.region, hcap]; rfl
  rw [hregion]
  exact h.apart hb hq hqp.symm

/-- A block that is filled further holds what it held. -/
theorem Held.update (h : Held heap r) (hoff : ∀ c, heap p = some c → c.off ≤ b.off) :
    Held (Function.update heap p (some b)) r := by
  obtain ⟨q, c, hq, hstart, hstop⟩ := h
  by_cases hqp : q = p
  · subst hqp
    refine ⟨q, b, Function.update_self .., hstart, hstop.trans ?_⟩
    exact Nat.add_le_add_left (hoff c hq) _
  · refine ⟨q, c, ?_, hstart, hstop⟩
    rw [Function.update_of_ne hqp]
    exact hq

/-- What lies behind the fill level of a block overlaps nothing that is held. -/
theorem Held.disjoint (h : Held heap r) (hheap : HeapInv heap) (hb : heap p = some b) {s : Region}
    (hstart : p + blockHeader + b.off ≤ s.addr)
    (hstop : s.addr + s.len ≤ p + blockHeader + b.cap) : s.Disjoint r := by
  obtain ⟨q, c, hq, hr, hr'⟩ := h
  by_cases hqp : q = p
  · subst hqp
    obtain rfl := Option.some.inj (hb.symm.trans hq)
    exact .inr (hr'.trans hstart)
  · refine (hheap.apart hb hq (Ne.symm hqp)).inside ⟨?_, ?_⟩ ⟨?_, ?_⟩
    · show p ≤ s.addr
      omega
    · show s.addr + s.len ≤ p + (blockHeader + b.cap)
      omega
    · exact (Nat.le_add_right q blockHeader).trans hr
    · have hoff := (hheap.block hq).2.2.1
      have hend : r.addr + r.len ≤ q + blockHeader + c.off := hr'
      show r.addr + r.len ≤ q + (blockHeader + c.cap)
      omega

-- ============================================================================
-- The invariant
-- ============================================================================

/-- What a region is that was returned. -/
structure ArenaRegion.Ok (r : ArenaRegion) (heap : Nat → Option NtcArenaBlock) : Prop where
  aligned : r.addr % ntcArenaAlign = 0
  size : r.size ≤ r.len
  held : Held heap r.toRegion

namespace ArenaState

structure Inv (s : ArenaState) : Prop where
  heap : HeapInv s.heap
  chain : ∃ ps, Chain s.next s.arena.first ps ∧ ps.getLastD 0 = s.arena.cur ∧ ps.Nodup ∧
    ps.length ≤ s.mallocs
  regions : ∀ r ∈ s.regions, r.Ok s.heap
  apart : s.regions.Pairwise fun r r' => r.toRegion.Disjoint r'.toRegion

variable {s : ArenaState}

theorem Inv.start : Inv {} where
  heap := ⟨fun h => absurd h (Option.some_ne_none _).symm,
    fun h => absurd h (Option.some_ne_none _).symm⟩
  chain := ⟨[], rfl, rfl, List.nodup_nil, le_rfl⟩
  regions := fun _ hr => absurd hr List.not_mem_nil
  apart := .nil

/-- Every block of a chain is one of memory. -/
theorem chain_mem {q : Nat} {ps : List Nat} (h : Chain s.next q ps) :
    ∀ p ∈ ps, ∃ b, s.heap p = some b := by
  intro p hp
  obtain ⟨-, n, hn⟩ := h.mem p hp
  obtain ⟨b, hb, -⟩ := Option.map_eq_some_iff.mp hn
  exact ⟨b, hb⟩

/-- What `block_new` does: nothing, or a new empty block. -/
theorem blockNew_spec {malloc : Nat → Nat} {cap : Nat} (hs : HeapInv s.heap)
    (hm : MallocOk s malloc) (hcap : 0 < cap) :
    blockNew malloc cap s = (s, 0) ∨
      ∃ p, p ≠ 0 ∧ s.heap p = none ∧
        HeapInv (Function.update s.heap p (some ⟨0, cap, 0⟩)) ∧
        blockNew malloc cap s =
          ({ s.setBlock p (some ⟨0, cap, 0⟩) with mallocs := s.mallocs + 1 }, p) := by
  rw [blockNew]
  split
  · exact .inl rfl
  dsimp only
  split
  · exact .inl rfl
  next hp =>
    obtain hzero | ⟨hspace, hapart⟩ := hm (blockHeader + cap) (by omega)
    · exact absurd hzero hp
    refine .inr ⟨malloc (blockHeader + cap), hp, ?_, ?_, rfl⟩
    · rw [Option.eq_none_iff_forall_ne_some]
      intro b hb
      exact (hapart _ b hb).addr_ne (show 0 < blockHeader + cap by omega)
        (show 0 < blockHeader + b.cap from Nat.add_pos_left (by decide) _) rfl
    · exact hs.update hp hcap (Nat.zero_le _) (by rwa [Nat.add_assoc])
        fun q c hq _ => hapart q c hq

/-- A region is cut off the current block. -/
theorem Inv.bump (h : s.Inv) {b : NtcArenaBlock} {off size asked : Nat}
    (hb : s.heap s.arena.cur = some b) (hoff : b.off ≤ off) (hcap : off + size ≤ b.cap)
    (haligned : (s.arena.cur + blockHeader + off) % ntcArenaAlign = 0) (hasked : asked ≤ size) :
    let s' := Naitron.bump s s.arena.cur b off size
    let p := s.arena.cur + blockHeader + off
    Inv { s' with regions := s'.taken p asked :: s'.regions } := by
  intro s' p
  have hb' : s'.heap s.arena.cur = some { b with off := off + size } := setBlock_self ..
  have htaken : s'.taken p asked = ⟨⟨p, size⟩, asked⟩ := by
    have hcur : s'.heap s'.arena.cur = some { b with off := off + size } := hb'
    rw [taken, hcur, Option.elim_some]
    show (⟨⟨p, s.arena.cur + blockHeader + (off + size) - (s.arena.cur + blockHeader + off)⟩,
      asked⟩ : ArenaRegion) = ⟨⟨p, size⟩, asked⟩
    rw [← Nat.add_assoc, Nat.add_sub_cancel_left]
  have hheld {r : Region} (hr : Held s.heap r) : Held s'.heap r := by
    refine hr.update fun c hc => ?_
    obtain rfl := Option.some.inj (hb.symm.trans hc)
    exact hoff.trans (Nat.le_add_right off size)
  refine ⟨h.heap.change hb rfl hcap, ?_, ?_, ?_⟩
  · obtain ⟨ps, hps, hlast, hnodup, hlen⟩ := h.chain
    refine ⟨ps, hps.congr fun q _ => ?_, hlast, hnodup, hlen⟩
    by_cases hq : q = s.arena.cur
    · show (s'.heap q).map (·.next) = (s.heap q).map (·.next)
      rw [hq, hb', hb]
      rfl
    · exact congrArg (Option.map _) (setBlock_of_ne s _ hq)
  · intro r hr
    obtain rfl | hr := List.mem_cons.mp hr
    · rw [htaken]
      refine ⟨haligned, hasked, s.arena.cur, _, hb', Nat.le_add_right _ off, ?_⟩
      show s.arena.cur + blockHeader + off + size ≤ s.arena.cur + blockHeader + (off + size)
      omega
    · obtain ⟨hr₁, hr₂, hr₃⟩ := h.regions r hr
      exact ⟨hr₁, hr₂, hheld hr₃⟩
  · refine List.pairwise_cons.mpr ⟨fun r hr => ?_, h.apart⟩
    rw [htaken]
    refine (h.regions r hr).held.disjoint h.heap hb (Nat.add_le_add_left hoff _) ?_
    show s.arena.cur + blockHeader + off + size ≤ s.arena.cur + blockHeader + b.cap
    omega

/-- A new block behind the current one. -/
theorem Inv.link (h : s.Inv) {b : NtcArenaBlock} {p cap : Nat} (hcur : s.arena.cur ≠ 0)
    (hb : s.heap s.arena.cur = some b) (hp : p ≠ 0) (hfree : s.heap p = none)
    (hheap : HeapInv (Function.update s.heap p (some ⟨0, cap, 0⟩))) :
    let s' := { s.setBlock p (some ⟨0, cap, 0⟩) with mallocs := s.mallocs + 1 }
    let t := s'.setBlock s.arena.cur (some { b with next := p })
    Inv { t with arena.cur := p } ∧ t.heap p = some ⟨0, cap, 0⟩ := by
  intro s' t
  have hne : p ≠ s.arena.cur := by
    intro heq
    rw [heq, hb] at hfree
    exact absurd hfree (Option.some_ne_none b)
  have hp' : t.heap p = some ⟨0, cap, 0⟩ := by
    rw [setBlock_of_ne s' _ hne]
    exact setBlock_self ..
  have hb' : t.heap s.arena.cur = some { b with next := p } := setBlock_self ..
  have hold : s'.heap s.arena.cur = some b := by
    rw [← hb]
    exact setBlock_of_ne s _ hne.symm
  have hother {q : Nat} (hqp : q ≠ p) (hq : q ≠ s.arena.cur) : t.heap q = s.heap q := by
    rw [setBlock_of_ne s' _ hq]
    exact setBlock_of_ne s _ hqp
  have hheld {r : Region} (hr : Held s.heap r) : Held t.heap r := by
    refine Held.update (Held.update hr fun c hc => ?_) fun c hc => ?_
    · rw [hfree] at hc
      exact absurd hc.symm (Option.some_ne_none c)
    · rw [← Option.some.inj (hold.symm.trans hc)]
  refine ⟨⟨?_, ?_, ?_, h.apart⟩, hp'⟩
  · obtain ⟨-, -, hoff, -⟩ := h.heap.block hb
    exact hheap.change hold rfl hoff
  · obtain ⟨ps, hps, hlast, hnodup, hlen⟩ := h.chain
    have hnonempty : ps ≠ [] := by
      rintro rfl
      exact hcur hlast.symm
    have hnew : p ∉ ps := fun hmem => by
      obtain ⟨c, hc⟩ := chain_mem hps p hmem
      rw [hfree] at hc
      exact absurd hc.symm (Option.some_ne_none c)
    refine ⟨ps ++ [p], ?_, List.getLastD_concat .., ?_, ?_⟩
    · refine hps.append hnonempty hnodup (c := s.arena.cur) ?_ ?_ hp ?_ fun r hr hrc => ?_
      · rw [← hlast, List.getLastD_eq_getLast?, List.getLast?_eq_some_getLast hnonempty]
        rfl
      · show (t.heap s.arena.cur).map (·.next) = some p
        rw [hb']
        rfl
      · show (t.heap p).map (·.next) = some 0
        rw [hp']
        rfl
      · show (t.heap r).map (·.next) = (s.heap r).map (·.next)
        rw [hother (fun heq => hnew (heq ▸ hr)) hrc]
    · exact List.nodup_append.mpr ⟨hnodup, List.nodup_singleton p, fun a ha c hc heq => by
        rw [List.mem_singleton] at hc
        exact hnew (hc ▸ heq ▸ ha)⟩
    · rw [List.length_append]
      exact Nat.succ_le_succ hlen
  · intro r hr
    obtain ⟨hr₁, hr₂, hr₃⟩ := h.regions r hr
    exact ⟨hr₁, hr₂, hheld hr₃⟩

/-- The current block is one of memory. -/
theorem Inv.cur (h : s.Inv) (hcur : s.arena.cur ≠ 0) : ∃ b, s.heap s.arena.cur = some b := by
  obtain ⟨ps, hps, hlast, -, -⟩ := h.chain
  have hnonempty : ps ≠ [] := by
    rintro rfl
    exact hcur hlast.symm
  rw [List.getLastD_eq_getLast?, List.getLast?_eq_some_getLast hnonempty] at hlast
  rw [← hlast]
  exact chain_mem hps _ (List.getLast_mem hnonempty)

/-- What a call of `ntc_arena_alloc` may come to: nothing has changed, or the
    region that was returned keeps the invariant. -/
def AllocOk (s : ArenaState) (asked : Nat) (result : Option (ArenaState × Nat)) : Prop :=
  ∃ s' p, result = some (s', p) ∧ (p = 0 → s' = s) ∧
    (p ≠ 0 → Inv { s' with regions := s'.taken p asked :: s'.regions })

theorem AllocOk.fail (s : ArenaState) (asked : Nat) : AllocOk s asked (some (s, 0)) :=
  ⟨s, 0, rfl, fun _ => rfl, fun hne => absurd rfl hne⟩

theorem Inv.alloc (h : s.Inv) {malloc : Nat → Nat} (hm : MallocOk s malloc) (asked : Nat) :
    AllocOk s asked (ntcArenaAlloc malloc asked s) := by
  have hmax : sizeMax = 18446744073709551616 := rfl
  have hhdr : blockHeader = 32 := rfl
  rw [ntcArenaAlloc]
  by_cases hcur : s.arena.cur = 0
  · rw [if_pos hcur]
    exact AllocOk.fail s asked
  rw [if_neg hcur]
  dsimp only
  have hsize : 0 < (if asked = 0 then 1 else asked) := by split <;> omega
  have hasked : asked ≤ (if asked = 0 then 1 else asked) := by split <;> omega
  generalize (if asked = 0 then 1 else asked) = size at hsize hasked ⊢
  by_cases hlarge : sizeMax - 1 - (ntcArenaAlign - 1) < size
  · rw [if_pos hlarge]
    exact AllocOk.fail s asked
  rw [if_neg hlarge]
  have hneed : sizeAdd size (ntcArenaAlign - 1) = size + 15 := Nat.mod_eq_of_lt (by
    rw [show ntcArenaAlign - 1 = 15 from rfl] at hlarge ⊢
    omega)
  obtain ⟨b, hb⟩ := h.cur hcur
  obtain ⟨-, -, hoff, hspace⟩ := h.heap.block hb
  rw [hb, Option.bind_some, hneed]
  split
  · next hgrow =>
    -- a new block, big enough behind the bytes skipped for alignment
    have hcap : size + 15 ≤
        (if s.arena.blockSize < size + 15 then size + 15 else s.arena.blockSize) := by
      split <;> omega
    generalize (if s.arena.blockSize < size + 15 then size + 15 else s.arena.blockSize) = cap
      at hcap ⊢
    obtain hnew | ⟨p, hp, hfree, hheap, hnew⟩ := blockNew_spec h.heap hm (show 0 < cap by omega)
    · rw [hnew, if_pos rfl]
      exact AllocOk.fail s asked
    · rw [hnew]
      dsimp only
      rw [if_neg hp]
      obtain ⟨hinv, hblock⟩ := h.link hcur hb hp hfree hheap
      obtain ⟨-, -, -, hspace'⟩ := hinv.heap.block hblock
      obtain ⟨haligned, hfits, hmod⟩ := room_in_new_block hspace' hsize hcap
      have hregion := hinv.bump hblock (Nat.zero_le _) hfits
        (by rw [← haligned]; exact hmod) hasked
      rw [← haligned] at hregion
      refine ⟨_, _, congrArg (Option.map _) hblock, fun hzero => ?_, fun _ => hregion⟩
      omega
  · next hroom =>
    obtain ⟨haligned, hnewOff, hfits, hmod⟩ :=
      room_in_block (show 0 < s.arena.cur + blockHeader by omega) hspace hoff hsize hroom
    have hinv := h.bump hb hnewOff hfits (by rw [← haligned]; exact hmod) hasked
    rw [← haligned] at hinv
    refine ⟨_, _, rfl, fun hzero => ?_, fun _ => hinv⟩
    omega

theorem Inv.init (h : s.Inv) {malloc : Nat → Nat} (hm : MallocOk s malloc) (blockSize : Nat) :
    Inv (ntcArenaInit malloc blockSize s).1 := by
  rw [ntcArenaInit]
  dsimp only
  have hcap : 0 < (if blockSize = 0 then ntcArenaDefaultBlock else blockSize) := by
    split
    · decide
    · omega
  generalize (if blockSize = 0 then ntcArenaDefaultBlock else blockSize) = cap at hcap ⊢
  obtain hnew | ⟨p, hp, hfree, hheap, hnew⟩ := blockNew_spec h.heap hm hcap
  · rw [hnew, if_pos rfl]
    exact h
  · rw [hnew]
    dsimp only
    rw [if_neg hp]
    refine ⟨hheap, ⟨[p], ⟨rfl, hp, 0, ?_, rfl⟩, rfl, List.nodup_singleton p, ?_⟩, ?_, h.apart⟩
    · exact congrArg (Option.map NtcArenaBlock.next) (setBlock_self ..)
    · exact Nat.succ_le_succ (Nat.zero_le _)
    · intro r hr
      obtain ⟨hr₁, hr₂, hr₃⟩ := h.regions r hr
      refine ⟨hr₁, hr₂, hr₃.update fun c hc => ?_⟩
      rw [hfree] at hc
      exact absurd hc.symm (Option.some_ne_none c)

/-- The loop over a chain frees its blocks and nothing else. -/
theorem freeBlocks_spec {n q : Nat} {ps : List Nat} (hps : Chain s.next q ps) (hnodup : ps.Nodup)
    (hlen : ps.length ≤ n) :
    freeBlocks n q s = some { s with heap := fun p => if p ∈ ps then none else s.heap p } := by
  induction ps generalizing n q s with
  | nil =>
      have hend : freeBlocks n q s = some s := by
        cases n <;> rw [freeBlocks, if_pos (show q = 0 from hps)]
      rw [hend]
      simp only [List.not_mem_nil, if_false]
  | cons r rs ih =>
      obtain ⟨rfl, hq, next, hnext, hrs⟩ := hps
      obtain ⟨b, hb, rfl⟩ := Option.map_eq_some_iff.mp hnext
      obtain ⟨hmem, hnodup⟩ := List.nodup_cons.mp hnodup
      cases n with
      | zero => exact absurd hlen (Nat.not_succ_le_zero _)
      | succ n =>
          rw [freeBlocks, if_neg hq, hb, Option.bind_some, ih (hrs.congr fun p hp => ?_) hnodup
            (Nat.le_of_succ_le_succ hlen)]
          · congr 2
            funext p
            by_cases hpq : p = q
            · subst hpq
              rw [if_neg hmem, if_pos List.mem_cons_self]
              exact setBlock_self ..
            · rw [setBlock_of_ne s none hpq]
              simp only [List.mem_cons, hpq, false_or]
          · have hpq : p ≠ q := fun heq => hmem (heq ▸ hp)
            exact congrArg (Option.map _) (setBlock_of_ne s none hpq)

/-- `ntc_arena_reset` keeps the first block, empty. -/
theorem Inv.reset (h : s.Inv) :
    ∃ s', ntcArenaReset s = some s' ∧ Inv { s' with regions := [] } := by
  rw [ntcArenaReset]
  by_cases hfirst : s.arena.first = 0
  · rw [if_pos hfirst]
    exact ⟨s, rfl, h.heap, h.chain, fun r hr => absurd hr List.not_mem_nil, .nil⟩
  rw [if_neg hfirst]
  obtain ⟨ps, hps, -, hnodup, hlen⟩ := h.chain
  obtain ⟨next, qs, rfl, hnext, hqs⟩ := hps.cons_of_ne hfirst
  obtain ⟨b, hb, rfl⟩ := Option.map_eq_some_iff.mp hnext
  obtain ⟨hmem, hnodup⟩ := List.nodup_cons.mp hnodup
  rw [hb, Option.bind_some, freeBlocks_spec hqs hnodup (by exact Nat.le_of_succ_le hlen),
    Option.bind_some]
  dsimp only
  rw [if_neg hmem, hb, Option.map_some]
  have hfirst' : (if s.arena.first ∈ qs then none else s.heap s.arena.first) = some b := by
    rw [if_neg hmem, hb]
  refine ⟨_, rfl, ?_, ⟨[s.arena.first], ⟨rfl, hfirst, 0, ?_, rfl⟩, rfl, List.nodup_singleton _, ?_⟩,
    fun r hr => absurd hr List.not_mem_nil, .nil⟩
  · refine HeapInv.change (b := b) (h.heap.restrict fun p c hc => ?_) hfirst' rfl (Nat.zero_le _)
    replace hc : (if p ∈ qs then none else s.heap p) = some c := hc
    by_cases hp : p ∈ qs
    · rw [if_pos hp] at hc
      exact absurd hc.symm (Option.some_ne_none c)
    · rwa [if_neg hp] at hc
  · exact congrArg (Option.map NtcArenaBlock.next) (ArenaState.setBlock_self ..)
  · exact (Nat.succ_le_succ (Nat.zero_le qs.length)).trans hlen

end ArenaState

-- ============================================================================
-- Runs
-- ============================================================================

/-- One call keeps the invariant, and follows no bad pointer. -/
theorem arenaStep_inv {s : Option ArenaState} {op : ArenaOp}
    (h : ∃ s' ∈ s, s'.Inv) (hm : op.MallocOk s) : ∃ s' ∈ arenaStep s op, s'.Inv := by
  obtain ⟨s, rfl, hs⟩ := h
  cases op with
  | init malloc blockSize => exact ⟨_, rfl, hs.init (hm s rfl) blockSize⟩
  | alloc malloc size =>
      obtain ⟨s', p, hres, hfail, hok⟩ := hs.alloc (hm s rfl) size
      refine ⟨_, congrArg (Option.map _) hres, ?_⟩
      dsimp only
      split
      · next hp =>
        rw [hfail hp]
        exact hs
      · next hp => exact hok hp
  | reset =>
      obtain ⟨s', hres, hinv⟩ := hs.reset
      exact ⟨_, congrArg (Option.map _) hres, hinv⟩

/-- What is promised of an arena. -/
structure ArenaState.Sound (s : ArenaState) : Prop where
  /-- The blocks from `first` on are filled up to `off` at most, and the last
      of them is `cur`. -/
  chain : ∃ ps, Chain s.next s.arena.first ps ∧ ps.getLastD 0 = s.arena.cur ∧
    ∀ p ∈ ps, ∃ b, s.heap p = some b ∧ b.off ≤ b.cap
  aligned : ∀ r ∈ s.regions, r.addr % 16 = 0
  long : ∀ r ∈ s.regions, r.size ≤ r.len
  inside : ∀ r ∈ s.regions, ∃ p b, s.heap p = some b ∧ r.toRegion.Inside (b.data p)
  apart : s.regions.Pairwise fun r r' => r.toRegion.Disjoint r'.toRegion

theorem ArenaState.Inv.sound {s : ArenaState} (h : s.Inv) : s.Sound where
  chain := by
    obtain ⟨ps, hps, hlast, -⟩ := h.chain
    refine ⟨ps, hps, hlast, fun p hp => ?_⟩
    obtain ⟨b, hb⟩ := chain_mem hps p hp
    exact ⟨b, hb, (h.heap.block hb).2.2.1⟩
  aligned := fun r hr => (h.regions r hr).aligned
  long := fun r hr => (h.regions r hr).size
  inside := by
    intro r hr
    obtain ⟨p, b, hb, hstart, hstop⟩ := (h.regions r hr).held
    exact ⟨p, b, hb, hstart, hstop.trans (Nat.add_le_add_left (h.heap.block hb).2.2.1 _)⟩
  apart := h.apart

/-- Every sequence of calls on an arena whose memory was zeroed: no pointer is
    followed that does not point to a block, the arena is sound, and a further
    allocation that fails changes nothing. -/
theorem ntcArena_sound (ops : List ArenaOp)
    (hmalloc : Lib.Along arenaStep (fun s op => op.MallocOk s) (some {}) ops) :
    ∃ s, ops.foldl arenaStep (some {}) = some s ∧ s.Sound ∧
      ∀ malloc size, MallocOk s malloc → ∃ s' p, ntcArenaAlloc malloc size s = some (s', p) ∧
        (p = 0 → s' = s) := by
  obtain ⟨s, hs, hinv⟩ := hmalloc.keep arenaStep_inv ⟨{}, rfl, ArenaState.Inv.start⟩
  refine ⟨s, hs, hinv.sound, fun malloc size hm => ?_⟩
  obtain ⟨s', p, hres, hfail, -⟩ := hinv.alloc hm size
  exact ⟨s', p, hres, hfail⟩

/-- The first block is too small for 50 bytes behind the 15 that are skipped for
    alignment; two regions are cut off a second one. -/
def twoBlocks : List ArenaOp :=
  [.init (fun n => if n = 96 then 1009 else 0) 64, .alloc (fun n => if n = 97 then 2016 else 0) 50,
    .alloc (fun _ => 0) 1]

theorem ntcArena_sound_two :
    (twoBlocks.foldl arenaStep (some {})).map (·.regions) =
        some [⟨⟨2112, 1⟩, 1⟩, ⟨⟨2048, 50⟩, 50⟩] ∧
      ∃ s, twoBlocks.foldl arenaStep (some {}) = some s ∧ s.Sound ∧
        ∀ malloc size, MallocOk s malloc → ∃ s' p, ntcArenaAlloc malloc size s = some (s', p) ∧
          (p = 0 → s' = s) := by
  refine ⟨by decide +kernel, ntcArena_sound twoBlocks ⟨?_, ?_, ?_, trivial⟩⟩
  · rintro _ ⟨⟩ n _
    by_cases hn : n = 96
    · subst hn
      exact .inr ⟨by decide, fun p b hb => absurd hb (Option.some_ne_none b).symm⟩
    · exact .inl (if_neg hn)
  · rintro s hs n _
    have hinit : arenaStep (some {}) (.init (fun n => if n = 96 then 1009 else 0) 64) =
        some { ArenaState.setBlock {} 1009 (some ⟨0, 64, 0⟩) with
               arena := ⟨1009, 1009, 64⟩, mallocs := 1 } := rfl
    rw [hinit] at hs
    obtain rfl := Option.some.inj hs
    by_cases hn : n = 97
    · subst hn
      refine .inr ⟨by decide, fun p b hb => ?_⟩
      by_cases hp : p = 1009
      · subst hp
        have hblock := (ArenaState.setBlock_self {} 1009 (some ⟨0, 64, 0⟩)).symm.trans hb
        rw [← Option.some.inj hblock]
        exact .inr (by decide)
      · have hnone := (ArenaState.setBlock_of_ne {} _ hp).symm.trans hb
        exact absurd hnone (Option.some_ne_none b).symm
    · exact .inl (if_neg hn)
  · exact fun s _ n _ => .inl rfl

end Naitron
