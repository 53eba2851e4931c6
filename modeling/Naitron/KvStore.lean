/-
  Naitron.KvStore

  The TTL store of `src/core/session.c`: a fixed array of entries, an expiry
  of zero marking an empty one.

  The store is a map kept in slots.  Its history is the log of what was put,
  deleted, found expired and evicted; at every point of a run the map holds
  what the log says was put last and not touched since.
-/

import Naitron.Bytes
import Naitron.Lib.SlotMap

namespace Naitron

open Naitron.Lib

-- ============================================================================
-- The code
-- ============================================================================

/-- `NTC_KV_KEYLEN`. -/
def ntcKvKeylen : Nat := 96

/-- `NTC_KV_VALLEN`. -/
def ntcKvVallen : Nat := 1024

/-- `kv_entry`. -/
structure KvEntry where
  key : CStr 96
  val : CStr 1024
  expiry : Int
deriving DecidableEq

/-- `struct ntc_kvstore`, with room for `cap` entries. -/
structure NtcKvstore (cap : Nat) where
  e : Fin cap → KvEntry

variable {cap : Nat}

/-- `ntc_kv_new`. -/
def ntcKvNew (cap : Nat) : NtcKvstore (if cap = 0 then 1024 else cap) where
  e _ := ⟨.empty 96, .empty 1024, 0⟩

/-- The key of an entry, `none` for an empty slot. -/
def KvEntry.occupiedKey (e : KvEntry) : Option Bytes :=
  if e.expiry ≠ 0 then some e.key.bytes else none

/-- `kv_find`. -/
def kvFind (kv : NtcKvstore cap) (key : Bytes) : Option (Fin cap) :=
  slotOf KvEntry.occupiedKey kv.e key

/-- The loop of `ntc_kv_put` over the remaining slots: the first empty one,
    else the soonest to expire. -/
def kvScan (kv : NtcKvstore cap) : List (Fin cap) → Option (Fin cap) → Option (Fin cap)
  | [], victim => victim
  | i :: is, victim =>
      if (kv.e i).expiry = 0 then some i
      else
        kvScan kv is
          (if victim.all fun v => decide ((kv.e i).expiry < (kv.e v).expiry) then some i
            else victim)

/-- The slot that `ntc_kv_put` writes. -/
def kvSlot (kv : NtcKvstore cap) (key : Bytes) : Option (Fin cap) :=
  (kvFind kv key).or (kvScan kv (List.finRange cap) none)

/-- `ntc_kv_put`. -/
def ntcKvPut (kv : NtcKvstore cap) (key val : Bytes) (expiry : Int) : NtcKvstore cap :=
  if ntcKvKeylen ≤ key.length ∨ ntcKvVallen ≤ val.length then kv
  else
    match kvSlot kv key with
    | none => kv
    | some i =>
        ⟨Function.update kv.e i
          ⟨.set 96 key, .set 1024 val, if expiry ≠ 0 then expiry else 1⟩⟩

/-- An entry that a `get` at `now` finds expired. -/
def KvEntry.Expired (e : KvEntry) (now : Int) : Prop := 0 < now ∧ e.expiry ≤ now

instance (e : KvEntry) (now : Int) : Decidable (e.Expired now) :=
  inferInstanceAs (Decidable (_ ∧ _))

/-- `ntc_kv_get`: what it leaves in `out[outCap]`, `none` for `false`. -/
def ntcKvGet (kv : NtcKvstore cap) (key : Bytes) (now : Int) (outCap : Nat) :
    Option Bytes × NtcKvstore cap :=
  match kvFind kv key with
  | none => (none, kv)
  | some i =>
      if (kv.e i).Expired now then
        (none, ⟨Function.update kv.e i { kv.e i with expiry := 0 }⟩)
      else (some (clip outCap (kv.e i).val.bytes), kv)

/-- `ntc_kv_del`. -/
def ntcKvDel (kv : NtcKvstore cap) (key : Bytes) : NtcKvstore cap :=
  match kvFind kv key with
  | none => kv
  | some i => ⟨Function.update kv.e i ⟨.empty 96, .empty 1024, 0⟩⟩

-- ============================================================================
-- Runs and their history
-- ============================================================================

/-- A call, with keys under 96 and values under 1024 bytes. -/
inductive KvOp where
  | put (key : CStr 96) (val : CStr 1024) (expiry : Int)
  | get (key : CStr 96) (now : Int) (outCap : Nat)
  | del (key : CStr 96)

/-- The store after a call. -/
def kvStep (kv : NtcKvstore cap) : KvOp → NtcKvstore cap
  | .put key val expiry => ntcKvPut kv key.bytes val.bytes expiry
  | .get key now outCap => (ntcKvGet kv key.bytes now outCap).2
  | .del key => ntcKvDel kv key.bytes

/-- What happens to a key. -/
inductive KvEvent where
  | put (key val : Bytes) (expiry : Int)
  | deleted (key : Bytes)
  | expired (key : Bytes)
  | evicted (key : Bytes)
deriving DecidableEq

/-- The key an event is about. -/
def KvEvent.key : KvEvent → Bytes
  | .put key _ _ => key
  | .deleted key => key
  | .expired key => key
  | .evicted key => key

/-- The other keys that a put makes disappear. -/
def kvEvicted (kv : NtcKvstore cap) (key val : Bytes) (expiry : Int) : List Bytes :=
  ((List.finRange cap).filterMap fun i => (kv.e i).occupiedKey).filter fun k =>
    k ≠ key ∧ kvFind (ntcKvPut kv key val expiry) k = none

/-- What a call does to keys. -/
def kvEvents (kv : NtcKvstore cap) : KvOp → List KvEvent
  | .put key val expiry =>
      (kvEvicted kv key.bytes val.bytes expiry).map .evicted
        ++ [.put key.bytes val.bytes expiry]
  | .get key now _ =>
      if (kvFind kv key.bytes).any fun i => decide ((kv.e i).Expired now) then
        [.expired key.bytes]
      else []
  | .del key => [.deleted key.bytes]

/-- The history of a run. -/
def kvLog : NtcKvstore cap → List KvOp → List KvEvent
  | _, [] => []
  | kv, op :: ops => kvEvents kv op ++ kvLog (kvStep kv op) ops

/-- The last event of a log about a key is that this value was put. -/
def LastPut (log : List KvEvent) (key val : Bytes) (expiry : Int) : Prop :=
  ∃ before after, log = before ++ .put key val expiry :: after ∧ ∀ ev ∈ after, ev.key ≠ key

-- ============================================================================
-- The slot a put writes
-- ============================================================================

theorem CStr.set_bytes {n : Nat} (s : CStr n) (h : 0 < n) : CStr.set n s.bytes = s := by
  have hfits := s.fits
  have hclip : clip n s.bytes = s.bytes := clip_of_fits s.noNul (by omega)
  cases s
  rw [CStr.set]
  congr 1

theorem KvEntry.occupiedKey_eq_none_iff (e : KvEntry) : e.occupiedKey = none ↔ e.expiry = 0 := by
  rw [occupiedKey]
  split_ifs with h
  · exact iff_of_false id h
  · exact iff_of_true rfl (not_not.mp h)

/-- The scan ends at an empty slot, or at one of the slots it has seen, all of
    them occupied, with the least expiry. -/
theorem kvScan_spec (kv : NtcKvstore cap) :
    ∀ (slots : List (Fin cap)) (victim : Option (Fin cap)) (i : Fin cap),
      kvScan kv slots victim = some i →
      (kv.e i).expiry = 0 ∨
        ((i ∈ slots ∨ victim = some i) ∧ (∀ j ∈ slots, (kv.e j).expiry ≠ 0) ∧
          (∀ j ∈ slots, (kv.e i).expiry ≤ (kv.e j).expiry) ∧
          ∀ v ∈ victim, (kv.e i).expiry ≤ (kv.e v).expiry) := by
  intro slots
  induction slots with
  | nil =>
      intro victim i h
      rw [kvScan] at h
      refine Or.inr ⟨Or.inr h, fun j hj => absurd hj List.not_mem_nil,
        fun j hj => absurd hj List.not_mem_nil, fun v hv => ?_⟩
      rw [h, Option.mem_some_iff] at hv
      rw [hv]
  | cons a slots ih =>
      intro victim i h
      rw [kvScan] at h
      split_ifs at h with hempty hless
      · rw [Option.some.inj h] at hempty
        exact Or.inl hempty
      · rcases ih _ _ h with hzero | ⟨hmem, hocc, hmin, hvictim⟩
        · exact Or.inl hzero
        · have hia := hvictim a rfl
          refine Or.inr ⟨Or.inl ?_, ?_, ?_, fun v hv => ?_⟩
          · rcases hmem with hmem | hmem
            · exact List.mem_cons_of_mem a hmem
            · exact Option.some.inj hmem ▸ List.mem_cons_self
          · exact List.forall_mem_cons.mpr ⟨hempty, hocc⟩
          · exact List.forall_mem_cons.mpr ⟨hia, hmin⟩
          · rw [hv, Option.all_some] at hless
            exact le_trans hia (le_of_lt (of_decide_eq_true hless))
      · rcases ih _ _ h with hzero | ⟨hmem, hocc, hmin, hvictim⟩
        · exact Or.inl hzero
        · obtain ⟨v, hv⟩ : ∃ v, victim = some v := by
            cases victim with
            | none => exact absurd rfl hless
            | some v => exact ⟨v, rfl⟩
          rw [hv, Option.all_some] at hless
          have hiv := hvictim v hv
          have hva : (kv.e v).expiry ≤ (kv.e a).expiry :=
            not_lt.mp fun hlt => hless (decide_eq_true hlt)
          refine Or.inr ⟨hmem.imp_left (List.mem_cons_of_mem a), ?_, ?_, hvictim⟩
          · exact List.forall_mem_cons.mpr ⟨hempty, hocc⟩
          · exact List.forall_mem_cons.mpr ⟨le_trans hiv hva, hmin⟩

/-- A scan that meets a slot ends at one. -/
theorem kvScan_ne_none (kv : NtcKvstore cap) :
    ∀ (slots : List (Fin cap)) (victim : Option (Fin cap)), slots ≠ [] ∨ victim ≠ none →
      kvScan kv slots victim ≠ none := by
  intro slots
  induction slots with
  | nil =>
      intro victim h
      exact h.resolve_left fun hne => hne rfl
  | cons a slots ih =>
      intro victim _
      rw [kvScan]
      split_ifs with hempty hless
      · exact Option.some_ne_none a
      · exact ih _ (Or.inr (Option.some_ne_none a))
      · refine ih _ (Or.inr fun hnone => hless ?_)
        rw [hnone]
        rfl

/-- The slot a put writes: the one of its key, or else an empty one, or else,
    in a full store, one of least expiry. -/
theorem kvSlot_spec (hcap : 0 < cap) (kv : NtcKvstore cap) (key : Bytes) :
    ∃ i, kvSlot kv key = some i ∧
      ((kv.e i).occupiedKey = some key ∨
        (∀ j, (kv.e j).occupiedKey ≠ some key) ∧
          ((kv.e i).occupiedKey = none ∨
            (∀ j, (kv.e j).expiry ≠ 0) ∧ ∀ j, (kv.e i).expiry ≤ (kv.e j).expiry)) := by
  rw [kvSlot]
  cases hfind : kvFind kv key with
  | some i => exact ⟨i, rfl, Or.inl (slotOf_some hfind)⟩
  | none =>
      have hne : List.finRange cap ≠ [] := by
        apply List.ne_nil_of_length_pos
        rwa [List.length_finRange]
      obtain ⟨i, hscan⟩ := Option.ne_none_iff_exists'.mp
        (kvScan_ne_none kv (List.finRange cap) none (Or.inl hne))
      refine ⟨i, hscan, Or.inr ⟨slotOf_eq_none_iff.mp hfind, ?_⟩⟩
      rw [KvEntry.occupiedKey_eq_none_iff]
      rcases kvScan_spec kv _ _ _ hscan with hzero | ⟨_, hocc, hmin, _⟩
      · exact Or.inl hzero
      · exact Or.inr ⟨fun j => hocc j (List.mem_finRange j), fun j => hmin j (List.mem_finRange j)⟩

-- ============================================================================
-- The map
-- ============================================================================

/-- What the store holds under a key: the value and its expiry. -/
def kvHeld (kv : NtcKvstore cap) (key : Bytes) : Option (Bytes × Int) :=
  (contents KvEntry.occupiedKey kv.e key).map fun e => (e.val.bytes, e.expiry)

/-- Occupied entries have different keys. -/
def KvDistinct (kv : NtcKvstore cap) : Prop :=
  DistinctKeys KvEntry.occupiedKey kv.e

/-- A put in terms of the slot it writes. -/
theorem ntcKvPut_eq (kv : NtcKvstore cap) (key : CStr 96) (val : CStr 1024) {expiry : Int}
    (hexp : 0 < expiry) {i : Fin cap} (hslot : kvSlot kv key.bytes = some i) :
    ntcKvPut kv key.bytes val.bytes expiry = ⟨Function.update kv.e i ⟨key, val, expiry⟩⟩ := by
  have hkey := key.fits
  have hval := val.fits
  rw [ntcKvPut, hslot, if_neg (by rw [ntcKvKeylen, ntcKvVallen]; omega), if_pos (by omega),
    CStr.set_bytes key (by decide), CStr.set_bytes val (by decide)]

theorem occupiedKey_put (key : CStr 96) (val : CStr 1024) {expiry : Int} (hexp : 0 < expiry) :
    (KvEntry.mk key val expiry).occupiedKey = some key.bytes :=
  if_pos (by show expiry ≠ 0; omega)

/-- Only the slot written can hold the key that is put. -/
theorem kvSlot_only {kv : NtcKvstore cap} (hkv : KvDistinct kv) {key : Bytes} {i : Fin cap}
    (h : (kv.e i).occupiedKey = some key ∨ ∀ j, (kv.e j).occupiedKey ≠ some key) :
    ∀ j, (kv.e j).occupiedKey = some key → j = i := by
  intro j hj
  rcases h with hi | hnone
  · exact hkv j i key hj hi
  · exact absurd hj (hnone j)

theorem kvHeld_eq_some_iff {kv : NtcKvstore cap} (hkv : KvDistinct kv) {key : Bytes}
    {i : Fin cap} (h : (kv.e i).occupiedKey = some key) :
    kvHeld kv key = some ((kv.e i).val.bytes, (kv.e i).expiry) := by
  rw [kvHeld, contents_of_key hkv h, Option.map_some]

/-- After a put: the value under its key, nothing under the key that was in
    the slot before, and the rest as it was. -/
theorem kvHeld_put {kv : NtcKvstore cap} (hkv : KvDistinct kv) (key : CStr 96) (val : CStr 1024)
    {expiry : Int} (hexp : 0 < expiry) {i : Fin cap} (hslot : kvSlot kv key.bytes = some i)
    (honly : ∀ j, (kv.e j).occupiedKey = some key.bytes → j = i) :
    KvDistinct (ntcKvPut kv key.bytes val.bytes expiry) ∧
      ∀ k, kvHeld (ntcKvPut kv key.bytes val.bytes expiry) k
        = if key.bytes = k then some (val.bytes, expiry)
          else if (kv.e i).occupiedKey = some k then none else kvHeld kv k := by
  have hnew := occupiedKey_put key val hexp
  have hwrite : ∀ k, (KvEntry.mk key val expiry).occupiedKey = some k →
      ∀ j, (kv.e j).occupiedKey = some k → j = i := by
    intro k hk j hj
    rw [hnew] at hk
    exact honly j (hk ▸ hj)
  rw [ntcKvPut_eq kv key val hexp hslot]
  refine ⟨hkv.update hwrite, fun k => ?_⟩
  rw [kvHeld, contents_update hkv hwrite, hnew]
  simp only [Option.some_inj]
  split_ifs <;> rfl

/-- Emptying the slot of a key takes the key out of the map. -/
theorem kvHeld_empty {kv : NtcKvstore cap} (hkv : KvDistinct kv) {key : Bytes} {i : Fin cap}
    (hi : (kv.e i).occupiedKey = some key) {x : KvEntry} (hx : x.expiry = 0) :
    KvDistinct ⟨Function.update kv.e i x⟩ ∧
      ∀ k, kvHeld ⟨Function.update kv.e i x⟩ k = if key = k then none else kvHeld kv k := by
  have hnone := (KvEntry.occupiedKey_eq_none_iff x).mpr hx
  have hwrite : ∀ k, x.occupiedKey = some k → ∀ j, (kv.e j).occupiedKey = some k → j = i := by
    intro k hk
    rw [hnone] at hk
    cases hk
  refine ⟨hkv.update hwrite, fun k => ?_⟩
  rw [kvHeld, contents_update hkv hwrite, hnone, if_neg (Option.some_ne_none k).symm, hi]
  simp only [Option.some_inj]
  split_ifs <;> rfl

theorem kvHeld_of_find_none {kv : NtcKvstore cap} {key : Bytes} (h : kvFind kv key = none) :
    kvHeld kv key = none := by
  rw [kvHeld, contents_eq_none_iff.mpr (slotOf_eq_none_iff.mp h), Option.map_none]

/-- After a deletion: nothing under the key. -/
theorem kvHeld_del {kv : NtcKvstore cap} (hkv : KvDistinct kv) (key : Bytes) :
    KvDistinct (ntcKvDel kv key) ∧
      ∀ k, kvHeld (ntcKvDel kv key) k = if key = k then none else kvHeld kv k := by
  rw [ntcKvDel]
  cases hfind : kvFind kv key with
  | none =>
      refine ⟨hkv, fun k => ?_⟩
      split_ifs with hk
      · rw [← hk]
        exact kvHeld_of_find_none hfind
      · rfl
  | some i => exact kvHeld_empty hkv (slotOf_some hfind) rfl

/-- What a get answers and leaves, in terms of the map. -/
theorem ntcKvGet_spec {kv : NtcKvstore cap} (hkv : KvDistinct kv) (key : Bytes) (now : Int)
    (outCap : Nat) :
    (ntcKvGet kv key now outCap).1
        = (kvHeld kv key).bind (fun p =>
            if 0 < now ∧ p.2 ≤ now then none else some (clip outCap p.1)) ∧
      KvDistinct (ntcKvGet kv key now outCap).2 ∧
      ∀ k, kvHeld (ntcKvGet kv key now outCap).2 k
        = if (kvFind kv key).any (fun i => decide ((kv.e i).Expired now)) ∧ key = k then none
          else kvHeld kv k := by
  rw [ntcKvGet]
  cases hfind : kvFind kv key with
  | none =>
      refine ⟨by rw [kvHeld_of_find_none hfind]; rfl, hkv, fun k => ?_⟩
      rw [if_neg fun h => Bool.noConfusion h.1]
  | some i =>
      have hi := slotOf_some hfind
      rw [kvHeld_eq_some_iff hkv hi, Option.bind_some]
      simp only [Option.any_some, decide_eq_true_eq]
      by_cases hexp : (kv.e i).Expired now
      · obtain ⟨hkv', hheld⟩ := kvHeld_empty hkv hi
          (x := { kv.e i with expiry := 0 }) rfl
        rw [if_pos hexp, if_pos (show 0 < now ∧ (kv.e i).expiry ≤ now from hexp)]
        refine ⟨rfl, hkv', fun k => ?_⟩
        rw [hheld k]
        split_ifs with h1 h2 h3
        · rfl
        · exact absurd ⟨hexp, h1⟩ h2
        · exact absurd h3.2 h1
        · rfl
      · rw [if_neg hexp, if_neg (show ¬ (0 < now ∧ (kv.e i).expiry ≤ now) from hexp)]
        refine ⟨rfl, hkv, fun k => ?_⟩
        rw [if_neg fun h => hexp h.1]

/-- What a put does: it writes the slot of its key, or an empty one, or, when
    the key is new and the store full, the slot of an entry of least expiry. -/
theorem ntcKvPut_spec {kv : NtcKvstore cap} (hkv : KvDistinct kv) (hcap : 0 < cap)
    (key : CStr 96) (val : CStr 1024) {expiry : Int} (hexp : 0 < expiry) :
    KvDistinct (ntcKvPut kv key.bytes val.bytes expiry) ∧
      ∃ i : Fin cap,
        (∀ k, kvHeld (ntcKvPut kv key.bytes val.bytes expiry) k
          = if key.bytes = k then some (val.bytes, expiry)
            else if (kv.e i).occupiedKey = some k then none else kvHeld kv k) ∧
        ((kv.e i).occupiedKey = some key.bytes ∨ (kv.e i).occupiedKey = none ∨
          (∀ j, (kv.e j).occupiedKey ≠ some key.bytes) ∧ (∀ j, (kv.e j).expiry ≠ 0) ∧
            ∀ j, (kv.e i).expiry ≤ (kv.e j).expiry) := by
  obtain ⟨i, hslot, hi⟩ := kvSlot_spec hcap kv key.bytes
  obtain ⟨hkv', hheld⟩ := kvHeld_put hkv key val hexp hslot
    (kvSlot_only hkv (hi.imp_right And.left))
  refine ⟨hkv', i, hheld, ?_⟩
  rcases hi with hi | ⟨hnew, hi | ⟨hfull, hmin⟩⟩
  · exact Or.inl hi
  · exact Or.inr (Or.inl hi)
  · exact Or.inr (Or.inr ⟨hnew, hfull, hmin⟩)

theorem kvFind_eq_none_iff {kv : NtcKvstore cap} {key : Bytes} :
    kvFind kv key = none ↔ kvHeld kv key = none := by
  rw [kvHeld, Option.map_eq_none_iff, contents_eq_none_iff]
  exact slotOf_eq_none_iff

/-- The keys of the occupied entries. -/
def kvKeys (kv : NtcKvstore cap) : List Bytes :=
  (List.finRange cap).filterMap fun i => (kv.e i).occupiedKey

theorem mem_kvKeys {kv : NtcKvstore cap} {k : Bytes} :
    k ∈ kvKeys kv ↔ ∃ i, (kv.e i).occupiedKey = some k := by
  rw [kvKeys, List.mem_filterMap]
  exact ⟨fun ⟨i, _, h⟩ => ⟨i, h⟩, fun ⟨i, h⟩ => ⟨i, List.mem_finRange i, h⟩⟩

theorem kvKeys_nodup {kv : NtcKvstore cap} (hkv : KvDistinct kv) : (kvKeys kv).Nodup :=
  (List.nodup_finRange cap).filterMap fun i j k hi hj => hkv i j k hi hj

/-- The keys a put makes disappear: none if its key is there or a slot is
    empty, else the key of one entry of least expiry. -/
theorem kvEvicted_spec {kv : NtcKvstore cap} (hkv : KvDistinct kv) (hcap : 0 < cap)
    (key : CStr 96) (val : CStr 1024) {expiry : Int} (hexp : 0 < expiry) :
    kvEvicted kv key.bytes val.bytes expiry = [] ∨
      (∀ j, (kv.e j).occupiedKey ≠ some key.bytes) ∧ (∀ j, (kv.e j).expiry ≠ 0) ∧
        ∃ i, kvEvicted kv key.bytes val.bytes expiry = [(kv.e i).key.bytes] ∧
          ∀ j, (kv.e i).expiry ≤ (kv.e j).expiry := by
  obtain ⟨_, i, hheld, hi⟩ := ntcKvPut_spec hkv hcap key val hexp
  -- a key of the store is gone exactly if the slot written was its own
  have hgone : ∀ k ∈ kvKeys kv, (k ≠ key.bytes ∧
      kvFind (ntcKvPut kv key.bytes val.bytes expiry) k = none) ↔
        k ≠ key.bytes ∧ (kv.e i).occupiedKey = some k := by
    intro k hk
    obtain ⟨j, hj⟩ := mem_kvKeys.mp hk
    refine and_congr_right fun hne => ?_
    rw [kvFind_eq_none_iff, hheld k, if_neg hne.symm]
    split_ifs with h
    · exact iff_of_true rfl h
    · rw [kvHeld_eq_some_iff hkv hj]
      exact iff_of_false (Option.some_ne_none _) h
  have hevicted : kvEvicted kv key.bytes val.bytes expiry
      = (kvKeys kv).filter fun k => decide (k ≠ key.bytes ∧ (kv.e i).occupiedKey = some k) :=
    List.filter_congr fun k hk => decide_eq_decide.mpr (hgone k hk)
  rw [hevicted]
  rcases hi with hown | hempty | ⟨hnew, hfull, hmin⟩
  · refine Or.inl (List.filter_eq_nil_iff.mpr fun k _ h => ?_)
    obtain ⟨hne, hk⟩ := of_decide_eq_true h
    exact hne (Option.some.inj (hk.symm.trans hown))
  · refine Or.inl (List.filter_eq_nil_iff.mpr fun k _ h => ?_)
    exact Option.some_ne_none k ((of_decide_eq_true h).2.symm.trans hempty)
  · have hi : (kv.e i).occupiedKey = some (kv.e i).key.bytes := if_pos (hfull i)
    refine Or.inr ⟨hnew, hfull, i, ?_, hmin⟩
    have hfilter : (kvKeys kv).filter (fun k =>
          decide (k ≠ key.bytes ∧ (kv.e i).occupiedKey = some k))
        = (kvKeys kv).filter (· == (kv.e i).key.bytes) := by
      apply List.filter_congr
      intro k _
      rw [Bool.eq_iff_iff, decide_eq_true_eq, beq_iff_eq, hi, Option.some_inj]
      constructor
      · exact fun h => h.2.symm
      · intro h
        refine ⟨fun hk => hnew i ?_, h.symm⟩
        rw [hi, ← h, hk]
    rw [hfilter, List.filter_beq,
      List.count_eq_one_of_mem (kvKeys_nodup hkv) (mem_kvKeys.mpr ⟨i, hi⟩), List.replicate_one]

-- ============================================================================
-- The map and the history
-- ============================================================================

theorem lastPut_nil (k v : Bytes) (x : Int) : ¬ LastPut [] k v x := by
  rintro ⟨before, after, h, _⟩
  exact List.append_ne_nil_of_right_ne_nil before (List.cons_ne_nil _ _) h.symm

/-- One more event: it decides about its own key and about no other. -/
theorem lastPut_concat (log : List KvEvent) (ev : KvEvent) (k v : Bytes) (x : Int) :
    LastPut (log ++ [ev]) k v x ↔ if ev.key = k then ev = .put k v x else LastPut log k v x := by
  split_ifs with hkey
  · constructor
    · rintro ⟨before, after, h, hafter⟩
      rcases List.eq_nil_or_concat after with rfl | ⟨init, last, rfl⟩
      · exact List.singleton_inj.mp (List.append_inj_right' h rfl)
      · rw [List.concat_eq_append, ← List.cons_append, ← List.append_assoc] at h
        have hlast := List.singleton_inj.mp (List.append_inj_right' h rfl)
        exact absurd (hlast ▸ hkey) (hafter last (by simp))
    · intro h
      exact ⟨log, [], by rw [h], fun _ hev => absurd hev List.not_mem_nil⟩
  · constructor
    · rintro ⟨before, after, h, hafter⟩
      rcases List.eq_nil_or_concat after with rfl | ⟨init, last, rfl⟩
      · have hev := List.singleton_inj.mp (List.append_inj_right' h rfl)
        exact absurd (hev ▸ rfl) hkey
      · rw [List.concat_eq_append, ← List.cons_append, ← List.append_assoc] at h
        exact ⟨before, init, List.append_inj_left' h rfl,
          fun ev' hev' => hafter ev' (by simp [hev'])⟩
    · rintro ⟨before, after, rfl, hafter⟩
      refine ⟨before, after ++ [ev], by simp, fun ev' hev' => ?_⟩
      rcases List.mem_append.mp hev' with hev' | hev'
      · exact hafter ev' hev'
      · rw [List.mem_singleton.mp hev']
        exact hkey

/-- Evictions take their keys out. -/
theorem lastPut_evicted (log : List KvEvent) (k v : Bytes) (x : Int) :
    ∀ keys : List Bytes, LastPut (log ++ keys.map .evicted) k v x ↔
      k ∉ keys ∧ LastPut log k v x := by
  intro keys
  induction keys using List.reverseRecOn with
  | nil => simp
  | append_singleton keys key ih =>
      rw [List.map_append, List.map_singleton, ← List.append_assoc, lastPut_concat, ih,
        List.mem_append, List.mem_singleton, not_or]
      show (if key = k then _ else _) ↔ _
      split_ifs with h
      · exact iff_of_false id fun h' => h'.1.2 h.symm
      · exact ⟨fun h' => ⟨⟨h'.1, fun heq => h heq.symm⟩, h'.2⟩, fun h' => ⟨h'.1.1, h'.2⟩⟩

theorem mem_kvKeys_of_held {kv : NtcKvstore cap} {k : Bytes} (h : kvHeld kv k ≠ none) :
    k ∈ kvKeys kv := by
  by_contra hk
  apply h
  rw [kvHeld, contents_eq_none_iff.mpr fun i hi => hk (mem_kvKeys.mpr ⟨i, hi⟩), Option.map_none]

/-- A key other than the one put keeps what it has unless it is evicted. -/
theorem kvHeld_put_other {kv : NtcKvstore cap} (hkv : KvDistinct kv) (hcap : 0 < cap)
    (key : CStr 96) (val : CStr 1024) {expiry : Int} (hexp : 0 < expiry) {k : Bytes}
    (hk : key.bytes ≠ k) (p : Bytes × Int) :
    kvHeld (ntcKvPut kv key.bytes val.bytes expiry) k = some p ↔
      k ∉ kvEvicted kv key.bytes val.bytes expiry ∧ kvHeld kv k = some p := by
  obtain ⟨_, i, hheld, _⟩ := ntcKvPut_spec hkv hcap key val hexp
  have hheldk := hheld k
  rw [if_neg hk] at hheldk
  constructor
  · intro h
    refine ⟨fun hev => ?_, ?_⟩
    · have hgone := (of_decide_eq_true (List.mem_filter.mp hev).2).2
      rw [kvFind_eq_none_iff, h] at hgone
      cases hgone
    · rw [h] at hheldk
      split_ifs at hheldk
      exact hheldk.symm
  · rintro ⟨hev, h⟩
    have hkeys : k ∈ kvKeys kv := mem_kvKeys_of_held (by rw [h]; exact Option.some_ne_none p)
    rw [hheldk]
    split_ifs with hi
    · refine absurd (List.mem_filter.mpr ⟨hkeys, decide_eq_true ⟨hk.symm, ?_⟩⟩) hev
      rw [kvFind_eq_none_iff, hheldk, if_pos hi]
    · exact h

/-- The store agrees with its history. -/
structure KvAgrees (kv : NtcKvstore cap) (log : List KvEvent) : Prop where
  distinct : KvDistinct kv
  held : ∀ k v x, kvHeld kv k = some (v, x) ↔ LastPut log k v x

/-- The expiries that a call may carry. -/
def KvOp.Positive : KvOp → Prop
  | .put _ _ expiry => 0 < expiry
  | _ => True

/-- One call. -/
theorem KvAgrees.step (hcap : 0 < cap) {kv : NtcKvstore cap} {log : List KvEvent}
    (h : KvAgrees kv log) {op : KvOp} (hop : op.Positive) :
    KvAgrees (kvStep kv op) (log ++ kvEvents kv op) := by
  cases op with
  | put key val expiry =>
      obtain ⟨hkv', i, hheld, _⟩ := ntcKvPut_spec h.distinct hcap key val hop
      refine ⟨hkv', fun k v x => ?_⟩
      rw [kvEvents, ← List.append_assoc, lastPut_concat, lastPut_evicted, ← h.held]
      show _ ↔ if key.bytes = k then _ else _
      split_ifs with hkey
      · rw [kvStep, hheld k, if_pos hkey, ← hkey]
        simp [eq_comm]
      · exact kvHeld_put_other h.distinct hcap key val hop hkey (v, x)
  | get key now outCap =>
      obtain ⟨_, hkv', hheld⟩ := ntcKvGet_spec h.distinct key.bytes now outCap
      refine ⟨hkv', fun k v x => ?_⟩
      rw [kvStep, hheld k, kvEvents]
      cases hexp : (kvFind kv key.bytes).any fun i => decide ((kv.e i).Expired now) with
      | false =>
          rw [if_neg fun h => Bool.noConfusion h.1, if_neg Bool.false_ne_true, List.append_nil]
          exact h.held k v x
      | true =>
          rw [if_pos rfl, lastPut_concat, ← h.held]
          show (if true = true ∧ key.bytes = k then none else kvHeld kv k) = some (v, x) ↔
            if key.bytes = k then _ else _
          simp only [true_and]
          split_ifs
          · exact iff_of_false id id
          · exact Iff.rfl
  | del key =>
      obtain ⟨hkv', hheld⟩ := kvHeld_del h.distinct key.bytes
      refine ⟨hkv', fun k v x => ?_⟩
      rw [kvStep, hheld k, kvEvents, lastPut_concat, ← h.held]
      show _ ↔ if key.bytes = k then _ else _
      split_ifs
      · exact iff_of_false id id
      · exact Iff.rfl

/-- A whole run. -/
theorem KvAgrees.run (hcap : 0 < cap) :
    ∀ (ops : List KvOp) {kv : NtcKvstore cap} {log : List KvEvent}, KvAgrees kv log →
      (∀ op ∈ ops, op.Positive) → KvAgrees (ops.foldl kvStep kv) (log ++ kvLog kv ops) := by
  intro ops
  induction ops with
  | nil =>
      intro kv log h _
      rw [kvLog, List.append_nil]
      exact h
  | cons op ops ih =>
      intro kv log h hops
      have hrest := ih (h.step hcap (hops op List.mem_cons_self))
        fun op' hop' => hops op' (List.mem_cons_of_mem op hop')
      rw [List.append_assoc] at hrest
      exact hrest

/-- An empty store. -/
theorem kvAgrees_empty {kv : NtcKvstore cap} (hempty : ∀ i, (kv.e i).expiry = 0) :
    KvAgrees kv [] := by
  have hnone : ∀ i, (kv.e i).occupiedKey = none := fun i =>
    (KvEntry.occupiedKey_eq_none_iff _).mpr (hempty i)
  refine ⟨fun i j k hi => ?_, fun k v x => ?_⟩
  · rw [hnone i] at hi
    cases hi
  · rw [kvHeld, contents_eq_none_iff.mpr fun i hi => by rw [hnone i] at hi; cases hi]
    exact iff_of_false (Option.some_ne_none _).symm (lastPut_nil k v x)

/-- The store that `ntc_kv_new(n)` returns, after a run. -/
def kvAfter (n : Nat) (ops : List KvOp) : NtcKvstore (if n = 0 then 1024 else n) :=
  ops.foldl kvStep (ntcKvNew n)

/-- The history of a run from a new store. -/
def kvHistory (n : Nat) (ops : List KvOp) : List KvEvent :=
  kvLog (ntcKvNew n) ops

/-- In every state that a new store comes to: occupied entries have different
    keys; a get answers the value put last exactly if nothing has happened to
    its key since and its expiry lies ahead; and a put evicts nothing, or its
    key is new, the store full, and the one entry it evicts is of least
    expiry. -/
theorem kv_refines_ttl_map (n : Nat) (ops : List KvOp) (hops : ∀ op ∈ ops, op.Positive) :
    (∀ i j, ((kvAfter n ops).e i).expiry ≠ 0 → ((kvAfter n ops).e j).expiry ≠ 0 →
      ((kvAfter n ops).e i).key = ((kvAfter n ops).e j).key → i = j) ∧
    (∀ (key : CStr 96) (now : Int) (outCap : Nat) (out : Bytes), 0 < now →
      ((ntcKvGet (kvAfter n ops) key.bytes now outCap).1 = some out ↔
        ∃ val expiry, LastPut (kvHistory n ops) key.bytes val expiry ∧ now < expiry ∧
          out = clip outCap val)) ∧
    (∀ (key : CStr 96) (val : CStr 1024) (expiry : Int), 0 < expiry →
      kvEvicted (kvAfter n ops) key.bytes val.bytes expiry = [] ∨
        (∀ j, ((kvAfter n ops).e j).occupiedKey ≠ some key.bytes) ∧
          (∀ j, ((kvAfter n ops).e j).expiry ≠ 0) ∧
          ∃ i, kvEvicted (kvAfter n ops) key.bytes val.bytes expiry
              = [((kvAfter n ops).e i).key.bytes] ∧
            ∀ j, ((kvAfter n ops).e i).expiry ≤ ((kvAfter n ops).e j).expiry) := by
  have hcap : 0 < if n = 0 then 1024 else n := by
    split_ifs with hn
    · decide
    · exact Nat.pos_of_ne_zero hn
  have hrun : KvAgrees (kvAfter n ops) (kvHistory n ops) :=
    (kvAgrees_empty fun _ => rfl).run hcap ops hops
  refine ⟨fun i j hi hj hkey => ?_, ?_, ?_⟩
  · exact hrun.distinct i j _ (if_pos hi) ((if_pos hj).trans (by rw [hkey]))
  · intro key now outCap out hnow
    rw [(ntcKvGet_spec hrun.distinct key.bytes now outCap).1, Option.bind_eq_some_iff]
    constructor
    · rintro ⟨⟨val, expiry⟩, hheld, hget⟩
      split_ifs at hget with hexp
      refine ⟨val, expiry, (hrun.held _ _ _).mp hheld, ?_, (Option.some.inj hget).symm⟩
      exact not_le.mp fun hle => hexp ⟨hnow, hle⟩
    · rintro ⟨val, expiry, hlast, hlt, rfl⟩
      refine ⟨(val, expiry), (hrun.held _ _ _).mpr hlast, ?_⟩
      rw [if_neg fun h => absurd h.2 (not_le.mpr hlt)]
  · intro key val expiry hexp
    exact kvEvicted_spec hrun.distinct hcap key val hexp

/-- Three puts into a store of two. -/
def threePuts : List KvOp :=
  [.put (.set 96 (lit "a")) (.set 1024 (lit "1")) 1000,
    .put (.set 96 (lit "b")) (.set 1024 (lit "2")) 2000,
    .put (.set 96 (lit "c")) (.set 1024 (lit "3")) 3000]

/-- The third put evicts `a`, and `b` is still there. -/
theorem kv_refines_ttl_map_three :
    (ntcKvGet (kvAfter 2 threePuts) (CStr.set 96 (lit "b")).bytes 500 16).1
        = some (clip 16 (lit "2")) := by
  have hhistory : kvHistory 2 threePuts
      = [.put (lit "a") (lit "1") 1000] ++ .put (lit "b") (lit "2") 2000
          :: [.evicted (lit "a"), .put (lit "c") (lit "3") 3000] := by
    decide
  have hpositive : ∀ op ∈ threePuts, op.Positive := by
    simp [threePuts, KvOp.Positive]
  refine ((kv_refines_ttl_map 2 threePuts hpositive).2.1 (.set 96 (lit "b")) 500 16 _
    (by decide)).mpr ⟨lit "2", 2000, ⟨_, _, hhistory, ?_⟩, by decide, rfl⟩
  decide

end Naitron
