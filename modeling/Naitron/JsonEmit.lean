/-
  Naitron.JsonEmit

  The writer of `src/common/json.c`: `ntc_json_escape`, `emit_rec` and
  `ntc_json_emit`.

  The buffer is the bytes that have been written at its front, and `*o` an
  index into it: each append checks the room behind `*o`, and a string adds
  the `int` that `ntc_json_escape` returns.  The emission is a run over the
  tokens of the tree; below 2^31 bytes it writes the tree's text, which the
  parser reads back.
-/

import Naitron.Base64
import Naitron.Strtod

namespace Naitron

-- ============================================================================
-- ntc_json_escape
-- ============================================================================

def lowerHexDigit (n : Nat) : UInt8 := if n < 10 then UInt8.ofNat (48 + n) else UInt8.ofNat (87 + n)

/-- What `ntc_json_escape` writes for a byte. -/
def escapeByte (c : UInt8) : Bytes :=
  if c = 34 then [92, 34]
  else if c = 92 then [92, 92]
  else if c = 10 then [92, 110]
  else if c = 13 then [92, 114]
  else if c = 9 then [92, 116]
  else if c = 8 then [92, 98]
  else if c = 12 then [92, 102]
  else if c < 0x20 then lit "\\u00" ++ [lowerHexDigit (c.toNat / 16), lowerHexDigit (c.toNat % 16)]
  else [c]

def escapeBytes (s : Bytes) : Bytes := s.flatMap escapeByte

/-- `ntc_json_escape`: `none` for -1, when there is no room for the bytes and
    a NUL. -/
def ntcJsonEscape (cap : Nat) (src : Bytes) : Option Bytes :=
  if (escapeBytes src).length < cap then some (escapeBytes src) else none

theorem escapeBytes_append (s t : Bytes) : escapeBytes (s ++ t) = escapeBytes s ++ escapeBytes t :=
  List.flatMap_append

theorem length_escapeByte_le (c : UInt8) : (escapeByte c).length ≤ 6 := by
  rw [escapeByte]
  repeat' split
  all_goals exact Nat.le_of_ble_eq_true rfl

theorem length_escapeBytes_le (s : Bytes) : (escapeBytes s).length ≤ 6 * s.length := by
  induction s with
  | nil => exact Nat.zero_le _
  | cons c s ih =>
      have hc := length_escapeByte_le c
      rw [escapeBytes, List.flatMap_cons, List.length_append, List.length_cons, ← escapeBytes]
      omega

/-- The `PUT`s of these characters from `dst[o]` on: what they write, and
    whether there was room for all of them. -/
def putAll (cap : Nat) : Bytes → Nat → Bytes × Bool
  | [], _ => ([], true)
  | ch :: s, o =>
      if cap ≤ o + 1 then ([], false)
      else
        let r := putAll cap s (o + 1)
        (ch :: r.1, r.2)

/-- `ntc_json_escape` with the `int` it returns and what it writes at the front
    of `dst`. -/
def ntcJsonEscapeInt (cap : Nat) (src : Bytes) : Int × Bytes :=
  let r := putAll cap (escapeBytes src) 0
  if r.2 = false ∨ cap ≤ r.1.length then (-1, r.1) else (toCInt r.1.length, r.1 ++ [0])

-- ============================================================================
-- emit_rec
-- ============================================================================

/-- An `ntc_json` with its numbers as doubles.  `count` is the length of the
    lists. -/
inductive JsonTree where
  | null
  | bool (b : Bool)
  | num (num : WithBot (WithTop ℚ))
  | str (s : Bytes)
  | arr (items : List JsonTree)
  | obj (keys : List Bytes) (vals : List JsonTree)

mutual

/-- The tree that the parser has built, with the results of `strtod`. -/
def NtcJson.tree : NtcJson → JsonTree
  | .null => .null
  | .bool b => .bool b
  | .num text => .num (strtod text)
  | .str s => .str s
  | .arr items => .arr (NtcJson.trees items)
  | .obj keys vals => .obj keys (NtcJson.trees vals)

def NtcJson.trees : List NtcJson → List JsonTree
  | [] => []
  | j :: js => j.tree :: NtcJson.trees js

end

/-- `%lld`. -/
def signedDecimal (z : Int) : Bytes :=
  if z < 0 then 45 :: decimal z.natAbs else decimal z.natAbs

/-- The text of a number; `fmtG` is `%g`. -/
def emitNum (fmtG : WithBot (WithTop ℚ) → Bytes) : WithBot (WithTop ℚ) → Bytes
  | some (some q) =>
      if q = ⌊q⌋ ∧ |q| < 10 ^ 15 then signedDecimal (truncate q) else fmtG (some (some q))
  | d => fmtG d

/-- `dst` as far as it has been written, and `*o`. -/
structure EmitBuf where
  dst : Bytes
  o : Nat

/-- `memcpy(dst + o, s, n)`. -/
def overwrite (dst : Bytes) (o : Nat) (s : Bytes) : Bytes :=
  dst.take o ++ s ++ dst.drop (o + s.length)

/-- `APP` and `APC`. -/
def EmitBuf.app (cap : Nat) (s : Bytes) (st : EmitBuf) : Bool × EmitBuf :=
  if cap ≤ st.o + s.length then (false, st)
  else (true, ⟨overwrite st.dst st.o s, st.o + s.length⟩)

/-- The call of `ntc_json_escape` on what is left of the buffer, and its
    result added to `*o`. -/
def EmitBuf.escape (cap : Nat) (s : Bytes) (st : EmitBuf) : Bool × EmitBuf :=
  let r := ntcJsonEscapeInt (cap - st.o) s
  let dst := overwrite st.dst st.o r.2
  if r.1 < 0 then (false, ⟨dst, st.o⟩) else (true, ⟨dst, st.o + r.1.toNat⟩)

/-- Goes on unless -1 is returned. -/
def andThen (r : Bool × EmitBuf) (next : EmitBuf → Bool × EmitBuf) : Bool × EmitBuf :=
  if r.1 then next r.2 else r

/-- A string or key in quotes. -/
def emitString (cap : Nat) (s : Bytes) (st : EmitBuf) : Bool × EmitBuf :=
  andThen (st.app cap [chQuote]) fun st =>
    andThen (st.escape cap s) fun st => st.app cap [chQuote]

mutual

/-- `emit_rec`. -/
def emitRec (fmtG : WithBot (WithTop ℚ) → Bytes) (cap : Nat) :
    JsonTree → EmitBuf → Bool × EmitBuf
  | .null, st => st.app cap (lit "null")
  | .bool b, st => st.app cap (if b then lit "true" else lit "false")
  | .num d, st => st.app cap (emitNum fmtG d)
  | .str s, st => emitString cap s st
  | .arr items, st =>
      andThen (st.app cap [91]) fun st =>
        andThen (emitItems fmtG cap true items st) fun st => st.app cap [93]
  | .obj keys vals, st =>
      andThen (st.app cap [123]) fun st =>
        andThen (emitMembers fmtG cap true keys vals st) fun st => st.app cap [125]

/-- The loop over items, with `i == 0` for the first. -/
def emitItems (fmtG : WithBot (WithTop ℚ) → Bytes) (cap : Nat) (first : Bool) :
    List JsonTree → EmitBuf → Bool × EmitBuf
  | [], st => (true, st)
  | v :: vs, st =>
      andThen (if first then (true, st) else st.app cap [chComma]) fun st =>
        andThen (emitRec fmtG cap v st) fun st => emitItems fmtG cap false vs st

/-- The loop over members. -/
def emitMembers (fmtG : WithBot (WithTop ℚ) → Bytes) (cap : Nat) (first : Bool) :
    List Bytes → List JsonTree → EmitBuf → Bool × EmitBuf
  | key :: keys, v :: vs, st =>
      andThen (if first then (true, st) else st.app cap [chComma]) fun st =>
        andThen (emitString cap key st) fun st =>
          andThen (st.app cap [chColon]) fun st =>
            andThen (emitRec fmtG cap v st) fun st => emitMembers fmtG cap false keys vs st
  | _, _, st => (true, st)

end

/-- `ntc_json_emit`: its result, and what it has written of `dst[cap]`. -/
def ntcJsonEmit (fmtG : WithBot (WithTop ℚ) → Bytes) (v : JsonTree) (cap : Nat) : Int × Bytes :=
  if cap = 0 then (-1, [])
  else
    let r := emitRec fmtG cap v ⟨[], 0⟩
    if r.1 = false ∨ cap ≤ r.2.o then (-1, r.2.dst)
    else (toCInt r.2.o, overwrite r.2.dst r.2.o [0])

-- ============================================================================
-- The tokens of a tree
-- ============================================================================

/-- What `emit_rec` writes in one go. -/
inductive EmitToken where
  | text (s : Bytes)
  | string (s : Bytes)
deriving DecidableEq

namespace EmitToken

/-- The bytes of a token. -/
def bytes : EmitToken → Bytes
  | .text s => s
  | .string s => escapeBytes s

/-- How far `*o` moves: an `int` is added for a string. -/
def moves : EmitToken → Nat
  | .text s => s.length
  | .string s => (escapeBytes s).length % 2 ^ 32

/-- What is in front of `*o` afterwards. -/
def kept (t : EmitToken) : Bytes := t.bytes.take t.moves

/-- The `int` of a string is not negative. -/
def Counts : EmitToken → Prop
  | .text _ => True
  | .string s => (escapeBytes s).length % 2 ^ 32 < 2 ^ 31

/-- `APP`, or the call of `ntc_json_escape`. -/
def emit (cap : Nat) : EmitToken → EmitBuf → Bool × EmitBuf
  | .text s, st => st.app cap s
  | .string s, st => st.escape cap s

end EmitToken

/-- The tokens of a string. -/
def quotedTokens (s : Bytes) : List EmitToken :=
  [.text [chQuote], .string s, .text [chQuote]]

mutual

def JsonTree.tokens (fmtG : WithBot (WithTop ℚ) → Bytes) : JsonTree → List EmitToken
  | .null => [.text (lit "null")]
  | .bool b => [.text (if b then lit "true" else lit "false")]
  | .num d => [.text (emitNum fmtG d)]
  | .str s => quotedTokens s
  | .arr items => .text [91] :: (JsonTree.itemTokens fmtG true items ++ [.text [93]])
  | .obj keys vals => .text [123] :: (JsonTree.memberTokens fmtG true keys vals ++ [.text [125]])

def JsonTree.itemTokens (fmtG : WithBot (WithTop ℚ) → Bytes) (first : Bool) :
    List JsonTree → List EmitToken
  | [] => []
  | v :: vs =>
      (if first then [] else [.text [chComma]]) ++ (v.tokens fmtG ++
        JsonTree.itemTokens fmtG false vs)

def JsonTree.memberTokens (fmtG : WithBot (WithTop ℚ) → Bytes) (first : Bool) :
    List Bytes → List JsonTree → List EmitToken
  | key :: keys, v :: vs =>
      (if first then [] else [.text [chComma]]) ++ (quotedTokens key ++ (.text [chColon] ::
        (v.tokens fmtG ++ JsonTree.memberTokens fmtG false keys vs)))
  | _, _ => []

end

/-- The emission of tokens, up to the first that does not fit. -/
def emitTokens (cap : Nat) : List EmitToken → EmitBuf → Bool × EmitBuf
  | [], st => (true, st)
  | t :: ts, st => andThen (t.emit cap st) fun st => emitTokens cap ts st

theorem andThen_assoc (r : Bool × EmitBuf) (f g : EmitBuf → Bool × EmitBuf) :
    andThen (andThen r f) g = andThen r fun st => andThen (f st) g := by
  obtain ⟨ok, st⟩ := r
  cases ok with
  | false => rfl
  | true => rfl

theorem andThen_end (r : Bool × EmitBuf) : (andThen r fun st => (true, st)) = r := by
  obtain ⟨ok, st⟩ := r
  cases ok with
  | false => rfl
  | true => rfl

theorem emitTokens_append (cap : Nat) (ts us : List EmitToken) (st : EmitBuf) :
    emitTokens cap (ts ++ us) st = andThen (emitTokens cap ts st) fun st => emitTokens cap us st := by
  induction ts generalizing st with
  | nil => rfl
  | cons t ts ih =>
      rw [List.cons_append, emitTokens, emitTokens, andThen_assoc]
      simp only [ih]

theorem emitTokens_single (cap : Nat) (t : EmitToken) (st : EmitBuf) :
    emitTokens cap [t] st = t.emit cap st := andThen_end _

theorem emitString_eq (cap : Nat) (s : Bytes) (st : EmitBuf) :
    emitString cap s st = emitTokens cap (quotedTokens s) st := by
  rw [emitString, quotedTokens, emitTokens]
  simp only [emitTokens, andThen_end]
  rfl

theorem emit_separator (cap : Nat) (first : Bool) (st : EmitBuf) :
    (if first then (true, st) else st.app cap [chComma])
      = emitTokens cap (if first then [] else [.text [chComma]]) st := by
  cases first with
  | true => rfl
  | false => exact (emitTokens_single cap (.text [chComma]) st).symm

mutual

/-- `emit_rec` emits the tokens of the tree. -/
theorem emitRec_eq (fmtG : WithBot (WithTop ℚ) → Bytes) (cap : Nat) : ∀ (v : JsonTree)
    (st : EmitBuf), emitRec fmtG cap v st = emitTokens cap (v.tokens fmtG) st
  | .null, st | .bool _, st | .num _, st => by
      rw [emitRec, JsonTree.tokens, emitTokens_single, EmitToken.emit]
  | .str s, st => by rw [emitRec, JsonTree.tokens, emitString_eq]
  | .arr items, st => by
      rw [emitRec, JsonTree.tokens, emitTokens, EmitToken.emit]
      simp only [emitItems_eq fmtG cap true items, emitTokens_append, emitTokens_single,
        EmitToken.emit]
  | .obj keys vals, st => by
      rw [emitRec, JsonTree.tokens, emitTokens, EmitToken.emit]
      simp only [emitMembers_eq fmtG cap true keys vals, emitTokens_append, emitTokens_single,
        EmitToken.emit]

theorem emitItems_eq (fmtG : WithBot (WithTop ℚ) → Bytes) (cap : Nat) : ∀ (first : Bool)
    (items : List JsonTree) (st : EmitBuf),
      emitItems fmtG cap first items st
        = emitTokens cap (JsonTree.itemTokens fmtG first items) st
  | _, [], _ => rfl
  | first, v :: vs, st => by
      rw [emitItems, JsonTree.itemTokens, emit_separator, emitTokens_append]
      simp only [emitRec_eq fmtG cap v, emitItems_eq fmtG cap false vs, emitTokens_append]

theorem emitMembers_eq (fmtG : WithBot (WithTop ℚ) → Bytes) (cap : Nat) : ∀ (first : Bool)
    (keys : List Bytes) (vals : List JsonTree) (st : EmitBuf),
      emitMembers fmtG cap first keys vals st
        = emitTokens cap (JsonTree.memberTokens fmtG first keys vals) st
  | _, [], [], _ | _, [], _ :: _, _ | _, _ :: _, [], _ => rfl
  | first, key :: keys, v :: vs, st => by
      rw [emitMembers, JsonTree.memberTokens, emit_separator, emitTokens_append]
      simp only [emitRec_eq fmtG cap v, emitMembers_eq fmtG cap false keys vs, emitTokens_append,
        emitString_eq, emitTokens, EmitToken.emit]

end

-- ============================================================================
-- A run over tokens
-- ============================================================================

theorem putAll_eq (cap : Nat) (s : Bytes) (o : Nat) :
    putAll cap s o = (s.take (cap - 1 - o), decide (s = [] ∨ o + s.length < cap)) := by
  induction s generalizing o with
  | nil => rw [putAll, List.take_nil, decide_eq_true (Or.inl rfl)]
  | cons ch s ih =>
      rw [putAll]
      split_ifs with hfull
      · rw [Nat.sub_eq_zero_of_le (by omega), List.take_zero, decide_eq_false]
        rintro (h | h)
        · exact h
        · rw [List.length_cons] at h
          omega
      · rw [ih]
        obtain ⟨k, hk⟩ : ∃ k, cap - 1 - o = k + 1 := ⟨cap - 2 - o, by omega⟩
        rw [hk, List.take_succ_cons, show cap - 1 - (o + 1) = k by omega, Prod.mk.injEq]
        refine ⟨rfl, decide_eq_decide.mpr ?_⟩
        rw [List.length_cons]
        constructor
        · rintro (h | h)
          · rw [h, List.length_nil]
            right
            omega
          · right
            omega
        · rintro (h | h)
          · exact h.elim
          · right
            omega

/-- `ntc_json_escape` needs room for the text and a NUL. -/
theorem ntcJsonEscapeInt_eq (cap : Nat) (src : Bytes) :
    ntcJsonEscapeInt cap src =
      if (escapeBytes src).length < cap then
        (toCInt (escapeBytes src).length, escapeBytes src ++ [0])
      else (-1, (escapeBytes src).take (cap - 1)) := by
  rw [ntcJsonEscapeInt, putAll_eq]
  dsimp only
  rw [Nat.sub_zero, Nat.zero_add]
  by_cases hfits : (escapeBytes src).length < cap
  · rw [if_pos hfits, List.take_of_length_le (by omega), if_neg]
    rw [not_or, decide_eq_false_iff_not, not_not]
    exact ⟨Or.inr hfits, by omega⟩
  · rw [if_neg hfits, if_pos]
    by_cases hnil : escapeBytes src = []
    · rw [hnil, List.take_nil]
      rw [hnil] at hfits
      right
      omega
    · left
      rw [decide_eq_false_iff_not, not_or]
      exact ⟨hnil, hfits⟩

/-- Below 2^31 bytes the two views of `ntc_json_escape` agree. -/
theorem ntcJsonEscape_eq {src : Bytes} (h : (escapeBytes src).length < 2 ^ 31) (cap : Nat) :
    ntcJsonEscape cap src =
      if 0 ≤ (ntcJsonEscapeInt cap src).1 then
        some ((ntcJsonEscapeInt cap src).2.take (ntcJsonEscapeInt cap src).1.toNat)
      else none := by
  rw [ntcJsonEscape, ntcJsonEscapeInt_eq]
  split_ifs with hroom hneg hneg
  · dsimp only
    rw [toCInt_of_lt h, Int.toNat_natCast, List.take_left]
  · exact absurd ((toCInt_nonneg_iff _).mpr (by omega)) hneg
  · exact absurd hneg (show ¬ (0 : Int) ≤ -1 by decide)
  · rfl

theorem overwrite_length {dst s : Bytes} {o cap : Nat} (ho : o ≤ dst.length)
    (hdst : dst.length ≤ cap) (hfits : o + s.length ≤ cap) :
    (overwrite dst o s).length ≤ cap ∧ o + s.length ≤ (overwrite dst o s).length := by
  simp only [overwrite, List.length_append, List.length_take, List.length_drop]
  omega

theorem overwrite_take {dst s : Bytes} {o n : Nat} (ho : o ≤ dst.length) (hn : n ≤ s.length) :
    (overwrite dst o s).take (o + n) = dst.take o ++ s.take n := by
  have hlen : (dst.take o).length = o := List.length_take_of_le ho
  rw [overwrite, List.append_assoc, List.take_append, hlen, List.take_of_length_le (by omega),
    Nat.add_sub_cancel_left, List.take_append_of_le_length hn]

/-- The emission of tokens from `*o` on goes through: each fits behind what is
    kept of those before it, and the length of a string is no negative `int`. -/
def GoesThrough (cap : Nat) : Nat → List EmitToken → Prop
  | _, [] => True
  | o, t :: ts => o + t.bytes.length < cap ∧ t.Counts ∧ GoesThrough cap (o + t.moves) ts

/-- `*o` is in the part of the buffer that has been written. -/
structure EmitBuf.Sound (cap : Nat) (st : EmitBuf) : Prop where
  behind : st.o ≤ st.dst.length
  within : st.dst.length ≤ cap

theorem moves_le (t : EmitToken) : t.moves ≤ t.bytes.length := by
  cases t with
  | text s => exact le_refl _
  | string s => exact Nat.mod_le _ _

theorem kept_length (t : EmitToken) : t.kept.length = t.moves := by
  rw [EmitToken.kept, List.length_take_of_le (moves_le t)]

/-- A token that goes through. -/
structure Emitted (cap : Nat) (st st' : EmitBuf) (kept : Bytes) : Prop where
  sound : st'.Sound cap
  moved : st'.o = st.o + kept.length
  front : st'.dst.take st'.o = st.dst.take st.o ++ kept

theorem emit_sound {cap : Nat} {st : EmitBuf} (h : st.Sound cap) (t : EmitToken) :
    (t.emit cap st).2.Sound cap ∧
      ((t.emit cap st).1 = true ↔ st.o + t.bytes.length < cap ∧ t.Counts) ∧
      ((t.emit cap st).1 = true → Emitted cap st (t.emit cap st).2 t.kept) := by
  obtain ⟨hbehind, hwithin⟩ := h
  cases t with
  | text s =>
      rw [EmitToken.emit, EmitBuf.app, EmitToken.bytes, EmitToken.kept, EmitToken.bytes,
        EmitToken.moves, List.take_length]
      split_ifs with hfull
      · refine ⟨⟨hbehind, hwithin⟩, iff_of_false id fun h => ?_, fun h => h.elim⟩
        omega
      · obtain ⟨hle, hge⟩ := overwrite_length hbehind hwithin (show st.o + s.length ≤ cap by omega)
        have hsound : EmitBuf.Sound cap ⟨overwrite st.dst st.o s, st.o + s.length⟩ := ⟨hge, hle⟩
        refine ⟨hsound, iff_of_true rfl ⟨by omega, trivial⟩, fun _ => ⟨hsound, rfl, ?_⟩⟩
        have htake := overwrite_take (s := s) hbehind (le_refl s.length)
        rwa [List.take_length] at htake
  | string s =>
      rw [EmitToken.emit, EmitBuf.escape, ntcJsonEscapeInt_eq, EmitToken.bytes, EmitToken.kept,
        EmitToken.bytes, EmitToken.moves, EmitToken.Counts]
      by_cases hfits : (escapeBytes s).length < cap - st.o
      · rw [if_pos hfits]
        dsimp only
        have hroom : st.o + (escapeBytes s ++ [0]).length ≤ cap := by
          rw [List.length_append, List.length_singleton]
          omega
        obtain ⟨hle, hge⟩ := overwrite_length hbehind hwithin hroom
        rw [List.length_append, List.length_singleton] at hge
        have hcount := toCInt_nonneg_iff (escapeBytes s).length
        split_ifs with hneg
        · refine ⟨⟨by dsimp only; omega, hle⟩, iff_of_false id fun h => ?_, fun h => h.elim⟩
          omega
        · have hmoved : (toCInt (escapeBytes s).length).toNat
              = (escapeBytes s).length % 2 ^ 32 := by
            rw [toCInt, if_pos (hcount.mp (not_lt.mp hneg)), Int.toNat_natCast]
          have hmod := Nat.mod_le (escapeBytes s).length (2 ^ 32)
          rw [hmoved]
          have hsound : EmitBuf.Sound cap ⟨overwrite st.dst st.o (escapeBytes s ++ [0]),
              st.o + (escapeBytes s).length % 2 ^ 32⟩ := by
            refine ⟨?_, hle⟩
            dsimp only
            omega
          refine ⟨hsound, iff_of_true rfl ⟨by omega, hcount.mp (not_lt.mp hneg)⟩,
            fun _ => ⟨hsound, ?_, ?_⟩⟩
          · rw [List.length_take_of_le hmod]
          · rw [overwrite_take hbehind (by rw [List.length_append]; omega),
              List.take_append_of_le_length hmod]
      · rw [if_neg hfits]
        dsimp only
        have hroom : st.o + ((escapeBytes s).take (cap - st.o - 1)).length ≤ cap := by
          rw [List.length_take]
          omega
        obtain ⟨hle, hge⟩ := overwrite_length hbehind hwithin hroom
        rw [if_pos (by decide)]
        refine ⟨⟨by dsimp only; omega, hle⟩, iff_of_false Bool.false_ne_true fun h => ?_,
          fun h => absurd h Bool.false_ne_true⟩
        omega

/-- What a run over tokens leaves. -/
theorem emitTokens_sound {cap : Nat} (ts : List EmitToken) {st : EmitBuf} (h : st.Sound cap) :
    (emitTokens cap ts st).2.Sound cap ∧
      ((emitTokens cap ts st).1 = true ↔ GoesThrough cap st.o ts) ∧
      ((emitTokens cap ts st).1 = true →
        Emitted cap st (emitTokens cap ts st).2 (ts.flatMap EmitToken.kept)) := by
  induction ts generalizing st with
  | nil =>
      refine ⟨h, iff_of_true rfl trivial, fun _ => ⟨h, rfl, ?_⟩⟩
      rw [List.flatMap_nil, List.append_nil]
      rfl
  | cons t ts ih =>
      obtain ⟨hsound, hgoes, hkept⟩ := emit_sound h t
      have hstep : GoesThrough cap st.o (t :: ts) ↔
          (t.emit cap st).1 = true ∧ GoesThrough cap (st.o + t.moves) ts := by
        rw [GoesThrough, ← and_assoc, ← hgoes]
      rw [emitTokens, andThen, hstep]
      cases hok : (t.emit cap st).1 with
      | false =>
          rw [if_neg Bool.false_ne_true, hok]
          exact ⟨hsound, iff_of_false Bool.false_ne_true fun hand => absurd hand.1 Bool.false_ne_true,
            fun heq => absurd heq Bool.false_ne_true⟩
      | true =>
          obtain ⟨_, hmoved, hfront⟩ := hkept hok
          obtain ⟨hsound', hgoes', hkept'⟩ := ih hsound
          rw [if_pos rfl]
          rw [hmoved, kept_length] at hgoes'
          refine ⟨hsound', ?_, fun hok' => ?_⟩
          · rw [hgoes', and_iff_right rfl]
          · obtain ⟨hs, hm, hf⟩ := hkept' hok'
            refine ⟨hs, ?_, ?_⟩
            · rw [hm, hmoved, List.flatMap_cons, List.length_append, Nat.add_assoc]
            · rw [hf, hfront, List.flatMap_cons, List.append_assoc]

/-- The text of a tree. -/
def JsonTree.text (fmtG : WithBot (WithTop ℚ) → Bytes) (v : JsonTree) : Bytes :=
  (v.tokens fmtG).flatMap EmitToken.bytes

/-- What is in front of `*o` at the end of an emission that goes through. -/
def JsonTree.keptText (fmtG : WithBot (WithTop ℚ) → Bytes) (v : JsonTree) : Bytes :=
  (v.tokens fmtG).flatMap EmitToken.kept

/-- The emission of a tree is not told to stop. -/
def JsonTree.Emits (fmtG : WithBot (WithTop ℚ) → Bytes) (cap : Nat) (v : JsonTree) : Prop :=
  GoesThrough cap 0 (v.tokens fmtG) ∧ (v.keptText fmtG).length < cap ∧
    (v.keptText fmtG).length % 2 ^ 32 < 2 ^ 31

/-- The result of `ntc_json_emit`, and what it leaves in the buffer. -/
theorem ntcJsonEmit_spec (fmtG : WithBot (WithTop ℚ) → Bytes) (v : JsonTree) (cap : Nat) :
    (ntcJsonEmit fmtG v cap).2.length ≤ cap ∧
      (0 ≤ (ntcJsonEmit fmtG v cap).1 ↔ v.Emits fmtG cap) ∧
      (0 ≤ (ntcJsonEmit fmtG v cap).1 →
        (ntcJsonEmit fmtG v cap).1.toNat = (v.keptText fmtG).length % 2 ^ 32 ∧
        ∃ rest, (ntcJsonEmit fmtG v cap).2 = v.keptText fmtG ++ 0 :: rest) := by
  have hstart : EmitBuf.Sound cap ⟨[], 0⟩ := ⟨le_refl 0, Nat.zero_le cap⟩
  obtain ⟨hsound, hgoes, hkept⟩ := emitTokens_sound (v.tokens fmtG) hstart
  have hminus : ¬ (0 : Int) ≤ -1 := by decide
  rw [ntcJsonEmit, emitRec_eq]
  by_cases hcap : cap = 0
  · rw [if_pos hcap]
    refine ⟨Nat.zero_le cap, iff_of_false hminus fun h => ?_, fun h => absurd h hminus⟩
    have hlt := h.2.1
    omega
  rw [if_neg hcap]
  dsimp only
  by_cases hok : (emitTokens cap (v.tokens fmtG) ⟨[], 0⟩).1 = true
  · obtain ⟨_, hmoved, hfront⟩ := hkept hok
    rw [Nat.zero_add] at hmoved
    rw [List.take_nil, List.nil_append] at hfront
    have hgoes' := hgoes.mp hok
    generalize emitTokens cap (v.tokens fmtG) ⟨[], 0⟩ = r at *
    rw [JsonTree.Emits, JsonTree.keptText, hok, and_iff_right hgoes', ← hmoved]
    by_cases hroom : cap ≤ r.2.o
    · rw [if_pos (Or.inr hroom)]
      refine ⟨hsound.within, iff_of_false hminus fun h => ?_, fun h => absurd h hminus⟩
      have hlt := h.1
      omega
    · rw [if_neg (by rw [not_or]; exact ⟨Bool.noConfusion, hroom⟩)]
      obtain ⟨hle, hge⟩ := overwrite_length hsound.behind hsound.within
        (show r.2.o + [(0 : UInt8)].length ≤ cap by rw [List.length_singleton]; omega)
      refine ⟨hle, ?_, fun hnonneg => ⟨?_, ?_⟩⟩
      · rw [toCInt_nonneg_iff, and_iff_right (by omega)]
      · rw [toCInt, if_pos ((toCInt_nonneg_iff _).mp hnonneg), Int.toNat_natCast]
      · rw [← hfront, overwrite, List.append_assoc]
        exact ⟨_, rfl⟩
  · rw [if_pos (Or.inl (Bool.eq_false_iff.mpr hok))]
    exact ⟨hsound.within, iff_of_false hminus fun h => hok (hgoes.mpr h.1),
      fun h => absurd h hminus⟩

/-- Strings whose lengths are no `int` overflow: nothing is lost. -/
theorem kept_of_short {t : EmitToken} (h : t.bytes.length < 2 ^ 31) :
    t.kept = t.bytes ∧ t.Counts := by
  rw [EmitToken.kept]
  cases t with
  | text s => exact ⟨List.take_length, trivial⟩
  | string s =>
      rw [EmitToken.bytes] at h
      rw [EmitToken.bytes, EmitToken.moves, EmitToken.Counts, Nat.mod_eq_of_lt (by omega)]
      exact ⟨List.take_length, h⟩

theorem keptText_of_short {ts : List EmitToken} (h : ∀ t ∈ ts, t.bytes.length < 2 ^ 31) :
    ts.flatMap EmitToken.kept = ts.flatMap EmitToken.bytes := by
  rw [List.flatMap_congr]
  exact fun t ht => (kept_of_short (h t ht)).1

theorem goesThrough_of_short {cap : Nat} {ts : List EmitToken} {o : Nat}
    (h : ∀ t ∈ ts, t.bytes.length < 2 ^ 31)
    (hroom : o + (ts.flatMap EmitToken.bytes).length < cap) : GoesThrough cap o ts := by
  induction ts generalizing o with
  | nil => trivial
  | cons t ts ih =>
      rw [List.flatMap_cons, List.length_append] at hroom
      obtain ⟨hkept, hcounts⟩ := kept_of_short (h t List.mem_cons_self)
      have hmoves := kept_length t
      rw [hkept] at hmoves
      refine ⟨by omega, hcounts, ih (fun t ht => h t (List.mem_cons_of_mem _ ht)) ?_⟩
      omega

/-- Without a string of 2^31 bytes the emission depends on the text only. -/
theorem emits_of_short {fmtG : WithBot (WithTop ℚ) → Bytes} {v : JsonTree} {cap : Nat}
    (h : ∀ t ∈ v.tokens fmtG, t.bytes.length < 2 ^ 31) :
    v.keptText fmtG = v.text fmtG ∧
      (v.Emits fmtG cap ↔ (v.text fmtG).length < cap ∧ (v.text fmtG).length % 2 ^ 32 < 2 ^ 31) := by
  have hkept : v.keptText fmtG = v.text fmtG := keptText_of_short h
  refine ⟨hkept, ?_⟩
  rw [JsonTree.Emits, hkept]
  constructor
  · exact fun hemits => hemits.2
  · rintro ⟨hroom, hint⟩
    refine ⟨goesThrough_of_short h ?_, hroom, hint⟩
    rw [Nat.zero_add]
    exact hroom

theorem token_length_le {ts : List EmitToken} {t : EmitToken} (h : t ∈ ts) :
    t.bytes.length ≤ (ts.flatMap EmitToken.bytes).length := by
  obtain ⟨before, after, rfl⟩ := List.append_of_mem h
  rw [List.flatMap_append, List.flatMap_cons, List.length_append, List.length_append]
  omega

-- ============================================================================
-- The document of a tree
-- ============================================================================

/-- The piece of text that stands for a byte. -/
def pieceOf (c : UInt8) : StrPiece :=
  if c = 34 then .escape 34
  else if c = 92 then .escape 92
  else if c = 10 then .escape 110
  else if c = 13 then .escape 114
  else if c = 9 then .escape 116
  else if c = 8 then .escape 98
  else if c = 12 then .escape 102
  else if c < 0x20 then
    .unit 48 48 (lowerHexDigit (c.toNat / 16)) (lowerHexDigit (c.toNat % 16))
  else .raw c

/-- Whether the scanner takes a piece. -/
def validPiece : StrPiece → Bool
  | .raw b => b != chQuote && b != chBackslash
  | .escape e => (simpleEscape e).isSome
  | .unit a b c d => (hex4 a b c d).isSome

theorem pieceOf_spec (c : UInt8) :
    (pieceOf c).bytes = escapeByte c ∧ (pieceOf c).code = [c] ∧ (pieceOf c).Valid := by
  have hbytes : ∀ n : Fin 256, (pieceOf (UInt8.ofNat n.val)).bytes = escapeByte (UInt8.ofNat n.val)
      ∧ (pieceOf (UInt8.ofNat n.val)).code = [UInt8.ofNat n.val]
      ∧ validPiece (pieceOf (UInt8.ofNat n.val)) = true := by
    decide +kernel
  have hc := hbytes ⟨c.toNat, c.toNat_lt⟩
  rw [UInt8.ofNat_toNat] at hc
  refine ⟨hc.1, hc.2.1, ?_⟩
  have hvalid := hc.2.2
  generalize pieceOf c = p at hvalid
  cases p with
  | raw b =>
      rw [validPiece, Bool.and_eq_true, bne_iff_ne, bne_iff_ne] at hvalid
      exact hvalid
  | escape e => exact hvalid
  | unit a b c d => exact hvalid

/-- The pieces of a string. -/
def piecesOf (s : Bytes) : List StrPiece := s.map pieceOf

theorem piecesOf_bytes (s : Bytes) : (piecesOf s).flatMap StrPiece.bytes = escapeBytes s := by
  rw [piecesOf, List.flatMap_map, escapeBytes, List.flatMap_congr]
  exact fun c _ => (pieceOf_spec c).1

theorem piecesOf_code (s : Bytes) : codeString (piecesOf s) = s := by
  rw [codeString, piecesOf, List.flatMap_map]
  have hid : ∀ c ∈ s, (pieceOf c).code = [c] := fun c _ => (pieceOf_spec c).2.1
  rw [List.flatMap_congr hid, List.flatMap_singleton']

theorem piecesOf_valid (s : Bytes) : ∀ p ∈ piecesOf s, p.Valid := by
  intro p hp
  obtain ⟨c, _, rfl⟩ := List.mem_map.mp hp
  exact (pieceOf_spec c).2.2

mutual

def JsonTree.doc (fmtG : WithBot (WithTop ℚ) → Bytes) : JsonTree → JsonDoc
  | .null => .null
  | .bool b => .bool b
  | .num d => .num (emitNum fmtG d)
  | .str s => .str (piecesOf s)
  | .arr items => .arr (JsonTree.docs fmtG items)
  | .obj keys vals => .obj (keys.map piecesOf) (JsonTree.docs fmtG vals)

def JsonTree.docs (fmtG : WithBot (WithTop ℚ) → Bytes) : List JsonTree → List JsonDoc
  | [] => []
  | v :: vs => v.doc fmtG :: JsonTree.docs fmtG vs

end

/-- An integer as a double. -/
def wholeDouble (z : Int) : WithBot (WithTop ℚ) := some (some (z : ℚ))

/-- A tree of at most this many levels, with lists of at most
    `NTC_JSON_MAX_MEMBERS` members and integers below 10^15. -/
def JsonTree.Sized : Nat → JsonTree → Prop
  | 0, _ => False
  | _ + 1, .num d => ∃ z : Int, d = wholeDouble z ∧ |z| < 10 ^ 15
  | n + 1, .arr items => items.length ≤ ntcJsonMaxMembers ∧ ∀ v ∈ items, v.Sized n
  | n + 1, .obj keys vals =>
      keys.length = vals.length ∧ vals.length ≤ ntcJsonMaxMembers ∧ ∀ v ∈ vals, v.Sized n
  | _ + 1, _ => True

-- ============================================================================
-- Integers
-- ============================================================================

theorem digitChar_byte (d : Nat) (h : d < 10) :
    UInt8.ofNat d.digitChar.toNat = UInt8.ofNat (48 + d) := by
  have hall : ∀ d : Fin 10, UInt8.ofNat d.val.digitChar.toNat = UInt8.ofNat (48 + d.val) := by
    decide
  exact hall ⟨d, h⟩

theorem decimal_eq_if (n : Nat) :
    decimal n = if n < 10 then [UInt8.ofNat (48 + n)]
      else decimal (n / 10) ++ [UInt8.ofNat (48 + n % 10)] := by
  rw [decimal, Nat.toDigits_eq_if (by decide)]
  split_ifs with h
  · rw [List.map_singleton, digitChar_byte n h]
  · rw [List.map_append, List.map_singleton, digitChar_byte (n % 10) (Nat.mod_lt n (by decide)),
      decimal]

/-- The digits of a number are read back. -/
theorem decimal_spec (n : Nat) :
    decimal n ≠ [] ∧ (∀ c ∈ decimal n, isDigit c = true) ∧ digitsVal (decimal n) = n := by
  have hdigit : ∀ d < 10, isDigit (UInt8.ofNat (48 + d)) = true ∧
      (UInt8.ofNat (48 + d)).toNat - 48 = d := by decide
  induction n using Nat.strong_induction_on with
  | _ n ih =>
      rw [decimal_eq_if]
      split_ifs with h
      · obtain ⟨hd, hval⟩ := hdigit n h
        refine ⟨List.cons_ne_nil _ _, ?_, ?_⟩
        · intro c hc
          rw [List.mem_singleton.mp hc]
          exact hd
        · rw [digitsVal, List.foldl_cons, List.foldl_nil, hval, Nat.mul_zero, Nat.zero_add]
      · obtain ⟨hd, hval⟩ := hdigit (n % 10) (Nat.mod_lt n (by decide))
        obtain ⟨_, hdigits, hrest⟩ := ih (n / 10) (by omega)
        refine ⟨List.append_ne_nil_of_right_ne_nil _ (List.cons_ne_nil _ _), ?_, ?_⟩
        · intro c hc
          rcases List.mem_append.mp hc with hc | hc
          · exact hdigits c hc
          · rw [List.mem_singleton.mp hc]
            exact hd
        · rw [digitsVal] at hrest
          rw [digitsVal, List.foldl_append, hrest, List.foldl_cons, List.foldl_nil, hval]
          omega

theorem decimal_length_le {n : Nat} (h : n < 10 ^ 15) : (decimal n).length ≤ 15 := by
  rw [decimal, List.length_map]
  exact (Nat.length_toDigits_le_iff (by decide) (by decide)).mpr h

theorem signedDecimal_scanned (z : Int) : ScannedNumber (signedDecimal z) := by
  obtain ⟨hne, hdigits, _⟩ := decimal_spec z.natAbs
  obtain ⟨c, s, hcs⟩ := List.exists_cons_of_ne_nil hne
  have hc := isDigit_iff.mp (hdigits c (by rw [hcs]; exact List.mem_cons_self))
  rw [ScannedNumber, signedDecimal]
  split_ifs
  · refine ⟨⟨45, rfl, Or.inl rfl⟩, ?_⟩
    intro d hd
    rcases List.mem_cons.mp hd with rfl | hd
    · decide
    · exact isNumChar_of_isDigit (hdigits d hd)
  · refine ⟨⟨c, ?_, Or.inr hc⟩, fun d hd => isNumChar_of_isDigit (hdigits d hd)⟩
    rw [hcs]
    rfl

theorem readDecimal_signedDecimal (z : Int) :
    readDecimal (signedDecimal z) = some ⟨decide (z < 0), z.natAbs, 0⟩ := by
  obtain ⟨hne, hdigits, hval⟩ := decimal_spec z.natAbs
  have hsign : readSign (signedDecimal z) = (decide (z < 0), decimal z.natAbs) := by
    rw [signedDecimal]
    split_ifs with hneg
    · rw [decide_eq_true hneg]
      rfl
    · obtain ⟨c, s, hcs⟩ := List.exists_cons_of_ne_nil hne
      have hc := hdigits c (by rw [hcs]; exact List.mem_cons_self)
      rw [decide_eq_false hneg, hcs, readSign, if_neg, if_neg]
      · rintro rfl
        exact absurd hc (by decide)
      · rintro rfl
        exact absurd hc (by decide)
  have htake : (decimal z.natAbs).takeWhile isDigit = decimal z.natAbs :=
    List.takeWhile_eq_self_iff.mpr hdigits
  have hdrop : (decimal z.natAbs).dropWhile isDigit = [] := List.dropWhile_eq_nil_iff.mpr hdigits
  rw [readDecimal, hsign]
  dsimp only
  rw [htake, hdrop, readFraction, readExponent, List.append_nil, hval, if_neg]
  · rfl
  · rw [Bool.and_eq_true, List.isEmpty_iff, not_and]
    exact fun h => absurd h hne

theorem signedDecimal_length_le {z : Int} (hz : |z| < 10 ^ 15) :
    (signedDecimal z).length ≤ 16 := by
  have habs : z.natAbs < 10 ^ 15 := by
    have hcast := Int.natCast_natAbs z
    omega
  have hlen := decimal_length_le habs
  rw [signedDecimal]
  split_ifs
  · rw [List.length_cons]
    omega
  · omega

theorem decimal_value_int (z : Int) : (Decimal.mk (decide (z < 0)) z.natAbs 0).value = z := by
  rw [Decimal.value, zpow_zero, mul_one]
  rcases lt_or_ge z 0 with hneg | hpos
  · rw [decide_eq_true hneg, if_pos rfl, Nat.cast_natAbs, abs_of_neg hneg, Int.cast_neg]
    ring
  · rw [decide_eq_false (not_lt.mpr hpos), if_neg Bool.false_ne_true, Nat.cast_natAbs,
      abs_of_nonneg hpos, one_mul]

/-- An integer of the tree is written in full and read back. -/
theorem emitNum_int {z : Int} (hz : |z| < 10 ^ 15) (fmtG : WithBot (WithTop ℚ) → Bytes) :
    emitNum fmtG (wholeDouble z) = signedDecimal z ∧
      strtod ((signedDecimal z).take 63) = wholeDouble z := by
  constructor
  · have hcond : (z : ℚ) = ⌊(z : ℚ)⌋ ∧ |(z : ℚ)| < 10 ^ 15 := by
      rw [Int.floor_intCast]
      exact ⟨rfl, by exact_mod_cast hz⟩
    rw [wholeDouble, emitNum, if_pos hcond, truncate_intCast]
  · have hlen := signedDecimal_length_le hz
    have hbounds := abs_lt.mp hz
    have hnear : Lib.nearest64 (z : ℚ) = z := Lib.nearest64_intCast (by omega)
    have hbig : (10 : ℚ) ^ 15 ≤ 2 ^ 1024 :=
      calc (10 : ℚ) ^ 15 ≤ 2 ^ 50 := by norm_num
        _ ≤ 2 ^ 1024 := pow_le_pow_right₀ (by norm_num) (by omega)
    have habove : ((z : ℤ) : ℚ) < 10 ^ 15 := by exact_mod_cast hbounds.2
    have hbelow : -(10 : ℚ) ^ 15 < ((z : ℤ) : ℚ) := by exact_mod_cast hbounds.1
    rw [List.take_of_length_le (by omega), strtod, readDecimal_signedDecimal]
    dsimp only
    rw [decimal_value_int, hnear]
    exact (if_neg (not_le.mpr (lt_of_lt_of_le habove hbig))).trans
      (if_neg (not_le.mpr (lt_of_le_of_lt (neg_le_neg hbig) hbelow)))

-- ============================================================================
-- Reading the text back
-- ============================================================================

theorem quotedTokens_bytes (s : Bytes) :
    (quotedTokens s).flatMap EmitToken.bytes = quoted (piecesOf s) := by
  rw [quoted, piecesOf_bytes]
  simp only [quotedTokens, List.flatMap_cons, List.flatMap_nil, EmitToken.bytes, List.append_nil,
    List.singleton_append]

/-- The text of items behind a comma or at the front. -/
theorem itemTokens_listed {fmtG : WithBot (WithTop ℚ) → Bytes} {n : Nat} :
    ∀ (v : JsonTree) (vs : List JsonTree),
      (∀ u ∈ v :: vs, Derives n (u.text fmtG) (u.doc fmtG)) →
      ∀ first : Bool, ∃ x, Listed (Padded (Derives n)) x (JsonTree.docs fmtG (v :: vs)) ∧
        (JsonTree.itemTokens fmtG first (v :: vs)).flatMap EmitToken.bytes
          = (if first then [] else [chComma]) ++ x := by
  intro v vs
  induction vs generalizing v with
  | nil =>
      intro h first
      refine ⟨v.text fmtG, ?_, ?_⟩
      · have hv := h v List.mem_cons_self
        have hpad := Padded.mk isWs_nil hv isWs_nil
        rw [List.nil_append, List.append_nil] at hpad
        exact .one hpad
      · rw [JsonTree.itemTokens, JsonTree.itemTokens, List.append_nil, List.flatMap_append,
          JsonTree.text]
        cases first with
        | true => rfl
        | false => rfl
  | cons w vs ih =>
      intro h first
      obtain ⟨x, hx, htext⟩ := ih w (fun u hu => h u (List.mem_cons_of_mem v hu)) false
      have hv := Padded.mk isWs_nil (h v List.mem_cons_self) isWs_nil
      rw [List.nil_append, List.append_nil] at hv
      refine ⟨v.text fmtG ++ chComma :: x, .more hv hx, ?_⟩
      rw [JsonTree.itemTokens, List.flatMap_append, List.flatMap_append, htext, ← JsonTree.text]
      cases first with
      | true => rfl
      | false => rfl

/-- The text of members behind a comma or at the front. -/
theorem memberTokens_listed {fmtG : WithBot (WithTop ℚ) → Bytes} {n : Nat} :
    ∀ (key : Bytes) (keys : List Bytes) (v : JsonTree) (vs : List JsonTree),
      keys.length = vs.length →
      (∀ u ∈ v :: vs, Derives n (u.text fmtG) (u.doc fmtG)) →
      ∀ first : Bool, ∃ x, Listed (Member (Derives n)) x
          (((key :: keys).map piecesOf).zip (JsonTree.docs fmtG (v :: vs))) ∧
        (JsonTree.memberTokens fmtG first (key :: keys) (v :: vs)).flatMap EmitToken.bytes
          = (if first then [] else [chComma]) ++ x := by
  -- one member, without white space
  have hmember : ∀ (key : Bytes) (v : JsonTree), Derives n (v.text fmtG) (v.doc fmtG) →
      Member (Derives n) (quoted (piecesOf key) ++ chColon :: v.text fmtG)
        (piecesOf key, v.doc fmtG) := by
    intro key v hv
    have hpad := Padded.mk isWs_nil hv isWs_nil
    rw [List.nil_append, List.append_nil] at hpad
    exact Member.mk isWs_nil (piecesOf_valid key) isWs_nil hpad
  intro key keys v vs
  induction vs generalizing key keys v with
  | nil =>
      intro hlen h first
      obtain rfl := List.length_eq_zero_iff.mp hlen
      refine ⟨_, .one (hmember key v (h v List.mem_cons_self)), ?_⟩
      rw [JsonTree.memberTokens, JsonTree.memberTokens, List.append_nil, List.flatMap_append,
        List.flatMap_append, quotedTokens_bytes, List.flatMap_cons, ← JsonTree.text]
      · cases first with
        | true => rfl
        | false => rfl
      · exact fun _ _ _ _ h => absurd h (List.cons_ne_nil _ _).symm
  | cons w vs ih =>
      intro hlen h first
      cases keys with
      | nil => exact absurd hlen (Nat.succ_ne_zero _).symm
      | cons key' keys =>
          obtain ⟨x, hx, htext⟩ := ih key' keys w (Nat.succ.inj hlen)
            (fun u hu => h u (List.mem_cons_of_mem v hu)) false
          refine ⟨_, .more (hmember key v (h v List.mem_cons_self)) hx, ?_⟩
          rw [JsonTree.memberTokens, List.flatMap_append, List.flatMap_append, quotedTokens_bytes,
            List.flatMap_cons, List.flatMap_append, htext, ← JsonTree.text]
          cases first with
          | true => simp only [reduceIte, List.nil_append, List.append_assoc, EmitToken.bytes,
              List.cons_append, Bool.false_eq_true, List.flatMap_nil]
          | false => simp only [reduceIte, List.nil_append, List.append_assoc, EmitToken.bytes,
              List.cons_append, Bool.false_eq_true, List.flatMap_cons, List.flatMap_nil]

theorem JsonTree.docs_eq (fmtG : WithBot (WithTop ℚ) → Bytes) : ∀ vs : List JsonTree,
    JsonTree.docs fmtG vs = vs.map (JsonTree.doc fmtG)
  | [] => rfl
  | v :: vs => by rw [JsonTree.docs, docs_eq fmtG vs, List.map_cons]

theorem NtcJson.trees_eq : ∀ js : List NtcJson, NtcJson.trees js = js.map NtcJson.tree
  | [] => rfl
  | j :: js => by rw [NtcJson.trees, trees_eq js, List.map_cons]

/-- A tree of at most this many levels whose numbers are written as numbers. -/
def JsonTree.Shaped (fmtG : WithBot (WithTop ℚ) → Bytes) : Nat → JsonTree → Prop
  | 0, _ => False
  | _ + 1, .num d => ScannedNumber (emitNum fmtG d)
  | n + 1, .arr items => ∀ v ∈ items, v.Shaped fmtG n
  | n + 1, .obj keys vals => keys.length = vals.length ∧ ∀ v ∈ vals, v.Shaped fmtG n
  | _ + 1, _ => True

theorem JsonTree.Sized.shaped {fmtG : WithBot (WithTop ℚ) → Bytes} {n : Nat} {v : JsonTree}
    (h : v.Sized n) : v.Shaped fmtG n := by
  induction n generalizing v with
  | zero => exact h.elim
  | succ n ih =>
      cases v with
      | null | bool | str => trivial
      | num d =>
          obtain ⟨z, hd, hz⟩ := h
          rw [JsonTree.Shaped, hd, (emitNum_int hz fmtG).1]
          exact signedDecimal_scanned z
      | arr items => exact fun v hv => ih (h.2 v hv)
      | obj keys vals => exact ⟨h.1, fun v hv => ih (h.2.2 v hv)⟩

/-- The text of a tree is the text of its document. -/
theorem JsonTree.Shaped.derives {fmtG : WithBot (WithTop ℚ) → Bytes} {n : Nat} {v : JsonTree}
    (h : v.Shaped fmtG n) : Derives n (v.text fmtG) (v.doc fmtG) := by
  induction n generalizing v with
  | zero => exact h.elim
  | succ n ih =>
      cases v with
      | null => rfl
      | bool b =>
          rw [JsonTree.text, JsonTree.tokens, List.flatMap_singleton]
          rfl
      | num d =>
          rw [JsonTree.text, JsonTree.tokens, List.flatMap_singleton]
          exact ⟨rfl, h⟩
      | str s => exact ⟨quotedTokens_bytes s, piecesOf_valid s⟩
      | arr items =>
          have hitems := fun v hv => ih (h v hv)
          rw [JsonTree.text, JsonTree.tokens, JsonTree.doc]
          cases items with
          | nil => exact ⟨[93], rfl, .empty isWs_nil⟩
          | cons v vs =>
              obtain ⟨x, hx, htext⟩ := itemTokens_listed v vs hitems true
              refine ⟨x ++ [93], ?_, .full hx⟩
              rw [List.flatMap_cons, List.flatMap_append, htext]
              rfl
      | obj keys vals =>
          obtain ⟨hlen, hmem⟩ := h
          have hvals := fun v hv => ih (hmem v hv)
          rw [JsonTree.text, JsonTree.tokens, JsonTree.doc]
          cases vals with
          | nil =>
              obtain rfl := List.length_eq_zero_iff.mp hlen
              exact ⟨rfl, [125], rfl, .empty isWs_nil⟩
          | cons v vs =>
              cases keys with
              | nil => exact absurd hlen (Nat.succ_ne_zero _).symm
              | cons key keys =>
                  obtain ⟨x, hx, htext⟩ :=
                    memberTokens_listed key keys v vs (Nat.succ.inj hlen) hvals true
                  refine ⟨?_, x ++ [125], ?_, .full hx⟩
                  · rw [List.length_map, JsonTree.docs_eq, List.length_map, hlen]
                  · rw [List.flatMap_cons, List.flatMap_append, htext]
                    rfl

theorem codes_trees {fmtG : WithBot (WithTop ℚ) → Bytes} {vs : List JsonTree}
    (hmax : vs.length ≤ ntcJsonMaxMembers) (h : ∀ v ∈ vs, (v.doc fmtG).code.tree = v) :
    NtcJson.trees ((JsonDoc.codes (JsonTree.docs fmtG vs)).take ntcJsonMaxMembers) = vs := by
  rw [JsonDoc.codes_eq, JsonTree.docs_eq, List.map_map,
    List.take_of_length_le (by rw [List.length_map]; exact hmax), NtcJson.trees_eq, List.map_map]
  exact (List.map_congr_left h).trans (List.map_id' vs)

/-- Reading the document gives the tree. -/
theorem JsonTree.Sized.code {fmtG : WithBot (WithTop ℚ) → Bytes} {n : Nat} {v : JsonTree}
    (h : v.Sized n) : (v.doc fmtG).code.tree = v := by
  induction n generalizing v with
  | zero => exact h.elim
  | succ n ih =>
      cases v with
      | null => rfl
      | bool b => rfl
      | num d =>
          obtain ⟨z, hd, hz⟩ := h
          have hnum : emitNum fmtG d = signedDecimal z := by
            rw [hd, (emitNum_int hz fmtG).1]
          rw [JsonTree.doc, hnum, JsonDoc.code, NtcJson.tree, (emitNum_int hz fmtG).2, hd]
      | str s => rw [JsonTree.doc, JsonDoc.code, piecesOf_code, NtcJson.tree]
      | arr items =>
          rw [JsonTree.doc, JsonDoc.code, NtcJson.tree, codes_trees h.1 fun v hv => ih (h.2 v hv)]
      | obj keys vals =>
          obtain ⟨hlen, hmax, hvals⟩ := h
          have hkeys : (keys.map piecesOf).map codeString = keys := by
            rw [List.map_map]
            exact (List.map_congr_left fun key _ => piecesOf_code key).trans (List.map_id' keys)
          rw [JsonTree.doc, JsonDoc.code, NtcJson.tree, codes_trees hmax fun v hv => ih (hvals v hv),
            hkeys, List.take_of_length_le (by omega)]

theorem parse_text {fmtG : WithBot (WithTop ℚ) → Bytes} {v : JsonTree}
    (h : v.Sized ntcJsonMaxDepth) : (ntcJsonParse (v.text fmtG)).map NtcJson.tree = some v := by
  have htext : TextOf ntcJsonMaxDepth (v.text fmtG) (v.doc fmtG) :=
    ⟨[], v.text fmtG, [], isWs_nil, isWs_nil, h.shaped.derives,
      by rw [List.nil_append, List.append_nil]⟩
  rw [htext.parse, Option.map_some, h.code]

-- ============================================================================
-- Texts that are cut
-- ============================================================================

/-- Only the text of a number begins with a number character. -/
theorem text_head (fmtG : WithBot (WithTop ℚ) → Bytes) {v : JsonTree} (hnum : ∀ d, v ≠ .num d) :
    ∃ c y, v.text fmtG = c :: y ∧ isNumChar c = false ∧ isJsonWs c = false := by
  cases v with
  | null => exact ⟨110, lit "ull", rfl, by decide, by decide⟩
  | bool b =>
      cases b with
      | true => exact ⟨116, lit "rue", rfl, by decide, by decide⟩
      | false => exact ⟨102, lit "alse", rfl, by decide, by decide⟩
  | num d => exact absurd rfl (hnum d)
  | str s => exact ⟨chQuote, _, rfl, by decide, by decide⟩
  | arr items => exact ⟨91, _, rfl, by decide, by decide⟩
  | obj keys vals => exact ⟨123, _, rfl, by decide, by decide⟩

/-- No proper beginning of a text is a text, but for a number. -/
theorem parse_prefix {fmtG : WithBot (WithTop ℚ) → Bytes} {v : JsonTree}
    (h : v.Sized ntcJsonMaxDepth) (hnum : ∀ d, v ≠ .num d) {x rest : Bytes} (hrest : rest ≠ [])
    (htext : v.text fmtG = x ++ rest) : ntcJsonParse x = none := by
  rw [← Option.not_isSome_iff_eq_none, ntcJsonParse_isSome_iff]
  rintro ⟨ws, y, doc, tail, hws, hy, hends, rfl⟩
  have hsplit : v.text fmtG = ws ++ (y ++ (tail ++ rest)) := by
    rw [htext, List.append_assoc, List.append_assoc]
  have hends' : Ends doc (tail ++ rest) := by
    cases tail with
    | cons c tail => exact hends
    | nil =>
        rintro l rfl
        exfalso
        obtain ⟨c, z, hcz, hc, hcws⟩ := text_head fmtG hnum
        rw [hcz] at hsplit
        cases ws with
        | cons w ws =>
            rw [List.cons_append, List.cons_eq_cons] at hsplit
            rw [hsplit.1, hws w List.mem_cons_self] at hcws
            exact Bool.noConfusion hcws
        | nil =>
            obtain ⟨rfl, ⟨d, hd, _⟩, hall⟩ : y = l ∧ ScannedNumber l := hy
            obtain ⟨l', rfl⟩ := List.head?_eq_some_iff.mp hd
            rw [List.nil_append, List.cons_append, List.cons_eq_cons] at hsplit
            have hdigit := hall d List.mem_cons_self
            rw [← hsplit.1, hc] at hdigit
            exact Bool.noConfusion hdigit
  have hnil : Ends (v.doc fmtG) [] := fun _ _ c hc => absurd hc.symm (Option.some_ne_none c)
  have hwhole : [] ++ (v.text fmtG ++ []) = ws ++ (y ++ (tail ++ rest)) := by
    rw [List.nil_append, List.append_nil, hsplit]
  have hunique := (Derives.unique isWs_nil (h.shaped.derives : Derives _ (v.text fmtG) _) hnil hws
    hy hends' hwhole).2
  exact hrest (List.append_eq_nil_iff.mp hunique.symm).2

-- ============================================================================
-- The strings of a parsed text
-- ============================================================================

theorem Listed.infix_of_mem {α : Type} {R : Bytes → α → Prop} {xs : Bytes} {as : List α}
    (h : Listed R xs as) {a : α} (ha : a ∈ as) : ∃ x, R x a ∧ x <:+: xs := by
  induction h with
  | one hx =>
      obtain rfl := List.mem_singleton.mp ha
      exact ⟨_, hx, List.infix_rfl⟩
  | @more x xs b bs hx _ ih =>
      rcases List.mem_cons.mp ha with rfl | ha
      · exact ⟨x, hx, (List.prefix_append x _).isInfix⟩
      · obtain ⟨y, hy, hin⟩ := ih ha
        exact ⟨y, hy, hin.trans ⟨x ++ [chComma], [], by simp⟩⟩

theorem Bracketed.infix_of_mem {α : Type} {R : Bytes → α → Prop} {close : UInt8} {xs : Bytes}
    {as : List α} (h : Bracketed R close xs as) {a : α} (ha : a ∈ as) :
    ∃ x, R x a ∧ x <:+: xs := by
  cases h with
  | empty => exact absurd ha List.not_mem_nil
  | full hlist =>
      obtain ⟨x, hx, hin⟩ := hlist.infix_of_mem ha
      exact ⟨x, hx, hin.trans (List.prefix_append _ _).isInfix⟩

/-- The key and the value stand in the text of a member. -/
theorem Member.infixes {α : Type} {R : Bytes → α → Prop} {z : Bytes} {key : List StrPiece} {a : α}
    (h : Member R z (key, a)) :
    (∀ p ∈ key, p.Valid) ∧ key.flatMap StrPiece.bytes <:+: z ∧ ∃ x, Padded R x a ∧ x <:+: z := by
  cases h with
  | @mk before after x _ _ hb hkey ha hx =>
      refine ⟨hkey, ⟨before ++ [chQuote], chQuote :: (after ++ chColon :: x), ?_⟩, x, hx,
        ⟨before ++ (quoted key ++ (after ++ [chColon])), [], ?_⟩⟩
      · simp only [quoted, List.append_assoc, List.cons_append, List.nil_append]
      · simp only [List.append_assoc, List.cons_append, List.nil_append, List.append_nil]

theorem mem_itemTokens {fmtG : WithBot (WithTop ℚ) → Bytes} {s : Bytes} :
    ∀ {vs : List JsonTree} {first : Bool}, EmitToken.string s ∈ JsonTree.itemTokens fmtG first vs →
      ∃ v ∈ vs, EmitToken.string s ∈ v.tokens fmtG
  | [], _, h => absurd h List.not_mem_nil
  | v :: vs, first, h => by
      rw [JsonTree.itemTokens, List.mem_append, List.mem_append] at h
      rcases h with h | h | h
      · cases first with
        | true => exact absurd h List.not_mem_nil
        | false => exact absurd (List.mem_singleton.mp h) EmitToken.noConfusion
      · exact ⟨v, List.mem_cons_self, h⟩
      · obtain ⟨u, hu, hs⟩ := mem_itemTokens h
        exact ⟨u, List.mem_cons_of_mem v hu, hs⟩

theorem mem_quotedTokens {s t : Bytes} (h : EmitToken.string s ∈ quotedTokens t) : s = t := by
  rw [quotedTokens, List.mem_cons, List.mem_cons, List.mem_singleton] at h
  rcases h with h | h | h
  · exact absurd h EmitToken.noConfusion
  · exact EmitToken.string.inj h
  · exact absurd h EmitToken.noConfusion

theorem mem_memberTokens {fmtG : WithBot (WithTop ℚ) → Bytes} {s : Bytes} :
    ∀ {keys : List Bytes} {vs : List JsonTree} {first : Bool},
      EmitToken.string s ∈ JsonTree.memberTokens fmtG first keys vs →
        s ∈ keys ∨ ∃ v ∈ vs, EmitToken.string s ∈ v.tokens fmtG
  | [], [], _, h | [], _ :: _, _, h | _ :: _, [], _, h => absurd h List.not_mem_nil
  | key :: keys, v :: vs, first, h => by
      rw [JsonTree.memberTokens, List.mem_append, List.mem_append, List.mem_cons,
        List.mem_append] at h
      rcases h with h | h | h | h | h
      · cases first with
        | true => exact absurd h List.not_mem_nil
        | false => exact absurd (List.mem_singleton.mp h) EmitToken.noConfusion
      · exact Or.inl (List.mem_cons.mpr (Or.inl (mem_quotedTokens h)))
      · exact absurd h EmitToken.noConfusion
      · exact Or.inr ⟨v, List.mem_cons_self, h⟩
      · rcases mem_memberTokens h with hs | ⟨u, hu, hs⟩
        · exact Or.inl (List.mem_cons_of_mem key hs)
        · exact Or.inr ⟨u, List.mem_cons_of_mem v hu, hs⟩

/-- A string of a value that the parser returns stands in the text. -/
theorem Derives.string_infix {fmtG : WithBot (WithTop ℚ) → Bytes} {n : Nat} {x : Bytes}
    {doc : JsonDoc} (h : Derives n x doc) {s : Bytes}
    (hs : EmitToken.string s ∈ doc.code.tree.tokens fmtG) :
    ∃ ps : List StrPiece, s = codeString ps ∧ (∀ p ∈ ps, p.Valid) ∧
      ps.flatMap StrPiece.bytes <:+: x := by
  induction n generalizing x doc with
  | zero => exact h.elim
  | succ n ih =>
      -- the documents of a list of values
      have hmany : ∀ {docs : List JsonDoc} {v : JsonTree},
          v ∈ NtcJson.trees ((JsonDoc.codes docs).take ntcJsonMaxMembers) →
            ∃ d ∈ docs, v = d.code.tree := by
        intro docs v hv
        rw [NtcJson.trees_eq, JsonDoc.codes_eq] at hv
        obtain ⟨j, hj, rfl⟩ := List.mem_map.mp hv
        obtain ⟨d, hd, rfl⟩ := List.mem_map.mp (List.mem_of_mem_take hj)
        exact ⟨d, hd, rfl⟩
      have hpadded : ∀ {y : Bytes} {d : JsonDoc}, Padded (Derives n) y d → y <:+: x →
          EmitToken.string s ∈ d.code.tree.tokens fmtG →
          ∃ ps : List StrPiece, s = codeString ps ∧ (∀ p ∈ ps, p.Valid) ∧
            ps.flatMap StrPiece.bytes <:+: x := by
        rintro y d ⟨_, hz, _⟩ hin hd
        obtain ⟨ps, hps, hvalid, hinside⟩ := ih hz hd
        exact ⟨ps, hps, hvalid, (hinside.trans ⟨_, _, List.append_assoc _ _ _⟩).trans hin⟩
      cases doc with
      | null | bool b | num l =>
          exact absurd (List.mem_singleton.mp hs) EmitToken.noConfusion
      | str ps =>
          obtain ⟨rfl, hvalid⟩ := h
          exact ⟨ps, mem_quotedTokens hs, hvalid, [chQuote], [chQuote], rfl⟩
      | arr items =>
          obtain ⟨y, rfl, hy⟩ := h
          rw [JsonDoc.code, NtcJson.tree, JsonTree.tokens, List.mem_cons, List.mem_append,
            List.mem_singleton] at hs
          rcases hs with hs | hs | hs
          · exact absurd hs EmitToken.noConfusion
          · obtain ⟨v, hv, hsv⟩ := mem_itemTokens hs
            obtain ⟨d, hd, rfl⟩ := hmany hv
            obtain ⟨z, hz, hin⟩ := hy.infix_of_mem hd
            exact hpadded hz (hin.trans (List.suffix_cons 91 y).isInfix) hsv
          · exact absurd hs EmitToken.noConfusion
      | obj keys vals =>
          obtain ⟨hlen, y, rfl, hy⟩ := h
          rw [JsonDoc.code, NtcJson.tree, JsonTree.tokens, List.mem_cons, List.mem_append,
            List.mem_singleton] at hs
          rcases hs with hs | hs | hs
          · exact absurd hs EmitToken.noConfusion
          · rcases mem_memberTokens hs with hkey | ⟨v, hv, hsv⟩
            · obtain ⟨ps, hps, rfl⟩ := List.mem_map.mp (List.mem_of_mem_take hkey)
              have hfst : ps ∈ (keys.zip vals).map Prod.fst := by
                rw [List.map_fst_zip (le_of_eq hlen)]
                exact hps
              obtain ⟨⟨key, d⟩, hmem, rfl⟩ := List.mem_map.mp hfst
              obtain ⟨z, hz, hin⟩ := hy.infix_of_mem hmem
              obtain ⟨hvalid, hkey, _⟩ := hz.infixes
              exact ⟨key, rfl, hvalid, (hkey.trans hin).trans (List.suffix_cons 123 y).isInfix⟩
            · obtain ⟨d, hd, rfl⟩ := hmany hv
              have hsnd : d ∈ (keys.zip vals).map Prod.snd := by
                rw [List.map_snd_zip (le_of_eq hlen.symm)]
                exact hd
              obtain ⟨⟨key, d⟩, hmem, rfl⟩ := List.mem_map.mp hsnd
              obtain ⟨z, hz, hin⟩ := hy.infix_of_mem hmem
              obtain ⟨_, _, w, hw, hwz⟩ := hz.infixes
              exact hpadded hw ((hwz.trans hin).trans (List.suffix_cons 123 y).isInfix) hsv
          · exact absurd hs EmitToken.noConfusion

-- ============================================================================
-- The escaped text is the shortest
-- ============================================================================

theorem escapeByte_raw {b : UInt8} (h : 32 ≤ b) (hq : b ≠ chQuote) (hb : b ≠ chBackslash) :
    escapeByte b = [b] := by
  have hall : ∀ n : Fin 256, 32 ≤ UInt8.ofNat n.val → UInt8.ofNat n.val ≠ chQuote →
      UInt8.ofNat n.val ≠ chBackslash → escapeByte (UInt8.ofNat n.val) = [UInt8.ofNat n.val] := by
    decide +kernel
  have hc := hall ⟨b.toNat, b.toNat_lt⟩
  rw [UInt8.ofNat_toNat] at hc
  exact hc h hq hb

theorem length_escapeByte_raw {b : UInt8} (h : 32 ≤ b) (hq : b ≠ chQuote)
    (hb : b ≠ chBackslash) : (escapeByte b).length = 1 := by
  rw [escapeByte_raw h hq hb]
  rfl

theorem length_escapeByte_simple {e b : UInt8} (h : simpleEscape e = some b) :
    (escapeByte b).length ≤ 2 := by
  rw [simpleEscape] at h
  split_ifs at h <;> cases h <;> decide

theorem length_escapeByte_high {k : Nat} (h : 128 ≤ k) (hk : k < 256) :
    (escapeByte (UInt8.ofNat k)).length = 1 := by
  have hnat : (UInt8.ofNat k).toNat = k := by
    rw [UInt8.toNat_ofNat']
    omega
  have hle : 128 ≤ UInt8.ofNat k := by
    rw [UInt8.le_iff_toNat_le, hnat]
    exact h
  apply length_escapeByte_raw
  · exact UInt8.le_trans (by decide) hle
  · intro heq
    rw [heq] at hle
    exact absurd hle (by decide)
  · intro heq
    rw [heq] at hle
    exact absurd hle (by decide)

theorem length_escape_unit {u : Nat} (h : u < 0x10000) :
    (escapeBytes (encodeUnit u)).length ≤ 6 := by
  have hcont : ∀ n : Nat, (escapeByte (UInt8.ofNat (0x80 ||| n &&& 0x3F))).length = 1 := by
    intro n
    rw [continuation_eq]
    exact length_escapeByte_high (by omega) (by omega)
  rw [encodeUnit]
  split_ifs with h1 h2
  · rw [escapeBytes, List.flatMap_singleton]
    exact length_escapeByte_le _
  · have hlead : (escapeByte (UInt8.ofNat (0xC0 ||| u >>> 6))).length = 1 := by
      have hsmall : u >>> 6 < 2 ^ 5 := by
        rw [Nat.shiftRight_eq_div_pow]
        omega
      rw [show (0xC0 : Nat) = 2 ^ 5 * 6 from rfl, or_eq_add 6 hsmall]
      exact length_escapeByte_high (by omega) (by omega)
    rw [escapeBytes, List.flatMap_cons, List.flatMap_singleton, List.length_append, hlead, hcont u]
    omega
  · have hlead : (escapeByte (UInt8.ofNat (0xE0 ||| u >>> 12))).length = 1 := by
      have hsmall : u >>> 12 < 2 ^ 4 := by
        rw [Nat.shiftRight_eq_div_pow]
        omega
      rw [show (0xE0 : Nat) = 2 ^ 4 * 14 from rfl, or_eq_add 14 hsmall]
      exact length_escapeByte_high (by omega) (by omega)
    rw [escapeBytes, List.flatMap_cons, List.flatMap_cons, List.flatMap_singleton,
      List.length_append, List.length_append, hlead, hcont (u >>> 6), hcont u]
    omega

/-- Without control characters no text of a string is shorter than the escaped
    one. -/
theorem length_escape_codeString {ps : List StrPiece} (hvalid : ∀ p ∈ ps, p.Valid)
    (hclean : ∀ c ∈ ps.flatMap StrPiece.bytes, 32 ≤ c) :
    (escapeBytes (codeString ps)).length ≤ (ps.flatMap StrPiece.bytes).length := by
  induction ps with
  | nil => exact le_refl 0
  | cons p ps ih =>
      rw [List.flatMap_cons] at hclean
      have hrest := ih (fun q hq => hvalid q (List.mem_cons_of_mem p hq))
        (fun c hc => hclean c (List.mem_append_right _ hc))
      have hp : (escapeBytes p.code).length ≤ p.bytes.length := by
        have hpv := hvalid p List.mem_cons_self
        cases p with
        | raw b =>
            have hb := hclean b (List.mem_append_left _ List.mem_cons_self)
            rw [StrPiece.code, escapeBytes, List.flatMap_singleton,
              length_escapeByte_raw hb hpv.1 hpv.2]
            exact le_refl 1
        | escape e =>
            obtain ⟨b, hb⟩ := Option.isSome_iff_exists.mp hpv
            rw [StrPiece.code, hb, Option.toList_some, escapeBytes, List.flatMap_singleton]
            exact length_escapeByte_simple hb
        | unit a b c d =>
            obtain ⟨u, hu⟩ := Option.isSome_iff_exists.mp hpv
            rw [code_unit hu]
            exact length_escape_unit (hex4_lt hu)
      rw [codeString_cons, escapeBytes_append, List.length_append, List.flatMap_cons,
        List.length_append]
      omega

/-- So a value that is parsed from a text has no string longer than it. -/
theorem parsed_string_le {fmtG : WithBot (WithTop ℚ) → Bytes} {x : Bytes} {v : JsonTree}
    (hclean : ∀ c ∈ x, 32 ≤ c) (h : (ntcJsonParse x).map NtcJson.tree = some v) {s : Bytes}
    (hs : EmitToken.string s ∈ v.tokens fmtG) : (escapeBytes s).length ≤ x.length := by
  obtain ⟨j, hj, rfl⟩ := Option.map_eq_some_iff.mp h
  rw [ntcJsonParse_eq] at hj
  obtain ⟨⟨doc, rest⟩, hread, rfl⟩ := Option.map_eq_some_iff.mp hj
  obtain ⟨ws, y, _, hy, _, rfl⟩ := (docReader ntcJsonMaxDepth).sound hread
  obtain ⟨ps, rfl, hvalid, hin⟩ := hy.string_infix hs
  have hin' : ps.flatMap StrPiece.bytes <:+: ws ++ (y ++ rest) :=
    hin.trans ⟨ws, rest, List.append_assoc _ _ _⟩
  exact (length_escape_codeString hvalid fun c hc => hclean c (hin'.subset hc)).trans
    hin'.length_le

-- ============================================================================
-- What the tokens hold
-- ============================================================================

/-- The tokens of a tree are punctuation and words, numbers, and strings. -/
inductive EmitToken.Plain (IsNum : Bytes → Prop) : EmitToken → Prop
  | mark {s : Bytes} (hlen : s.length ≤ 5) (hclean : ∀ c ∈ s, 32 ≤ c) : Plain IsNum (.text s)
  | num {s : Bytes} (h : IsNum s) : Plain IsNum (.text s)
  | string (s : Bytes) : Plain IsNum (.string s)

variable {IsNum : Bytes → Prop}

theorem clean_of_all {s : Bytes} (h : s.all (fun c => decide (32 ≤ c)) = true) :
    ∀ c ∈ s, 32 ≤ c :=
  fun c hc => of_decide_eq_true (List.all_eq_true.mp h c hc)

theorem EmitToken.Plain.word {s : Bytes}
    (h : s.length ≤ 5 ∧ s.all (fun c => decide (32 ≤ c)) = true) :
    EmitToken.Plain IsNum (.text s) :=
  .mark h.1 (clean_of_all h.2)

theorem plain_quoted (s : Bytes) : ∀ t ∈ quotedTokens s, t.Plain IsNum := by
  intro t ht
  rw [quotedTokens, List.mem_cons, List.mem_cons, List.mem_singleton] at ht
  rcases ht with rfl | rfl | rfl
  · exact .word (by decide)
  · exact .string s
  · exact .word (by decide)

theorem plain_items {fmtG : WithBot (WithTop ℚ) → Bytes} :
    ∀ (vs : List JsonTree) (first : Bool), (∀ v ∈ vs, ∀ t ∈ v.tokens fmtG, t.Plain IsNum) →
      ∀ t ∈ JsonTree.itemTokens fmtG first vs, t.Plain IsNum
  | [], _, _, t, ht => absurd ht List.not_mem_nil
  | v :: vs, first, h, t, ht => by
      rw [JsonTree.itemTokens, List.mem_append, List.mem_append] at ht
      rcases ht with ht | ht | ht
      · cases first with
        | true => exact absurd ht List.not_mem_nil
        | false =>
            rw [List.mem_singleton.mp ht]
            exact .word (by decide)
      · exact h v List.mem_cons_self t ht
      · exact plain_items vs false (fun u hu => h u (List.mem_cons_of_mem v hu)) t ht

theorem plain_members {fmtG : WithBot (WithTop ℚ) → Bytes} :
    ∀ (keys : List Bytes) (vs : List JsonTree) (first : Bool),
      (∀ v ∈ vs, ∀ t ∈ v.tokens fmtG, t.Plain IsNum) →
      ∀ t ∈ JsonTree.memberTokens fmtG first keys vs, t.Plain IsNum
  | [], [], _, _, _, ht | [], _ :: _, _, _, _, ht | _ :: _, [], _, _, _, ht =>
      absurd ht List.not_mem_nil
  | key :: keys, v :: vs, first, h, t, ht => by
      rw [JsonTree.memberTokens, List.mem_append, List.mem_append, List.mem_cons,
        List.mem_append] at ht
      rcases ht with ht | ht | ht | ht | ht
      · cases first with
        | true => exact absurd ht List.not_mem_nil
        | false =>
            rw [List.mem_singleton.mp ht]
            exact .word (by decide)
      · exact plain_quoted key t ht
      · rw [ht]
        exact .word (by decide)
      · exact h v List.mem_cons_self t ht
      · exact plain_members keys vs false (fun u hu => h u (List.mem_cons_of_mem v hu)) t ht

/-- The text of an integer of a tree. -/
def IsShortInt (s : Bytes) : Prop := ∃ z : Int, |z| < 10 ^ 15 ∧ s = signedDecimal z

theorem JsonTree.Sized.plain {fmtG : WithBot (WithTop ℚ) → Bytes} {n : Nat} {v : JsonTree}
    (h : v.Sized n) : ∀ t ∈ v.tokens fmtG, t.Plain IsShortInt := by
  induction n generalizing v with
  | zero => exact h.elim
  | succ n ih =>
      intro t ht
      cases v with
      | null =>
          rw [List.mem_singleton.mp ht]
          exact .word (by decide)
      | bool b =>
          rw [List.mem_singleton.mp ht]
          cases b with
          | true => exact .word (by decide)
          | false => exact .word (by decide)
      | num d =>
          obtain ⟨z, hd, hz⟩ := h
          rw [List.mem_singleton.mp ht, hd, (emitNum_int hz fmtG).1]
          exact .num ⟨z, hz, rfl⟩
      | str s => exact plain_quoted s t ht
      | arr items =>
          rw [JsonTree.tokens, List.mem_cons, List.mem_append, List.mem_singleton] at ht
          rcases ht with rfl | ht | rfl
          · exact .word (by decide)
          · exact plain_items items true (fun v hv => ih (h.2 v hv)) t ht
          · exact .word (by decide)
      | obj keys vals =>
          rw [JsonTree.tokens, List.mem_cons, List.mem_append, List.mem_singleton] at ht
          rcases ht with rfl | ht | rfl
          · exact .word (by decide)
          · exact plain_members keys vals true (fun v hv => ih (h.2.2 v hv)) t ht
          · exact .word (by decide)

mutual

theorem JsonTree.plain (fmtG : WithBot (WithTop ℚ) → Bytes) : ∀ v : JsonTree,
    ∀ t ∈ v.tokens fmtG, t.Plain fun s => ∃ d, s = emitNum fmtG d
  | .null, t, ht | .bool true, t, ht | .bool false, t, ht => by
      rw [List.mem_singleton.mp ht]
      exact .word (by decide)
  | .num d, t, ht => by
      rw [List.mem_singleton.mp ht]
      exact .num ⟨d, rfl⟩
  | .str s, t, ht => plain_quoted s t ht
  | .arr items, t, ht => by
      rw [JsonTree.tokens, List.mem_cons, List.mem_append, List.mem_singleton] at ht
      rcases ht with rfl | ht | rfl
      · exact .word (by decide)
      · exact plain_items items true (JsonTree.plainAll fmtG items) t ht
      · exact .word (by decide)
  | .obj keys vals, t, ht => by
      rw [JsonTree.tokens, List.mem_cons, List.mem_append, List.mem_singleton] at ht
      rcases ht with rfl | ht | rfl
      · exact .word (by decide)
      · exact plain_members keys vals true (JsonTree.plainAll fmtG vals) t ht
      · exact .word (by decide)

theorem JsonTree.plainAll (fmtG : WithBot (WithTop ℚ) → Bytes) : ∀ vs : List JsonTree,
    ∀ v ∈ vs, ∀ t ∈ v.tokens fmtG, t.Plain fun s => ∃ d, s = emitNum fmtG d
  | [], _, hv, _, _ => absurd hv List.not_mem_nil
  | u :: vs, v, hv, t, ht => by
      rcases List.mem_cons.mp hv with heq | hv
      · rw [heq] at ht
        exact JsonTree.plain fmtG u t ht
      · exact JsonTree.plainAll fmtG vs v hv t ht

end

theorem escapeBytes_clean (s : Bytes) : ∀ c ∈ escapeBytes s, 32 ≤ c := by
  have hall : ∀ n : Fin 256,
      (escapeByte (UInt8.ofNat n.val)).all (fun c => decide (32 ≤ c)) = true := by
    decide +kernel
  intro c hc
  obtain ⟨b, _, hb⟩ := List.mem_flatMap.mp hc
  have hbyte := hall ⟨b.toNat, b.toNat_lt⟩
  rw [UInt8.ofNat_toNat] at hbyte
  exact clean_of_all hbyte c hb

theorem isNumChar_clean {c : UInt8} (h : isNumChar c = true) : 32 ≤ c := by
  have hall : ∀ n : Fin 256, isNumChar (UInt8.ofNat n.val) = true → 32 ≤ UInt8.ofNat n.val := by
    decide +kernel
  have hc := hall ⟨c.toNat, c.toNat_lt⟩
  rw [UInt8.ofNat_toNat] at hc
  exact hc h

theorem EmitToken.Plain.clean {t : EmitToken} (h : t.Plain IsNum)
    (hnum : ∀ s, IsNum s → ∀ c ∈ s, 32 ≤ c) : ∀ c ∈ t.bytes, 32 ≤ c := by
  cases h with
  | mark _ hclean => exact hclean
  | num h => exact hnum _ h
  | string s => exact escapeBytes_clean s

theorem IsShortInt.clean {s : Bytes} (h : IsShortInt s) : ∀ c ∈ s, 32 ≤ c := by
  obtain ⟨z, _, rfl⟩ := h
  exact fun c hc => isNumChar_clean ((signedDecimal_scanned z).2 c hc)

/-- Only a string is long. -/
theorem EmitToken.Plain.long {t : EmitToken} (h : t.Plain IsShortInt)
    (hlong : 16 < t.bytes.length) : ∃ s, t = .string s := by
  cases h with
  | @mark s hlen _ =>
      rw [EmitToken.bytes] at hlong
      omega
  | num hnum =>
      obtain ⟨z, hz, rfl⟩ := hnum
      have hlen := signedDecimal_length_le hz
      rw [EmitToken.bytes] at hlong
      omega
  | string s => exact ⟨s, rfl⟩

-- ============================================================================
-- Emitting and parsing
-- ============================================================================

/-- `ntc_json_emit` fails exactly where the text and a NUL do not fit, stays in
    the buffer, and what it returns is parsed back to the tree. -/
structure EmitInverts (fmtG : WithBot (WithTop ℚ) → Bytes) (v : JsonTree) (cap : Nat) : Prop where
  fails : (ntcJsonEmit fmtG v cap).1 < 0 ↔ cap < (v.text fmtG).length + 1
  within : (ntcJsonEmit fmtG v cap).2.length ≤ cap
  parses : 0 ≤ (ntcJsonEmit fmtG v cap).1 →
    (ntcJsonParse ((ntcJsonEmit fmtG v cap).2.take (ntcJsonEmit fmtG v cap).1.toNat)).map
      NtcJson.tree = some v

/-- A text that is too long for an `int` is not emitted, or not read back. -/
theorem not_parsed_of_long {fmtG : WithBot (WithTop ℚ) → Bytes} {v : JsonTree} {n : Nat}
    (h : v.Sized ntcJsonMaxDepth) (hlong : 2 ^ 31 ≤ (v.text fmtG).length) (hn : n < 2 ^ 31) :
    (ntcJsonParse ((v.keptText fmtG).take n)).map NtcJson.tree ≠ some v := by
  intro hparse
  by_cases hshort : ∀ t ∈ v.tokens fmtG, t.bytes.length < 2 ^ 31
  · -- a proper beginning of the text
    have hkept : v.keptText fmtG = v.text fmtG := keptText_of_short hshort
    have hnum : ∀ d, v ≠ .num d := by
      rintro d rfl
      obtain ⟨z, hd, hz⟩ : ∃ z : Int, d = wholeDouble z ∧ |z| < 10 ^ 15 := h
      have hlen := signedDecimal_length_le hz
      rw [JsonTree.text, JsonTree.tokens, List.flatMap_singleton, EmitToken.bytes, hd,
        (emitNum_int hz fmtG).1] at hlong
      omega
    have hrest : (v.text fmtG).drop n ≠ [] := by
      rw [ne_eq, List.drop_eq_nil_iff]
      omega
    rw [hkept, parse_prefix h hnum hrest (List.take_append_drop n _).symm] at hparse
    exact Option.some_ne_none v hparse.symm
  · -- a string that is longer than what is returned
    obtain ⟨t, hshort⟩ := not_forall.mp hshort
    obtain ⟨ht, hbytes⟩ := Classical.not_imp.mp hshort
    obtain ⟨s, rfl⟩ := (h.plain t ht).long (by omega)
    have hclean : ∀ c ∈ (v.keptText fmtG).take n, 32 ≤ c := by
      intro c hc
      obtain ⟨u, hu, hcu⟩ := List.mem_flatMap.mp (List.mem_of_mem_take hc)
      exact (h.plain u hu).clean (fun _ => IsShortInt.clean) c (List.mem_of_mem_take hcu)
    have hle := parsed_string_le hclean hparse ht
    rw [List.length_take] at hle
    rw [EmitToken.bytes] at hbytes
    omega

/-- Emission and parsing are inverse for texts below 2^31 bytes, and for a
    longer one as long as it is turned away for want of room. -/
theorem ntcJsonEmit_inverts_iff (fmtG : WithBot (WithTop ℚ) → Bytes) (v : JsonTree) (cap : Nat)
    (h : v.Sized ntcJsonMaxDepth) :
    EmitInverts fmtG v cap ↔
      (v.text fmtG).length < 2 ^ 31 ∨
        (cap ≤ (v.text fmtG).length ∧ ¬ v.Emits fmtG cap) := by
  obtain ⟨hwithin, hgoes, hout⟩ := ntcJsonEmit_spec fmtG v cap
  constructor
  · rintro ⟨hfails, _, hparses⟩
    by_contra hnot
    rw [not_or, not_lt, not_and, not_not] at hnot
    obtain ⟨hlong, hemits⟩ := hnot
    by_cases hok : v.Emits fmtG cap
    · have hnonneg := hgoes.mpr hok
      obtain ⟨hn, rest, hdst⟩ := hout hnonneg
      have hlt := hok.2.2
      have hmod := Nat.mod_le (v.keptText fmtG).length (2 ^ 32)
      have hparse := hparses hnonneg
      rw [hn, hdst, List.take_append_of_le_length hmod] at hparse
      exact not_parsed_of_long h hlong hlt hparse
    · have hneg := not_le.mp fun hnonneg => hok (hgoes.mp hnonneg)
      exact hok (hemits (Nat.le_of_lt_succ (hfails.mp hneg)))
  · rintro (hshort | ⟨hfull, hstops⟩)
    · have htokens : ∀ t ∈ v.tokens fmtG, t.bytes.length < 2 ^ 31 := fun t ht =>
        lt_of_le_of_lt (token_length_le ht) hshort
      obtain ⟨hkept, hemits⟩ := emits_of_short htokens
      have hmod : (v.text fmtG).length % 2 ^ 32 = (v.text fmtG).length :=
        Nat.mod_eq_of_lt (by omega)
      refine ⟨?_, hwithin, fun hnonneg => ?_⟩
      · rw [← not_le, hgoes, hemits, hmod]
        omega
      · obtain ⟨hn, rest, hdst⟩ := hout hnonneg
        rw [hn, hdst, hkept, hmod, List.take_left, parse_text h]
    · have hneg := not_le.mp fun hnonneg => hstops (hgoes.mp hnonneg)
      exact ⟨iff_of_true hneg (Nat.lt_succ_of_le hfull), hwithin,
        fun hnonneg => absurd hneg (not_lt.mpr hnonneg)⟩

/-- An object with a quote in its key, a control character and a number. -/
def smallTree : JsonTree :=
  .obj [lit "a\"b"] [.arr [.str [10, 0], .num (wholeDouble (-7))]]

theorem ntcJsonEmit_inverts_small : EmitInverts (fun _ => []) smallTree 64 := by
  have hsized : smallTree.Sized ntcJsonMaxDepth := by
    refine ⟨rfl, by decide, fun v hv => ?_⟩
    rw [List.mem_singleton.mp hv]
    refine ⟨by decide, fun u hu => ?_⟩
    rcases List.mem_cons.mp hu with rfl | hu
    · trivial
    · rw [List.mem_singleton.mp hu]
      exact ⟨-7, rfl, by decide⟩
  exact (ntcJsonEmit_inverts_iff (fun _ => []) smallTree 64 hsized).mpr
    (Or.inl (by decide +kernel))

theorem escapeBytes_letters (m : Nat) : escapeBytes (List.replicate m 97) = List.replicate m 97 := by
  induction m with
  | zero => rfl
  | succ m ih =>
      rw [List.replicate_succ, escapeBytes, List.flatMap_cons]
      rw [escapeBytes] at ih
      rw [ih]
      rfl

/-- A string whose length is a negative `int` is turned away. -/
theorem emit_long_letters {m : Nat} (hm : 2 ^ 31 ≤ m % 2 ^ 32)
    (fmtG : WithBot (WithTop ℚ) → Bytes) (cap : Nat) :
    (ntcJsonEmit fmtG (.str (List.replicate m 97)) cap).1 < 0 ∧
      ((JsonTree.str (List.replicate m 97)).text fmtG).length = m + 2 := by
  obtain ⟨_, hgoes, _⟩ := ntcJsonEmit_spec fmtG (.str (List.replicate m 97)) cap
  refine ⟨not_le.mp fun hnonneg => ?_, ?_⟩
  · have hcounts : EmitToken.Counts (.string (List.replicate m 97)) :=
      (hgoes.mp hnonneg).1.2.2.2.1
    rw [EmitToken.Counts, escapeBytes_letters, List.length_replicate] at hcounts
    omega
  · rw [JsonTree.text, JsonTree.tokens, quotedTokens_bytes, quoted, piecesOf_bytes,
      escapeBytes_letters, List.length_cons, List.length_append, List.length_replicate]
    rfl

/-- A string of 2^31 letters does not go through a buffer of 2^32 bytes. -/
theorem ntcJsonEmit_rejects_long :
    (JsonTree.str (List.replicate (2 ^ 31) 97)).Sized ntcJsonMaxDepth ∧
      ¬ EmitInverts (fun _ => []) (.str (List.replicate (2 ^ 31) 97)) (2 ^ 32) := by
  refine ⟨trivial, fun hinv => ?_⟩
  obtain ⟨hneg, hlen⟩ := emit_long_letters (m := 2 ^ 31) (by omega) (fun _ => []) (2 ^ 32)
  have hfull := hinv.fails.mp hneg
  rw [hlen] at hfull
  omega

end Naitron
