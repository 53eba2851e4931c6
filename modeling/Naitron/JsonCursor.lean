/-
  Naitron.JsonCursor

  The JSON parser with its cursor: the state `P` with the read position, the
  sticky error flag and the depth counter, and parsing that goes on after the
  flag is set.

  A pointer is an offset, and a read at the end or behind it is a read of some
  byte: nothing in the model keeps the position in the text but the checks of
  the code.  The trace records what the code does to the position and to the
  counter, and how much it has written into the buffer of a string.  The arena
  is an oracle that says of every allocation whether it succeeds.

  A loop counts down the bytes that are left, `parseValueAt` the levels of
  recursion; the result is `none` where they do not suffice.
-/

import Naitron.Json

namespace Naitron

-- ============================================================================
-- The state
-- ============================================================================

/-- A write to the buffer of a string: the bytes written so far, the bytes of
    text read so far behind the opening quote, and the size of the buffer. -/
structure JsonWrite where
  written : Nat
  consumed : Nat
  cap : Nat
deriving DecidableEq, Repr

/-- What has been done, the latest first: the positions moved to, the values
    the depth counter was raised to, the counter at the beginning and at the
    end of a call of `parse_value`, and the writes. -/
structure JsonTrace where
  moves : List Nat := []
  depths : List Nat := []
  returns : List (Nat × Nat) := []
  writes : List JsonWrite := []
deriving DecidableEq, Repr

/-- `P`, with the number of calls of the arena. -/
structure JsonP where
  pos : Nat := 0
  err : Bool := false
  depth : Nat := 0
  allocs : Nat := 0
  trace : JsonTrace := {}
deriving DecidableEq, Repr

namespace JsonP

/-- `s->p += k`. -/
def advance (s : JsonP) (k : Nat) : JsonP :=
  { s with pos := s.pos + k, trace.moves := (s.pos + k) :: s.trace.moves }

/-- `s->err = true`. -/
def fail (s : JsonP) : JsonP := { s with err := true }

/-- `++s->depth`. -/
def enter (s : JsonP) : JsonP :=
  { s with depth := s.depth + 1, trace.depths := (s.depth + 1) :: s.trace.depths }

/-- `s->depth--`. -/
def leave (s : JsonP) : JsonP := { s with depth := s.depth - 1 }

/-- `k` more bytes into the buffer of `cap` bytes that was allocated at
    `start` and has `o` bytes. -/
def write (s : JsonP) (start cap o k : Nat) : JsonP :=
  { s with trace.writes := ⟨o + k, s.pos - start, cap⟩ :: s.trace.writes }

/-- A call of the arena. -/
def alloc (arena : Nat → Bool) (s : JsonP) : Bool × JsonP :=
  (arena s.allocs, { s with allocs := s.allocs + 1 })

@[simp] theorem alloc_pos (arena : Nat → Bool) (s : JsonP) : (s.alloc arena).2.pos = s.pos := rfl

end JsonP

section Code

variable (buf : Bytes) (arena : Nat → Bool)

/-- `*s->p`. -/
def JsonP.byte (s : JsonP) : UInt8 := buf.getD s.pos 0

/-- `s->p < s->end && *s->p == c`. -/
def JsonP.sees (s : JsonP) (c : UInt8) : Bool := s.pos < buf.length && s.byte buf == c

/-- `skip_ws`. -/
def skipWsAt (s : JsonP) : JsonP := s.advance ((buf.drop s.pos).takeWhile isJsonWs).length

/-- `new_val`. -/
def newVal (s : JsonP) : Bool × JsonP :=
  let (ok, s) := s.alloc arena
  if ok then (true, s) else (false, s.fail)

-- ============================================================================
-- Strings
-- ============================================================================

/-- The digits of a `\u` escape; the loop ends at one that is none, behind it. -/
def hexLoop : Nat → Nat → JsonP → Nat × JsonP
  | 0, cp, s => (cp, s)
  | k + 1, cp, s =>
      let h := s.byte buf
      let s := s.advance 1
      match hexDigitVal h with
      | some d => hexLoop k (cp <<< 4 ||| d) s
      | none => (cp <<< 4, s.fail)

/-- The loop of `parse_string`, with the bytes of the buffer. -/
def stringLoop (start cap : Nat) : Nat → Bytes → JsonP → Option (Bytes × JsonP)
  | 0, _, _ => none
  | n + 1, out, s =>
      if buf.length ≤ s.pos ∨ s.byte buf = chQuote then some (out, s)
      else
        let c := s.byte buf
        let s := s.advance 1
        if c ≠ chBackslash then
          stringLoop start cap n (out ++ [c]) (s.write start cap out.length 1)
        else if buf.length ≤ s.pos then some (out, s.fail)
        else
          let e := s.byte buf
          let s := s.advance 1
          if e = 117 then
            if buf.length - s.pos < 4 then stringLoop start cap n out s.fail
            else
              let r := hexLoop buf 4 0 s
              let unit := encodeUnit r.1
              stringLoop start cap n (out ++ unit) (r.2.write start cap out.length unit.length)
          else
            match simpleEscape e with
            | some b => stringLoop start cap n (out ++ [b]) (s.write start cap out.length 1)
            | none => stringLoop start cap n out s.fail

/-- `parse_string`. -/
def parseStringAt (s : JsonP) : Option (Bytes × JsonP) :=
  let s := s.advance 1
  let room := buf.length - s.pos
  let (ok, s) := s.alloc arena
  if !ok then some ([], s.fail)
  else
    (stringLoop buf s.pos (room + 1) (room + 1) [] s).map fun (out, s) =>
      if s.sees buf chQuote then (out, s.advance 1) else (out, s.fail)

-- ============================================================================
-- Values
-- ============================================================================

/-- The `for` loop over items or members; `close` is the bracket that ends it.
    Where the flag is not set, `elem` has come to an element. -/
def elemsAt {α : Type} (elem : JsonP → Option (Option α × JsonP)) (close : UInt8) :
    Nat → List α → JsonP → Option (List α × JsonP)
  | 0, _, _ => none
  | n + 1, xs, s =>
      (elem s).bind fun (x, s) =>
        if s.err then some (xs, s)
        else
          let xs := if xs.length < ntcJsonMaxMembers then xs ++ x.toList else xs
          let s := skipWsAt buf s
          if s.sees buf chComma then elemsAt elem close n xs (s.advance 1)
          else if s.sees buf close then some (xs, s.advance 1)
          else some (xs, s.fail)

/-- What is between the brackets. -/
def listAt {α : Type} (elem : JsonP → Option (Option α × JsonP)) (close : UInt8) (s : JsonP) :
    Option (List α × JsonP) :=
  let s := skipWsAt buf s
  if s.sees buf close then some ([], s.advance 1)
  else elemsAt buf elem close (buf.length - s.pos + 1) [] s

/-- One member of an object, up to its value. -/
def memberAt {α : Type} (value : JsonP → Option (Option α × JsonP)) (s : JsonP) :
    Option (Option (Bytes × α) × JsonP) :=
  let s := skipWsAt buf s
  if !s.sees buf chQuote then some (none, s.fail)
  else
    (parseStringAt buf arena s).bind fun (k, s) =>
      let s := skipWsAt buf s
      if !s.sees buf chColon then some (none, s.fail)
      else (value (s.advance 1)).map fun (v, s) => (v.map fun v => (k, v), s)

/-- The arrays of an object or an array, `k` of them. -/
def arraysAt (k : Nat) (s : JsonP) : JsonP :=
  let ok := (List.range k).all fun i => arena (s.allocs + i)
  let s := { s with allocs := s.allocs + k }
  if ok then s else s.fail

/-- `memcmp` with a literal, then past it. -/
def literalAt (word : Bytes) (v : NtcJson) (s : JsonP) : Option NtcJson × JsonP :=
  if word.length ≤ buf.length - s.pos ∧ (buf.drop s.pos).take word.length = word then
    let (ok, s) := newVal arena (s.advance word.length)
    (if ok then some v else none, s)
  else (none, s.fail)

/-- The number scanner; `strtod` has the text that was copied. -/
def numberAt (s : JsonP) : Option NtcJson × JsonP :=
  let text := (buf.drop s.pos).takeWhile isNumChar
  let (ok, s) := newVal arena (s.advance text.length)
  (if ok then some (.num (text.take 63)) else none, s)

/-- A value, by its first character. -/
def dispatchAt (value : JsonP → Option (Option NtcJson × JsonP)) (s : JsonP) :
    Option (Option NtcJson × JsonP) :=
  let c := s.byte buf
  if c = 123 then
    let (ok, s) := newVal arena (s.advance 1)
    (listAt buf (memberAt buf arena value) 125 s).map fun (ms, s) =>
      if ok && !s.err then (some (.obj (ms.map Prod.fst) (ms.map Prod.snd)), arraysAt arena 2 s)
      else (none, s)
  else if c = 91 then
    let (ok, s) := newVal arena (s.advance 1)
    (listAt buf value 93 s).map fun (xs, s) =>
      if ok && !s.err then (some (.arr xs), arraysAt arena 1 s) else (none, s)
  else if c = chQuote then
    let (ok, s) := newVal arena s
    if ok then (parseStringAt buf arena s).map fun (t, s) => (some (.str t), s)
    else some (none, s)
  else if c = 116 then some (literalAt buf arena (lit "true") (.bool true) s)
  else if c = 102 then some (literalAt buf arena (lit "false") (.bool false) s)
  else if c = 110 then some (literalAt buf arena (lit "null") .null s)
  else if c = 45 ∨ (48 ≤ c ∧ c ≤ 57) then some (numberAt buf arena s)
  else some (none, s.fail)

/-- The body of `parse_value`. -/
def valueBody (value : JsonP → Option (Option NtcJson × JsonP)) (s : JsonP) :
    Option (Option NtcJson × JsonP) :=
  if s.err then some (none, s)
  else
    let s := s.enter
    if ntcJsonMaxDepth < s.depth then some (none, s.fail.leave)
    else
      let s := skipWsAt buf s
      if buf.length ≤ s.pos then some (none, s.fail.leave)
      else
        (dispatchAt buf arena value s).map fun (v, s) =>
          let s := s.leave
          (if s.err then none else v, s)

/-- `parse_value`, with room for this many nested calls. -/
def parseValueAt : Nat → JsonP → Option (Option NtcJson × JsonP)
  | 0, _ => none
  | n + 1, s =>
      (valueBody buf arena (parseValueAt n) s).map fun (v, s') =>
        (v, { s' with trace.returns := (s.depth, s'.depth) :: s'.trace.returns })

/-- `ntc_json_parse`, with the state at its end. -/
def ntcJsonParseAt (levels : Nat) : Option (Option NtcJson × JsonP) :=
  (parseValueAt buf arena levels {}).map fun (v, s) => (if s.err then none else v, s)

end Code

-- ============================================================================
-- Safety
-- ============================================================================

/-- The trace of a parse of `len` bytes that has come to `pos`. -/
structure JsonTrace.Safe (t : JsonTrace) (len pos : Nat) : Prop where
  /-- The position is in the text, and has never moved backwards. -/
  position : pos ≤ len ∧ (∀ q ∈ t.moves, q ≤ pos) ∧ t.moves.Pairwise fun later earlier =>
    earlier ≤ later
  depth : ∀ d ∈ t.depths, d ≤ ntcJsonMaxDepth + 1
  restored : ∀ r ∈ t.returns, r.1 = r.2
  /-- No more is written than was read, and the buffer has room for it. -/
  writes : ∀ w ∈ t.writes, w.written ≤ w.consumed ∧ w.consumed < w.cap

/-- What a piece of code comes to: the trace is safe, the position has not
    moved backwards, and the depth is what it was. -/
structure JsonP.Reaches (len : Nat) (s s' : JsonP) : Prop where
  safe : s'.trace.Safe len s'.pos
  pos : s.pos ≤ s'.pos
  depth : s'.depth = s.depth

namespace JsonP.Reaches

variable {len : Nat} {s t u : JsonP}

theorem refl (h : s.trace.Safe len s.pos) : Reaches len s s := ⟨h, le_rfl, rfl⟩

theorem trans (h : Reaches len s t) (h' : Reaches len t u) : Reaches len s u :=
  ⟨h'.safe, h.pos.trans h'.pos, h'.depth.trans h.depth⟩

theorem le (h : Reaches len s t) : t.pos ≤ len := h.safe.position.1

theorem fail (h : Reaches len s t) : Reaches len s t.fail := ⟨h.safe, h.pos, h.depth⟩

theorem alloc (h : Reaches len s t) (arena : Nat → Bool) : Reaches len s (t.alloc arena).2 :=
  ⟨h.safe, h.pos, h.depth⟩

theorem advance (h : Reaches len s t) {k : Nat} (hk : t.pos + k ≤ len) :
    Reaches len s (t.advance k) := by
  obtain ⟨-, hmoves, hpairwise⟩ := h.safe.position
  have hle := Nat.le_add_right t.pos k
  refine ⟨⟨⟨hk, fun q hq => ?_, ?_⟩, h.safe.depth, h.safe.restored, h.safe.writes⟩,
    h.pos.trans hle, h.depth⟩
  · obtain rfl | hq := List.mem_cons.mp hq
    · exact le_rfl
    · exact (hmoves q hq).trans hle
  · exact List.pairwise_cons.mpr ⟨fun q hq => (hmoves q hq).trans hle, hpairwise⟩

theorem write (h : Reaches len s t) {start cap o k : Nat} (hwritten : o + k ≤ t.pos - start)
    (hcap : t.pos - start < cap) : Reaches len s (t.write start cap o k) := by
  refine ⟨⟨h.safe.position, h.safe.depth, h.safe.restored, fun w hw => ?_⟩, h.pos, h.depth⟩
  obtain rfl | hw := List.mem_cons.mp hw
  · exact ⟨hwritten, hcap⟩
  · exact h.safe.writes w hw

end JsonP.Reaches

open JsonP (Reaches)

variable {buf : Bytes} {arena : Nat → Bool} {s t : JsonP}

/-- A scan over the text stays in it. -/
theorem scan_le {p : UInt8 → Bool} {pos : Nat} (h : pos ≤ buf.length) :
    pos + ((buf.drop pos).takeWhile p).length ≤ buf.length := by
  have hle := (List.takeWhile_prefix p (l := buf.drop pos)).length_le
  rw [List.length_drop] at hle
  omega

theorem JsonP.Reaches.skipWs (h : Reaches buf.length s t) :
    Reaches buf.length s (skipWsAt buf t) :=
  h.advance (scan_le h.le)

theorem JsonP.Reaches.newVal (h : Reaches buf.length s t) :
    Reaches buf.length s (newVal arena t).2 := by
  rw [Naitron.newVal]
  dsimp only
  split
  · exact h.alloc arena
  · exact (h.alloc arena).fail

theorem newVal_pos (s : JsonP) : (newVal arena s).2.pos = s.pos := by
  rw [newVal]
  dsimp only
  split <;> rfl

/-- A character that is seen is not the end of the text. -/
theorem JsonP.sees_lt {c : UInt8} (h : s.sees buf c = true) : s.pos < buf.length := by
  rw [sees, Bool.and_eq_true, decide_eq_true_eq] at h
  exact h.1

theorem JsonP.Reaches.advance_sees {c : UInt8} (h : Reaches buf.length s t)
    (hc : t.sees buf c = true) : Reaches buf.length s (t.advance 1) :=
  h.advance (JsonP.sees_lt hc)

/-! ## Strings -/

/-- An escape leaves three bytes at most. -/
theorem length_encodeUnit (cp : Nat) : (encodeUnit cp).length ≤ 3 := by
  rw [encodeUnit]
  split
  · exact (by decide : 1 ≤ 3)
  · split
    · exact (by decide : 2 ≤ 3)
    · exact le_rfl

/-- The digits: one of them at least is read, whatever it is. -/
theorem hexLoop_spec {k : Nat} : ∀ {cp : Nat} {t : JsonP}, t.trace.Safe buf.length t.pos →
    t.pos + k ≤ buf.length →
      Reaches buf.length t (hexLoop buf k cp t).2 ∧ (0 < k → t.pos < (hexLoop buf k cp t).2.pos) := by
  induction k with
  | zero => exact fun h _ => ⟨.refl h, fun hk => absurd hk (Nat.lt_irrefl 0)⟩
  | succ k ih =>
      intro cp t h hk
      have hstep := (Reaches.refl h).advance (k := 1) (by omega)
      have hrest : (t.advance 1).pos + k ≤ buf.length := by
        show t.pos + 1 + k ≤ buf.length
        omega
      rw [hexLoop]
      split
      · next d _ =>
        obtain ⟨hend, -⟩ := ih hstep.safe hrest
        exact ⟨hstep.trans hend, fun _ => hend.pos⟩
      · exact ⟨hstep.fail, fun _ => Nat.lt_succ_self t.pos⟩

/-- The loop: every turn reads as many bytes at least as it writes. -/
theorem stringLoop_spec {start : Nat} (hstart : start ≤ buf.length) {n : Nat} :
    ∀ {out : Bytes} {t : JsonP}, t.trace.Safe buf.length t.pos → start ≤ t.pos →
      out.length ≤ t.pos - start → buf.length - t.pos < n →
        ∃ out' t', stringLoop buf start (buf.length - start + 1) n out t = some (out', t') ∧
          Reaches buf.length t t' := by
  induction n with
  | zero => exact fun _ _ _ hn => absurd hn (Nat.not_lt_zero _)
  | succ n ih =>
      intro out t h hpos hout hn
      rw [stringLoop]
      by_cases hend : buf.length ≤ t.pos ∨ t.byte buf = chQuote
      · rw [if_pos hend]
        exact ⟨out, t, rfl, .refl h⟩
      rw [if_neg hend]
      have hlt : t.pos < buf.length := by omega
      -- the next turn, behind a byte that this one has read
      have hnext {out' : Bytes} {u : JsonP} (hu : Reaches buf.length t u) (hless : t.pos < u.pos)
          (hout' : out'.length ≤ u.pos - start) :
          ∃ out'' t', stringLoop buf start (buf.length - start + 1) n out' u = some (out'', t') ∧
            Reaches buf.length t t' := by
        obtain ⟨out'', t', hres, ht'⟩ := ih hu.safe (by omega) hout' (by omega)
        exact ⟨out'', t', hres, hu.trans ht'⟩
      have hwrite {more : Bytes} {u : JsonP} (hu : Reaches buf.length t u)
          (hmore : t.pos + more.length ≤ u.pos) (hless : t.pos < u.pos) :
          ∃ out' t', stringLoop buf start (buf.length - start + 1) n (out ++ more)
              (u.write start (buf.length - start + 1) out.length more.length) = some (out', t') ∧
            Reaches buf.length t t' := by
        have hle := hu.le
        have hwritten : out.length + more.length ≤ u.pos - start := by omega
        exact hnext (hu.write hwritten (by omega)) hless (by rw [List.length_append]; exact hwritten)
      have hone := (Reaches.refl h).advance (k := 1) hlt
      have hpos₁ : (t.advance 1).pos = t.pos + 1 := rfl
      dsimp only
      split
      · exact hwrite hone le_rfl (Nat.lt_succ_self t.pos)
      split
      · exact ⟨out, _, rfl, hone.fail⟩
      next hmore =>
      have htwo := hone.advance (k := 1) (by omega)
      have hpos₂ : ((t.advance 1).advance 1).pos = t.pos + 2 := rfl
      split
      · split
        · have hpos₃ : ((t.advance 1).advance 1).fail.pos = t.pos + 2 := rfl
          exact hnext htwo.fail (by omega) (by omega)
        · next hfour =>
          obtain ⟨hdigits, hread⟩ := hexLoop_spec (k := 4) htwo.safe (by omega)
          have hread := hread (by omega)
          have hunit := length_encodeUnit (hexLoop buf 4 0 ((t.advance 1).advance 1)).1
          exact hwrite (htwo.trans hdigits) (by omega) (by omega)
      · split
        · next b _ =>
          have hle : t.pos + 1 ≤ ((t.advance 1).advance 1).pos := by omega
          exact hwrite htwo hle hle
        · have hpos₃ : ((t.advance 1).advance 1).fail.pos = t.pos + 2 := rfl
          exact hnext htwo.fail (by omega) (by omega)

theorem parseStringAt_spec (h : s.trace.Safe buf.length s.pos) (hquote : s.sees buf chQuote = true) :
    ∃ k t, parseStringAt buf arena s = some (k, t) ∧ Reaches buf.length s t ∧ s.pos < t.pos := by
  have hopen := (Reaches.refl h).advance_sees hquote
  rw [parseStringAt]
  dsimp only
  split
  · exact ⟨[], _, rfl, (hopen.alloc arena).fail, Nat.lt_succ_self s.pos⟩
  obtain ⟨out, t, hres, ht⟩ := stringLoop_spec (n := buf.length - (s.advance 1).pos + 1)
    hopen.le (hopen.alloc arena).safe le_rfl (show ([] : Bytes).length ≤ _ from Nat.zero_le _)
    (Nat.lt_succ_self _)
  have hpos : s.pos < t.pos := ht.pos
  rw [JsonP.alloc_pos, hres, Option.map_some]
  split
  · next hclose =>
    exact ⟨out, _, rfl, ((hopen.alloc arena).trans ht).advance_sees hclose,
      hpos.trans (Nat.lt_succ_self t.pos)⟩
  · exact ⟨out, _, rfl, ((hopen.alloc arena).trans ht).fail, hpos⟩

/-! ## Elements -/

/-- What is asked of the code that reads an element, at depth `d`. -/
def ElemOk {α : Type} (buf : Bytes) (d : Nat) (elem : JsonP → Option (Option α × JsonP)) : Prop :=
  ∀ u, u.trace.Safe buf.length u.pos → u.depth = d →
    ∃ x u', elem u = some (x, u') ∧ Reaches buf.length u u'

variable {α : Type} {d : Nat}

/-- The loop: every turn but the last reads a comma. -/
theorem elemsAt_spec {elem : JsonP → Option (Option α × JsonP)} (helem : ElemOk buf d elem)
    {close : UInt8} {n : Nat} :
    ∀ {xs : List α} {t : JsonP}, t.trace.Safe buf.length t.pos → t.depth = d →
      buf.length - t.pos < n →
        ∃ ys t', elemsAt buf elem close n xs t = some (ys, t') ∧ Reaches buf.length t t' := by
  induction n with
  | zero => exact fun _ _ hn => absurd hn (Nat.not_lt_zero _)
  | succ n ih =>
      intro xs t h hd hn
      obtain ⟨x, u, hx, hu⟩ := helem t h hd
      rw [elemsAt, hx, Option.bind_some]
      dsimp only
      split
      · exact ⟨xs, u, rfl, hu⟩
      have hws := hu.skipWs
      split
      · next hcomma =>
        have hnext := hws.advance_sees hcomma
        have hlt := JsonP.sees_lt hcomma
        have hpos : ((skipWsAt buf u).advance 1).pos = (skipWsAt buf u).pos + 1 := rfl
        have hle := hws.pos
        obtain ⟨ys, t', hres, ht'⟩ := ih hnext.safe (hnext.depth.trans hd) (by omega)
        exact ⟨ys, t', hres, hnext.trans ht'⟩
      · split
        · next hclose => exact ⟨_, _, rfl, hws.advance_sees hclose⟩
        · exact ⟨_, _, rfl, hws.fail⟩

theorem listAt_spec {elem : JsonP → Option (Option α × JsonP)} (helem : ElemOk buf d elem)
    {close : UInt8} (h : t.trace.Safe buf.length t.pos) (hd : t.depth = d) :
    ∃ xs t', listAt buf elem close t = some (xs, t') ∧ Reaches buf.length t t' := by
  have hws := (Reaches.refl h).skipWs
  rw [listAt]
  split
  · next hclose => exact ⟨[], _, rfl, hws.advance_sees hclose⟩
  · obtain ⟨xs, t', hres, ht'⟩ := elemsAt_spec helem hws.safe
      (hws.depth.trans hd) (Nat.lt_succ_self _)
    exact ⟨xs, t', hres, hws.trans ht'⟩

theorem memberAt_spec {value : JsonP → Option (Option α × JsonP)} (hvalue : ElemOk buf d value) :
    ElemOk buf d (memberAt buf arena value) := by
  intro u h hd
  have hws := (Reaches.refl h).skipWs
  rw [memberAt]
  split
  · exact ⟨none, _, rfl, hws.fail⟩
  next hquote =>
    obtain ⟨k, t, hk, ht, -⟩ := parseStringAt_spec hws.safe
      (by simpa using hquote)
    have hkey := (hws.trans ht).skipWs
    rw [hk, Option.bind_some]
    dsimp only
    split
    · exact ⟨none, _, rfl, hkey.fail⟩
    next hcolon =>
      have hnext := hkey.advance_sees (c := chColon) (by simpa using hcolon)
      obtain ⟨v, u', hv, hu'⟩ := hvalue _ hnext.safe (hnext.depth.trans hd)
      rw [hv, Option.map_some]
      exact ⟨_, u', rfl, hnext.trans hu'⟩

/-! ## Values -/

theorem JsonP.Reaches.arrays (h : Reaches buf.length s t) (k : Nat) :
    Reaches buf.length s (arraysAt arena k t) := by
  rw [arraysAt]
  split
  · exact ⟨h.safe, h.pos, h.depth⟩
  · exact ⟨h.safe, h.pos, h.depth⟩

theorem literalAt_spec (word : Bytes) (v : NtcJson) (h : t.trace.Safe buf.length t.pos) :
    Reaches buf.length t (literalAt buf arena word v t).2 := by
  rw [literalAt]
  split
  · next hword =>
    have hle : t.pos + word.length ≤ buf.length := by
      have := h.position.1
      omega
    exact ((Reaches.refl h).advance hle).newVal
  · exact (Reaches.refl h).fail

theorem numberAt_spec (h : t.trace.Safe buf.length t.pos) :
    Reaches buf.length t (numberAt buf arena t).2 :=
  ((Reaches.refl h).advance (scan_le h.position.1)).newVal

theorem dispatchAt_spec {value : JsonP → Option (Option NtcJson × JsonP)}
    (hvalue : ElemOk buf d value) (h : t.trace.Safe buf.length t.pos) (hd : t.depth = d)
    (hlt : t.pos < buf.length) :
    ∃ v u, dispatchAt buf arena value t = some (v, u) ∧ Reaches buf.length t u := by
  have hopen : Reaches buf.length t (newVal arena (t.advance 1)).2 :=
    ((Reaches.refl h).advance (k := 1) hlt).newVal
  rw [dispatchAt]
  dsimp only
  split
  · obtain ⟨ms, u, hres, hu⟩ := listAt_spec (memberAt_spec hvalue)
      hopen.safe (hopen.depth.trans hd)
    rw [hres, Option.map_some]
    dsimp only
    split
    · exact ⟨_, _, rfl, (hopen.trans hu).arrays 2⟩
    · exact ⟨_, _, rfl, hopen.trans hu⟩
  split
  · obtain ⟨xs, u, hres, hu⟩ := listAt_spec hvalue hopen.safe
      (hopen.depth.trans hd)
    rw [hres, Option.map_some]
    dsimp only
    split
    · exact ⟨_, _, rfl, (hopen.trans hu).arrays 1⟩
    · exact ⟨_, _, rfl, hopen.trans hu⟩
  split
  · next hquote =>
    have hval : Reaches buf.length t (newVal arena t).2 := (Reaches.refl h).newVal
    split
    · have hsees : (newVal arena t).2.sees buf chQuote = true := by
        rw [JsonP.sees, JsonP.byte, newVal_pos, Bool.and_eq_true, decide_eq_true_eq, beq_iff_eq]
        exact ⟨hlt, hquote⟩
      obtain ⟨k, u, hres, hu, -⟩ := parseStringAt_spec hval.safe hsees
      rw [hres, Option.map_some]
      exact ⟨_, u, rfl, hval.trans hu⟩
    · exact ⟨none, _, rfl, hval⟩
  split
  · exact ⟨_, _, rfl, literalAt_spec _ _ h⟩
  split
  · exact ⟨_, _, rfl, literalAt_spec _ _ h⟩
  split
  · exact ⟨_, _, rfl, literalAt_spec _ _ h⟩
  split
  · exact ⟨_, _, rfl, numberAt_spec h⟩
  · exact ⟨none, _, rfl, (Reaches.refl h).fail⟩

/-- A level deeper, and back. -/
theorem valueBody_spec {value : JsonP → Option (Option NtcJson × JsonP)}
    (hvalue : d < ntcJsonMaxDepth → ElemOk buf (d + 1) value) (hd : d ≤ ntcJsonMaxDepth) :
    ElemOk buf d (valueBody buf arena value) := by
  intro s h hs
  rw [valueBody]
  split
  · exact ⟨none, s, rfl, .refl h⟩
  have henter : s.enter.trace.Safe buf.length s.enter.pos := by
    refine ⟨h.position, fun e he => ?_, h.restored, h.writes⟩
    obtain rfl | he := List.mem_cons.mp he
    · omega
    · exact h.depth e he
  have hleave {u : JsonP} (hu : Reaches buf.length s.enter u) : Reaches buf.length s u.leave :=
    ⟨hu.safe, hu.pos, by
      show u.depth - 1 = s.depth
      rw [hu.depth]
      rfl⟩
  dsimp only
  split
  · exact ⟨none, _, rfl, hleave (Reaches.refl henter).fail⟩
  next hdepth =>
    have hws := (Reaches.refl henter).skipWs
    split
    · exact ⟨none, _, rfl, hleave hws.fail⟩
    next hmore =>
      have hd' : s.enter.depth = d + 1 := by rw [← hs]; rfl
      obtain ⟨v, u, hres, hu⟩ := dispatchAt_spec (hvalue (by omega)) hws.safe
        (hws.depth.trans hd') (by omega)
      rw [hres, Option.map_some]
      exact ⟨_, _, rfl, hleave (hws.trans hu)⟩

/-- `parse_value` at depth `d`, by induction on the levels that are left. -/
theorem parseValueAt_spec {n : Nat} : ∀ {d : Nat}, d ≤ ntcJsonMaxDepth →
    ntcJsonMaxDepth + 1 ≤ n + d → ElemOk buf d (parseValueAt buf arena n) := by
  induction n with
  | zero => exact fun hd hn => absurd hn (by omega)
  | succ n ih =>
      intro d hd hn s h hs
      obtain ⟨v, u, hres, hu⟩ := valueBody_spec (fun hlt => ih hlt (by omega)) hd s h hs
      rw [parseValueAt, hres, Option.map_some]
      refine ⟨v, _, rfl, ⟨hu.safe.position, hu.safe.depth, fun r hr => ?_, hu.safe.writes⟩, hu.pos,
        hu.depth⟩
      obtain rfl | hr := List.mem_cons.mp hr
      · exact hu.depth.symm
      · exact hu.safe.restored r hr

/-- A parse of any text, with any outcome of the allocations: it ends within
    33 levels of recursion, with the depth restored, and all it did was safe. -/
theorem ntcJsonParse_safe (buf : Bytes) (arena : Nat → Bool) :
    ∃ v s, ntcJsonParseAt buf arena (ntcJsonMaxDepth + 1) = some (v, s) ∧ s.depth = 0 ∧
      s.trace.Safe buf.length s.pos := by
  have hstart : JsonTrace.Safe {} buf.length 0 :=
    ⟨⟨Nat.zero_le _, fun q hq => absurd hq List.not_mem_nil, .nil⟩,
      fun e he => absurd he List.not_mem_nil, fun r hr => absurd hr List.not_mem_nil,
      fun w hw => absurd hw List.not_mem_nil⟩
  obtain ⟨v, s, hres, hs⟩ := parseValueAt_spec (Nat.zero_le ntcJsonMaxDepth)
    le_rfl {} hstart rfl
  rw [ntcJsonParseAt, hres, Option.map_some]
  exact ⟨_, s, rfl, hs.depth, hs.safe⟩

end Naitron
