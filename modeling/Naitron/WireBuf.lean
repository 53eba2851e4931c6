/-
  Naitron.WireBuf

  The bounded writer and reader of `src/common/wire.c` as the source runs
  them: a cursor with an error flag that stays set.

  The writer stops writing once the flag is set.  The reader does not stop:
  after a failed read it goes on from where it stands and returns zeroes, NULL
  slices or whatever the bytes there say, and only the last line of a decoder
  looks at the flag.  `Writes` and `Follows` relate both to the payloads and
  readers of `Naitron.Wire`, which have no cursor and stop at the first error.
-/

import Naitron.Lib.Codec
import Naitron.Wire

namespace Naitron

-- ============================================================================
-- Writer
-- ============================================================================

/-- `wbuf`: the bytes written so far are `p[0 .. off)`, never more than fit. -/
structure WBuf where
  cap : Nat
  out : Bytes
  err : Bool
  fits : out.length ≤ cap

namespace WBuf

/-- `{ out, cap, 0, false }`. -/
def start (cap : Nat) : WBuf := ⟨cap, [], false, Nat.zero_le cap⟩

/-- `w_need`. -/
def need (n : Nat) (w : WBuf) : WBuf :=
  if w.cap < w.out.length + n then { w with err := true } else w

theorem need_fits {s : Bytes} {w : WBuf} (h : ¬ (w.need s.length).err = true) :
    (w.out ++ s).length ≤ w.cap := by
  rw [need] at h
  split_ifs at h with hcap
  · exact absurd rfl h
  · rw [List.length_append]
    omega

/-- `w_need`, then the bytes if there was no error: the common body of
    `w_u8`, `w_u16`, `w_u32` and `w_bytes`. -/
def put (s : Bytes) (w : WBuf) : WBuf :=
  if h : (w.need s.length).err = true then w.need s.length
  else ⟨w.cap, w.out ++ s, false, need_fits h⟩

/-- `w_u8`. -/
def u8 (v : Nat) : WBuf → WBuf := put [UInt8.ofNat v]

/-- `w_u16`. -/
def u16 (v : Nat) : WBuf → WBuf := put (putU16 v)

/-- `w_u32`. -/
def u32 (v : Nat) : WBuf → WBuf := put (putU32 v)

/-- `w_slice16`. -/
def slice16 (s : Bytes) (w : WBuf) : WBuf :=
  if 0xFFFF < s.length then { w with err := true } else put s (u16 s.length w)

/-- The loop over headers or parameters. -/
def pairs (hs : List NtcHeader) (w : WBuf) : WBuf :=
  hs.foldl (fun w h => slice16 h.value (slice16 h.name w)) w

/-- `w.err ? -1 : (ssize_t)w.off`, with the bytes written. -/
def finish (w : WBuf) : Option Bytes := if w.err then none else some w.out

end WBuf

/-- `f` appends `enc` to a writer, or fails when there is no `enc` or no room
    for it. -/
def Writes (f : WBuf → WBuf) (enc : Option Bytes) : Prop :=
  ∀ w : WBuf, (f w).cap = w.cap ∧
    (f w).finish = w.finish.bind fun out => enc.bind fun s =>
      if w.cap < (out ++ s).length then none else some (out ++ s)

theorem Writes.put (s : Bytes) : Writes (WBuf.put s) (some s) := by
  intro w
  by_cases hcap : w.cap < w.out.length + s.length
  · cases herr : w.err <;> simp [WBuf.put, WBuf.need, WBuf.finish, hcap, herr]
  · cases herr : w.err <;> simp [WBuf.put, WBuf.need, WBuf.finish, hcap, herr]

/-- Writing nothing. -/
theorem Writes.nop : Writes (fun w => w) (some []) := by
  intro w
  refine ⟨rfl, ?_⟩
  rw [WBuf.finish]
  split_ifs
  · rfl
  · simp [Nat.not_lt.mpr w.fits]

/-- Two writes one after the other append both strings; a writer that has no
    room for the first has none for both. -/
theorem Writes.seq {f g : WBuf → WBuf} {a b : Option Bytes} (hf : Writes f a) (hg : Writes g b) :
    Writes (fun w => g (f w)) (do let s ← a; let t ← b; return s ++ t) := by
  intro w
  obtain ⟨hcapf, hf⟩ := hf w
  obtain ⟨hcapg, hg⟩ := hg (f w)
  refine ⟨by rw [hcapg, hcapf], ?_⟩
  rw [hg, hf, hcapf]
  cases w.finish with
  | none => rfl
  | some out =>
      cases a with
      | none => rfl
      | some s =>
          cases b with
          | none =>
              dsimp only [Option.bind_some]
              split_ifs <;> rfl
          | some t =>
              dsimp only [Option.bind_some, Option.bind_eq_bind, pure]
              by_cases hcap : w.cap < (out ++ s).length
              · rw [if_pos hcap, if_pos (by simp only [List.length_append] at hcap ⊢; omega)]
                rfl
              · rw [if_neg hcap, Option.bind_some, List.append_assoc]

theorem Writes.slice16 (s : Bytes) : Writes (WBuf.slice16 s) (wSlice16 s) := by
  by_cases hlen : 0xFFFF < s.length
  · intro w
    simp [WBuf.slice16, wSlice16, WBuf.finish, hlen]
  · have hseq := (Writes.put (putU16 s.length)).seq (Writes.put s)
    intro w
    rw [WBuf.slice16, wSlice16, if_neg hlen, if_neg hlen]
    exact hseq w

theorem Writes.pairs : ∀ hs : List NtcHeader, Writes (WBuf.pairs hs) (wPairs hs) := by
  intro hs
  induction hs with
  | nil => exact Writes.nop
  | cons h hs ih =>
      have hseq := ((Writes.slice16 h.name).seq (Writes.slice16 h.value)).seq ih
      intro w
      have hw := hseq w
      refine ⟨hw.1, hw.2.trans ?_⟩
      congr 1
      funext out
      rw [wPairs]
      cases wSlice16 h.name <;> cases wSlice16 h.value <;> cases wPairs hs <;> rfl

-- ============================================================================
-- Reader
-- ============================================================================

/-- `rbuf`: the input, the offset of the next byte and the error flag. -/
structure RBuf where
  p : Bytes
  off : Nat
  err : Bool
  inBounds : off ≤ p.length

/-- An `ntc_slice` of a decoded payload: a range of the input, or NULL. -/
inductive Span where
  | null
  | range (off len : Nat)
deriving DecidableEq, Repr

/-- The bytes a slice of `p` spans. -/
def Span.bytes (p : Bytes) : Span → Bytes
  | .null => []
  | .range off len => (p.drop off).take len

/-- The slice is a range of `p`. -/
def Span.Inside (p : Bytes) : Span → Prop
  | .null => False
  | .range off len => off + len ≤ p.length

/-- A step of a decoder; `none` is a `return false` before its last line. -/
abbrev CursorM := StateT RBuf Option

/-- A reader without a cursor: it stops at the first error. -/
abbrev ReadM := Lib.Parse UInt8

namespace RBuf

/-- `{ buf, len, 0, false }`. -/
def start (buf : Bytes) : RBuf := ⟨buf, 0, false, Nat.zero_le _⟩

def fail (r : RBuf) : RBuf := { r with err := true }

/-- The bytes ahead, as long as nothing has failed. -/
def rest (r : RBuf) : Option Bytes := if r.err then none else some (r.p.drop r.off)

/-- `n` bytes as a number: `r_u8`, `r_u16` and `r_u32` at 1, 2 and 4. -/
def be (n : Nat) : CursorM Nat := fun r =>
  if h : r.p.length < r.off + n then some (0, r.fail)
  else some (getBe ((r.p.drop r.off).take n), ⟨r.p, r.off + n, r.err, Nat.not_lt.mp h⟩)

/-- The end of `r_slice16` and `r_slice32`, after the length has been read. -/
def span (n : Nat) : CursorM Span := fun r =>
  if h : r.err = true ∨ r.p.length < r.off + n then some (.null, r.fail)
  else some (.range r.off n, ⟨r.p, r.off + n, r.err, Nat.not_lt.mp (not_or.mp h).2⟩)

/-- `r_u8`. -/
def u8 : CursorM Nat := be 1

/-- `r_u16`. -/
def u16 : CursorM Nat := be 2

/-- `r_slice16`. -/
def slice16 : CursorM Span := do
  let n ← be 2
  span n

/-- `r_slice32`. -/
def slice32 : CursorM Span := do
  let n ← be 4
  span n

/-- `return !r.err`, with what was decoded and the number of bytes read. -/
def decode {α : Type} (m : CursorM α) (buf : Bytes) : Option (α × Nat) :=
  (m (start buf)).bind fun x => if x.2.err then none else some (x.1, x.2.off)

end RBuf

section Follows

variable {α β γ δ : Type} {p : Bytes}

/-- On the input `p`, the cursor `m` reads what `d` reads from the bytes ahead,
    seen through `v`: if the flag is clear afterwards, `d` returned the value
    and the bytes then ahead, and the value is `Good`; if not, `d` failed. -/
def Follows (p : Bytes) (m : CursorM α) (d : ReadM β) (v : α → β)
    (Good : α → Prop) : Prop :=
  ∀ r : RBuf, r.p = p →
    match m r with
    | none => r.rest.bind d = none
    | some (a, r') =>
        r'.p = p ∧ (r'.err = false → Good a) ∧ r'.rest.map (fun s => (v a, s)) = r.rest.bind d

theorem Follows.pure {a : α} {b : β} {v : α → β} {Good : α → Prop} (hv : v a = b) (h : Good a) :
    Follows p (Pure.pure a) (Pure.pure b) v Good := by
  subst hv
  intro r hp
  refine ⟨hp, fun _ => h, ?_⟩
  cases r.rest <;> rfl

/-- Sequencing.  The second reader runs after a failure of the first as well;
    the flag is then set and stays set. -/
theorem Follows.bind {m : CursorM α} {k : α → CursorM γ} {d : ReadM β}
    {k' : β → ReadM δ} {v : α → β} {v' : γ → δ} {Good : α → Prop}
    {Good' : γ → Prop} (hm : Follows p m d v Good)
    (hk : ∀ a, Follows p (k a) (k' (v a)) v' fun c => Good a → Good' c) :
    Follows p (m >>= k) (d >>= k') v' Good' := by
  intro r hp
  have hmr := hm r hp
  have hrun : (m >>= k) r = (m r).bind fun x => k x.1 x.2 := rfl
  have hdec : r.rest.bind (d >>= k') = (r.rest.bind d).bind fun x => k' x.1 x.2 := by
    cases r.rest <;> rfl
  rw [hrun, hdec]
  cases hres : m r with
  | none =>
      rw [hres] at hmr
      dsimp only at hmr
      rw [hmr]
      rfl
  | some x =>
      obtain ⟨a, r'⟩ := x
      rw [hres] at hmr
      obtain ⟨hp', hgood, heq⟩ := hmr
      have hkr := hk a r' hp'
      have hdec' : (r.rest.bind d).bind (fun x => k' x.1 x.2) = r'.rest.bind (k' (v a)) := by
        rw [← heq]
        cases r'.rest <;> rfl
      rw [hdec', Option.bind_some]
      dsimp only at hkr ⊢
      cases hres' : k a r' with
      | none =>
          rw [hres'] at hkr
          exact hkr
      | some y =>
          obtain ⟨c, r''⟩ := y
          rw [hres'] at hkr
          obtain ⟨hp'', hgood', heq'⟩ := hkr
          refine ⟨hp'', fun hclear => hgood' hclear (hgood ?_), heq'⟩
          -- the flag was clear before the second reader, or it would be set now
          cases herr : r'.err with
          | false => rfl
          | true =>
              have hnone : r'.rest = none := by rw [RBuf.rest, herr]; rfl
              rw [hnone, RBuf.rest, hclear] at heq'
              cases heq'

theorem Follows.imp {m : CursorM α} {d : ReadM β} {v : α → β}
    {Good Good' : α → Prop} (h : Follows p m d v Good) (himp : ∀ a, Good a → Good' a) :
    Follows p m d v Good' := by
  intro r hp
  have hr := h r hp
  cases hres : m r with
  | none =>
      rw [hres] at hr
      exact hr
  | some x =>
      rw [hres] at hr
      exact ⟨hr.1, fun hclear => himp _ (hr.2.1 hclear), hr.2.2⟩

theorem Follows.be (n : Nat) :
    Follows p (RBuf.be n)
      (fun s => if s.length < n then none else some (getBe (s.take n), s.drop n)) id
      fun _ => True := by
  intro r hp
  subst hp
  have hin := r.inBounds
  rw [RBuf.be]
  by_cases h : r.p.length < r.off + n
  · rw [dif_pos h]
    have hshort : r.p.length - r.off < n := by omega
    refine ⟨rfl, fun _ => trivial, ?_⟩
    cases herr : r.err <;> simp [RBuf.rest, RBuf.fail, herr, hshort]
  · rw [dif_neg h]
    have hroom : n ≤ r.p.length - r.off := by omega
    refine ⟨rfl, fun _ => trivial, ?_⟩
    cases herr : r.err <;> simp [RBuf.rest, herr, hroom]

theorem Follows.span (n : Nat) :
    Follows p (RBuf.span n) (rBytes n) (Span.bytes p) (Span.Inside p) := by
  intro r hp
  subst hp
  have hin := r.inBounds
  rw [RBuf.span]
  by_cases h : r.err = true ∨ r.p.length < r.off + n
  · rw [dif_pos h]
    refine ⟨rfl, fun hclear => absurd hclear (by simp [RBuf.fail]), ?_⟩
    cases herr : r.err with
    | true => simp [RBuf.rest, RBuf.fail, herr]
    | false =>
        have hlen := h.resolve_left (by simp [herr])
        have hshort : r.p.length - r.off < n := by omega
        simp [RBuf.rest, RBuf.fail, herr, rBytes, hshort]
  · rw [dif_neg h]
    obtain ⟨herr, hlen⟩ := not_or.mp h
    have hroom : n ≤ r.p.length - r.off := by omega
    refine ⟨rfl, fun _ => Nat.not_lt.mp hlen, ?_⟩
    simp [RBuf.rest, herr, rBytes, hroom, Span.bytes]

theorem Follows.u16 : Follows p RBuf.u16 rU16 id fun _ => True := Follows.be 2

theorem Follows.slice16 : Follows p RBuf.slice16 rSlice16 (Span.bytes p) (Span.Inside p) := by
  show Follows p (RBuf.be 2 >>= RBuf.span) ((rU16 : ReadM Nat) >>= rBytes) _ _
  exact (Follows.be 2).bind fun n => (Follows.span n).imp fun _ h _ => h

theorem Follows.slice32 : Follows p RBuf.slice32 rSlice32 (Span.bytes p) (Span.Inside p) := by
  show Follows p (RBuf.be 4 >>= RBuf.span) ((rU32 : ReadM Nat) >>= rBytes) _ _
  exact (Follows.be 4).bind fun n => (Follows.span n).imp fun _ h _ => h

/-- What a decoder accepts is what the reader accepts at the start of the
    input. -/
theorem Follows.decode {m : CursorM α} {d : ReadM β} {v : α → β}
    {Good : α → Prop} {buf : Bytes} (h : Follows buf m d v Good) :
    (RBuf.decode m buf).map (fun x => (v x.1, buf.drop x.2)) = d buf := by
  have hr := h (RBuf.start buf) rfl
  have hstart : (RBuf.start buf).rest.bind d = d buf := rfl
  rw [hstart] at hr
  rw [RBuf.decode]
  cases hres : m (RBuf.start buf) with
  | none =>
      rw [hres] at hr
      exact hr.symm
  | some x =>
      obtain ⟨a, r⟩ := x
      rw [hres] at hr
      obtain ⟨hp, -, heq⟩ := hr
      rw [← heq, RBuf.rest, hp, Option.bind_some]
      cases r.err <;> rfl

/-- An accepted value is `Good`, and its last byte is inside the input. -/
theorem Follows.decode_good {m : CursorM α} {d : ReadM β} {v : α → β}
    {Good : α → Prop} {buf : Bytes} (h : Follows buf m d v Good) {a : α} {n : Nat}
    (hdec : RBuf.decode m buf = some (a, n)) : Good a ∧ n ≤ buf.length := by
  have hr := h (RBuf.start buf) rfl
  obtain ⟨⟨a', r⟩, hres, hx⟩ := Option.bind_eq_some_iff.mp hdec
  rw [hres] at hr
  obtain ⟨hp, hgood, -⟩ := hr
  split_ifs at hx with herr
  cases hx
  refine ⟨hgood (by simpa using herr), ?_⟩
  have := r.inBounds
  rwa [hp] at this

end Follows

end Naitron
