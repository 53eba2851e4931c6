/-
  Naitron.JsonRefine

  The parser with the cursor computes the parser on lists: as long as its flag
  is not set it has come to what the list parser leaves over, and the flag is
  set where the list parser fails or the arena does.

  After an error the code reads on, over text that no longer matters; the flag
  is never cleared, so nothing of it comes out.
-/

import Naitron.JsonCursor
import Naitron.JsonText

namespace Naitron

variable {buf : Bytes} {arena : Nat → Bool} {s s' t t' : JsonP} {α : Type}

-- ============================================================================
-- Positions and what is left of the text
-- ============================================================================

theorem drop_eq_nil_iff_pos : buf.drop s.pos = [] ↔ buf.length ≤ s.pos := List.drop_eq_nil_iff

theorem drop_of_lt (h : s.pos < buf.length) :
    buf.drop s.pos = s.byte buf :: buf.drop (s.pos + 1) := by
  rw [List.drop_eq_getElem_cons h, JsonP.byte, List.getD_eq_getElem?_getD,
    List.getElem?_eq_getElem h, Option.getD_some]

theorem byte_of_drop {c : UInt8} {rest : Bytes} (h : buf.drop s.pos = c :: rest) :
    s.byte buf = c := by
  have hlt : s.pos < buf.length := by
    by_contra hge
    rw [drop_eq_nil_iff_pos.mpr (not_lt.mp hge)] at h
    cases h
  exact (List.cons.inj ((drop_of_lt hlt).symm.trans h)).1

theorem drop_of_sees {c : UInt8} (h : s.sees buf c = true) :
    buf.drop s.pos = c :: buf.drop (s.pos + 1) := by
  rw [JsonP.sees, Bool.and_eq_true, decide_eq_true_eq, beq_iff_eq] at h
  rw [drop_of_lt h.1, h.2]

theorem drop_of_not_sees {c : UInt8} (h : ¬ s.sees buf c = true) (rest : Bytes) :
    buf.drop s.pos ≠ c :: rest := by
  intro heq
  have hlt : s.pos < buf.length := by
    by_contra hge
    rw [drop_eq_nil_iff_pos.mpr (not_lt.mp hge)] at heq
    cases heq
  rw [drop_of_lt hlt] at heq
  apply h
  rw [JsonP.sees, (List.cons.inj heq).1, beq_self_eq_true, decide_eq_true hlt]
  rfl

theorem drop_length_takeWhile (p : UInt8 → Bool) (s : Bytes) :
    s.drop (s.takeWhile p).length = s.dropWhile p := by
  have hdrop : (s.takeWhile p ++ s.dropWhile p).drop (s.takeWhile p).length = s.dropWhile p :=
    List.drop_left
  rwa [List.takeWhile_append_dropWhile] at hdrop

theorem drop_skipWsAt : buf.drop (skipWsAt buf s).pos = skipWs (buf.drop s.pos) := by
  show buf.drop (s.pos + ((buf.drop s.pos).takeWhile isJsonWs).length) = _
  rw [skipWs, ← List.drop_drop]
  exact drop_length_takeWhile isJsonWs (buf.drop s.pos)

-- ============================================================================
-- The relation
-- ============================================================================

/-- The code gets from `s` to `s'` with the value `v`, where the list parser
    has the result `r` on what is left at `s`. -/
structure CursorFollows (buf : Bytes) (arena : Nat → Bool) (s s' : JsonP) (v : Option α)
    (r : Option (α × Bytes)) : Prop where
  err : s.err = true → s'.err = true
  depth : s'.depth = s.depth
  sound : s'.err = false → ∃ x, v = some x ∧ r = some (x, buf.drop s'.pos)
  complete : (∀ n, arena n = true) → s.err = false → s'.err = true → r = none

/-- A failure of both. -/
theorem CursorFollows.failed {v : Option α} (hdepth : t.depth = s.depth) :
    CursorFollows buf arena s t.fail v none :=
  ⟨fun _ => rfl, hdepth, fun h => (by cases h), fun _ _ _ => rfl⟩

/-- A move of the position only. -/
theorem CursorFollows.of_advance {k : Nat} {v : Option α} {r : Option (α × Bytes)}
    (h : CursorFollows buf arena (s.advance k) s' v r) : CursorFollows buf arena s s' v r :=
  ⟨h.err, h.depth, h.sound, h.complete⟩

theorem newVal_err (s : JsonP) : (newVal arena s).2.err = (s.err || !(newVal arena s).1) := by
  rw [newVal, JsonP.alloc]
  dsimp only
  cases arena s.allocs with
  | false =>
      show true = (s.err || true)
      rw [Bool.or_true]
  | true =>
      show s.err = (s.err || false)
      rw [Bool.or_false]

theorem newVal_depth (s : JsonP) : (newVal arena s).2.depth = s.depth := by
  rw [newVal]
  dsimp only
  split <;> rfl

theorem newVal_ok (hall : ∀ n, arena n = true) (s : JsonP) : (newVal arena s).1 = true := by
  rw [newVal, JsonP.alloc, hall]
  rfl

-- ============================================================================
-- Strings
-- ============================================================================

/-- The digits of an escape, and the flag. -/
theorem hexLoop_follows {k : Nat} : ∀ {cp : Nat} {t : JsonP},
    (t.err = true → (hexLoop buf k cp t).2.err = true) ∧
      (hexLoop buf k cp t).2.depth = t.depth := by
  induction k with
  | zero => exact ⟨id, rfl⟩
  | succ k ih =>
      intro cp t
      rw [hexLoop]
      split
      · next d _ =>
        obtain ⟨herr, hdepth⟩ := @ih (cp <<< 4 ||| d) (t.advance 1)
        exact ⟨herr, hdepth⟩
      · exact ⟨fun _ => rfl, rfl⟩

theorem shiftLeft_or_digit (cp : Nat) {d : Nat} (hd : d < 16) : cp <<< 4 ||| d = cp * 16 + d := by
  rw [← Nat.shiftLeft_add_eq_or_of_lt hd, Nat.shiftLeft_eq]

/-- A digit of an escape. -/
theorem hexLoop_digit {k cp d : Nat} {t : JsonP} {h : UInt8} {rest : Bytes}
    (hdrop : buf.drop t.pos = h :: rest) (hd : hexDigitVal h = some d) :
    hexLoop buf (k + 1) cp t = hexLoop buf k (cp * 16 + d) (t.advance 1) := by
  rw [hexLoop, byte_of_drop hdrop, hd]
  dsimp only
  rw [shiftLeft_or_digit cp (hexDigitVal_lt hd)]

/-- A character that is no digit. -/
theorem hexLoop_stop {k cp : Nat} {t : JsonP} {h : UInt8} {rest : Bytes}
    (hdrop : buf.drop t.pos = h :: rest) (hd : hexDigitVal h = none) :
    (hexLoop buf (k + 1) cp t).2.err = true := by
  rw [hexLoop, byte_of_drop hdrop, hd]
  rfl

theorem drop_advance {c : UInt8} {rest : Bytes} (h : buf.drop s.pos = c :: rest) :
    buf.drop (s.advance 1).pos = rest := by
  show buf.drop (s.pos + 1) = rest
  rw [← List.drop_drop, h]
  rfl

/-- The four digits. -/
theorem hexLoop_four {t : JsonP} {a b c d : UInt8} {rest : Bytes}
    (h : buf.drop t.pos = a :: b :: c :: d :: rest) :
    (∀ cp, hex4 a b c d = some cp →
      hexLoop buf 4 0 t = (cp, (((t.advance 1).advance 1).advance 1).advance 1)) ∧
    (hex4 a b c d = none → (hexLoop buf 4 0 t).2.err = true) := by
  have h1 := drop_advance h
  have h2 := drop_advance h1
  have h3 := drop_advance h2
  rw [hex4]
  cases ha : hexDigitVal a with
  | none => exact ⟨fun _ hcp => (by cases hcp), fun _ => hexLoop_stop h ha⟩
  | some da =>
      rw [hexLoop_digit h ha]
      cases hb : hexDigitVal b with
      | none => exact ⟨fun _ hcp => (by cases hcp), fun _ => hexLoop_stop h1 hb⟩
      | some db =>
          rw [hexLoop_digit h1 hb]
          cases hc : hexDigitVal c with
          | none => exact ⟨fun _ hcp => (by cases hcp), fun _ => hexLoop_stop h2 hc⟩
          | some dc =>
              rw [hexLoop_digit h2 hc]
              cases hd : hexDigitVal d with
              | none => exact ⟨fun _ hcp => (by cases hcp), fun _ => hexLoop_stop h3 hd⟩
              | some dd =>
                  rw [hexLoop_digit h3 hd]
                  refine ⟨fun cp hcp => ?_, fun hcp => (by cases hcp)⟩
                  have heq : ((da * 16 + db) * 16 + dc) * 16 + dd = cp := Option.some.inj hcp
                  rw [hexLoop, ← heq, Nat.zero_mul, Nat.zero_add]

/-- The flag is not cleared by the loop, and the depth is not touched. -/
theorem stringLoop_err {start cap n : Nat} : ∀ {out out' : Bytes} {t t' : JsonP},
    stringLoop buf start cap n out t = some (out', t') →
      (t.err = true → t'.err = true) ∧ t'.depth = t.depth := by
  induction n with
  | zero => exact fun h => (by cases h)
  | succ n ih =>
      intro out out' t t' h
      rw [stringLoop] at h
      dsimp only at h
      split_ifs at h with h1 h2 h3 h4 h5
      · obtain ⟨rfl, rfl⟩ := Prod.mk.inj (Option.some.inj h)
        exact ⟨id, rfl⟩
      · obtain ⟨herr, hdepth⟩ := ih h
        exact ⟨herr, hdepth⟩
      · obtain ⟨rfl, rfl⟩ := Prod.mk.inj (Option.some.inj h)
        exact ⟨fun _ => rfl, rfl⟩
      · obtain ⟨herr, hdepth⟩ := ih h
        exact ⟨fun _ => herr rfl, hdepth⟩
      · obtain ⟨herr, hdepth⟩ := ih h
        have hhex := @hexLoop_follows buf 4 0 ((t.advance 1).advance 1)
        exact ⟨fun ht => herr (hhex.1 ht), hdepth.trans hhex.2⟩
      · split at h
        · obtain ⟨herr, hdepth⟩ := ih h
          exact ⟨herr, hdepth⟩
        · obtain ⟨herr, hdepth⟩ := ih h
          exact ⟨fun _ => herr rfl, hdepth⟩

theorem parseString_quote (rest : Bytes) : parseString (chQuote :: rest) = some ([], rest) := by
  rw [parseString.eq_def]
  exact if_pos rfl

theorem parseString_raw {c : UInt8} (hquote : c ≠ chQuote) (hback : c ≠ chBackslash)
    (rest : Bytes) :
    parseString (c :: rest) = (parseString rest).map fun r => ([c] ++ r.1, r.2) := by
  rw [parseString.eq_def]
  dsimp only
  rw [if_neg hquote, if_pos hback]
  rfl

theorem parseString_backslash : parseString [chBackslash] = none := by
  rw [parseString.eq_def]
  rfl

theorem parseString_unit (a b c d : UInt8) (rest : Bytes) :
    parseString (chBackslash :: 117 :: a :: b :: c :: d :: rest) =
      (hex4 a b c d).bind fun cp =>
        (parseString rest).map fun r => (encodeUnit cp ++ r.1, r.2) := by
  rw [parseString.eq_def]
  rfl

theorem parseString_unit_short {rest : Bytes} (h : rest.length < 4) :
    parseString (chBackslash :: 117 :: rest) = none := by
  rw [parseString.eq_def]
  rcases rest with _ | ⟨a, _ | ⟨b, _ | ⟨c, _ | ⟨d, rest⟩⟩⟩⟩
  · rfl
  · rfl
  · rfl
  · rfl
  · simp only [List.length_cons] at h
    omega

theorem parseString_escape {e : UInt8} (he : e ≠ 117) (rest : Bytes) :
    parseString (chBackslash :: e :: rest) =
      (simpleEscape e).bind fun b => (parseString rest).map fun r => ([b] ++ r.1, r.2) := by
  rw [parseString.eq_def]
  exact if_neg he

/-- What is closed by the loop with the flag not set is the string. -/
theorem stringLoop_follows {start cap n : Nat} : ∀ {out out' : Bytes} {t t' : JsonP},
    stringLoop buf start cap n out t = some (out', t') → t.err = false →
      (t'.err = false → t'.sees buf chQuote = true → ∃ tail, out' = out ++ tail ∧
        parseString (buf.drop t.pos) = some (tail, buf.drop (t'.pos + 1))) ∧
      (t'.err = true ∨ ¬ t'.sees buf chQuote = true → parseString (buf.drop t.pos) = none) := by
  induction n with
  | zero => exact fun h => (by cases h)
  | succ n ih =>
      intro out out' t t' h ht
      -- a step with which both go on
      have hgo : ∀ {u : JsonP} {piece : Bytes} {rest : Bytes},
          stringLoop buf start cap n (out ++ piece) u = some (out', t') → u.err = false →
          buf.drop u.pos = rest →
          parseString (buf.drop t.pos) = (parseString rest).map (fun r => (piece ++ r.1, r.2)) →
          (t'.err = false → t'.sees buf chQuote = true → ∃ tail, out' = out ++ tail ∧
            parseString (buf.drop t.pos) = some (tail, buf.drop (t'.pos + 1))) ∧
          (t'.err = true ∨ ¬ t'.sees buf chQuote = true →
            parseString (buf.drop t.pos) = none) := by
        intro u piece rest hrun hu hrest hparse
        obtain ⟨hsound, hcomplete⟩ := ih hrun hu
        rw [hrest] at hsound hcomplete
        rw [hparse]
        refine ⟨fun herr hquote => ?_, fun hend => ?_⟩
        · obtain ⟨tail, rfl, htail⟩ := hsound herr hquote
          exact ⟨piece ++ tail, List.append_assoc _ _ _, by rw [htail, Option.map_some]⟩
        · rw [hcomplete hend, Option.map_none]
      -- an error of both
      have hfail : ∀ {u : JsonP} {out₁ : Bytes}, u.err = true →
          stringLoop buf start cap n out₁ u = some (out', t') →
          parseString (buf.drop t.pos) = none →
          (t'.err = false → t'.sees buf chQuote = true → ∃ tail, out' = out ++ tail ∧
            parseString (buf.drop t.pos) = some (tail, buf.drop (t'.pos + 1))) ∧
          (t'.err = true ∨ ¬ t'.sees buf chQuote = true →
            parseString (buf.drop t.pos) = none) := by
        intro u out₁ hu hrun hnone
        have herr := (stringLoop_err hrun).1 hu
        refine ⟨fun hno => ?_, fun _ => hnone⟩
        rw [herr] at hno
        cases hno
      rw [stringLoop] at h
      by_cases hend : buf.length ≤ t.pos ∨ t.byte buf = chQuote
      · rw [if_pos hend] at h
        obtain ⟨rfl, rfl⟩ := Prod.mk.inj (Option.some.inj h)
        refine ⟨fun _ hquote => ⟨[], (List.append_nil _).symm, ?_⟩, ?_⟩
        · rw [drop_of_sees hquote, parseString_quote]
        · rintro (herr | hquote)
          · rw [ht] at herr
            cases herr
          · obtain hlen | hbyte := hend
            · rw [drop_eq_nil_iff_pos.mpr hlen, parseString]
            · by_cases hlt : t.pos < buf.length
              · exact absurd (by rw [drop_of_lt hlt, hbyte]) (drop_of_not_sees hquote
                  (buf.drop (t.pos + 1)))
              · rw [drop_eq_nil_iff_pos.mpr (not_lt.mp hlt), parseString]
      rw [if_neg hend] at h
      rw [not_or, not_le] at hend
      obtain ⟨hlt, hquote⟩ := hend
      have hdrop := drop_of_lt hlt
      have hadv := drop_advance hdrop
      dsimp only at h
      by_cases hback : t.byte buf ≠ chBackslash
      · rw [if_pos hback] at h
        refine hgo h ht hadv ?_
        rw [hdrop, parseString_raw hquote hback]
      rw [if_neg hback] at h
      by_cases hshort : buf.length ≤ (t.advance 1).pos
      · rw [if_pos hshort] at h
        obtain ⟨rfl, rfl⟩ := Prod.mk.inj (Option.some.inj h)
        have hnil : buf.drop (t.pos + 1) = [] := drop_eq_nil_iff_pos.mpr hshort
        have hnone : parseString (buf.drop t.pos) = none := by
          rw [hdrop, not_not.mp hback, hnil, parseString_backslash]
        exact ⟨fun herr => (by cases herr), fun _ => hnone⟩
      rw [if_neg hshort] at h
      have hdrop₁ := drop_of_lt (not_le.mp hshort)
      rw [hadv] at hdrop₁
      have hadv₁ := drop_advance (hadv.trans hdrop₁)
      rw [not_not.mp hback, hdrop₁] at hdrop
      by_cases hunit : (t.advance 1).byte buf = 117
      · rw [if_pos hunit] at h
        rw [hunit] at hdrop
        by_cases hfour : buf.length - ((t.advance 1).advance 1).pos < 4
        · rw [if_pos hfour] at h
          refine hfail rfl h ?_
          rw [hdrop, parseString_unit_short]
          rw [List.length_drop]
          exact hfour
        · rw [if_neg hfour] at h
          have hlen : 4 ≤ (buf.drop ((t.advance 1).advance 1).pos).length := by
            rw [List.length_drop]
            omega
          obtain ⟨a, b, c, d, rest, hrest⟩ : ∃ a b c d rest,
              buf.drop ((t.advance 1).advance 1).pos = a :: b :: c :: d :: rest := by
            rcases hcase : buf.drop ((t.advance 1).advance 1).pos with
              _ | ⟨a, _ | ⟨b, _ | ⟨c, _ | ⟨d, rest⟩⟩⟩⟩
            · rw [hcase] at hlen
              exact absurd hlen (by decide)
            · rw [hcase] at hlen
              exact absurd hlen (by simp)
            · rw [hcase] at hlen
              exact absurd hlen (by simp)
            · rw [hcase] at hlen
              exact absurd hlen (by simp)
            · exact ⟨a, b, c, d, rest, rfl⟩
          obtain ⟨hsome, hnone⟩ := hexLoop_four hrest
          rw [hadv₁] at hrest
          rw [hrest] at hdrop
          cases hcp : hex4 a b c d with
          | none =>
              refine hfail ?_ h ?_
              · exact hnone hcp
              · rw [hdrop, parseString_unit, hcp, Option.bind_none]
          | some cp =>
              rw [hsome cp hcp] at h
              refine hgo h ht (drop_advance (drop_advance (drop_advance (drop_advance
                (hadv₁.trans hrest))))) ?_
              rw [hdrop, parseString_unit, hcp, Option.bind_some]
      · rw [if_neg hunit] at h
        cases hsimple : simpleEscape ((t.advance 1).byte buf) with
        | none =>
            rw [hsimple] at h
            refine hfail rfl h ?_
            rw [hdrop, parseString_escape hunit, hsimple, Option.bind_none]
        | some b =>
            rw [hsimple] at h
            refine hgo h ht hadv₁ ?_
            rw [hdrop, parseString_escape hunit, hsimple, Option.bind_some]

/-- `parse_string` at a quote. -/
theorem parseStringAt_follows {out : Bytes} (h : parseStringAt buf arena s = some (out, s')) :
    CursorFollows buf arena s s' (some out) (parseString (buf.drop (s.pos + 1))) := by
  rw [parseStringAt, JsonP.alloc] at h
  dsimp only at h
  cases harena : arena (s.advance 1).allocs with
  | false =>
      rw [harena] at h
      obtain ⟨-, rfl⟩ := Prod.mk.inj (Option.some.inj h)
      refine ⟨fun _ => rfl, rfl, fun herr => (by cases herr), fun hall _ _ => ?_⟩
      rw [hall] at harena
      cases harena
  | true =>
      rw [harena, if_neg (by decide)] at h
      obtain ⟨⟨text, u⟩, hloop, heq⟩ := Option.map_eq_some_iff.mp h
      obtain ⟨herr, hdepth⟩ := stringLoop_err hloop
      have hfollows := stringLoop_follows hloop
      dsimp only at heq
      split at heq
      next hquote =>
        obtain ⟨rfl, rfl⟩ := Prod.mk.inj heq
        refine ⟨herr, hdepth, fun hu => ?_, fun _ hs hu => (hfollows hs).2 (.inl hu)⟩
        have hs : s.err = false := by
          cases hcase : s.err with
          | false => rfl
          | true =>
              have htrue : u.err = true := herr hcase
              rw [show u.err = false from hu] at htrue
              cases htrue
        obtain ⟨tail, hout, htail⟩ := (hfollows hs).1 hu hquote
        exact ⟨text, rfl, by rw [hout]; exact htail⟩
      next hquote =>
        obtain ⟨rfl, rfl⟩ := Prod.mk.inj heq
        exact ⟨fun _ => rfl, hdepth, fun hu => (by cases hu), fun _ hs _ =>
          (hfollows hs).2 (.inr hquote)⟩

-- ============================================================================
-- Elements
-- ============================================================================

/-- What is asked of the code that reads an element, at depth `d`. -/
def ElemFollows (buf : Bytes) (arena : Nat → Bool) (d : Nat)
    (elem : JsonP → Option (Option α × JsonP)) (p : Bytes → Option (α × Bytes)) : Prop :=
  ∀ u x u', u.depth = d → elem u = some (x, u') →
    CursorFollows buf arena u u' x (p (buf.drop u.pos))

theorem CursorFollows.err_false {v : Option α} {r : Option (α × Bytes)}
    (h : CursorFollows buf arena s s' v r) (hs' : s'.err = false) : s.err = false := by
  cases hs : s.err with
  | false => rfl
  | true =>
      rw [h.err hs] at hs'
      cases hs'

variable {d : Nat} {elem : JsonP → Option (Option α × JsonP)} {p : Bytes → Option (α × Bytes)}

/-- What the loop keeps of an element. -/
def keptElem (n : Nat) (x : α) : List α := if n < ntcJsonMaxMembers then [x] else []

theorem parseElems_comma {close : UInt8} {fuel n : Nat} {s s₁ rest : Bytes} {x : α}
    (hp : p s = some (x, s₁)) (hws : skipWs s₁ = chComma :: rest) :
    parseElems p close (fuel + 1) n s =
      (parseElems p close fuel (n + (keptElem n x).length) rest).map fun r =>
        (keptElem n x ++ r.1, r.2) := by
  rw [parseElems, hp]
  dsimp only
  rw [hws]
  exact if_pos rfl

theorem parseElems_close {close : UInt8} (hclose : close ≠ chComma) {fuel n : Nat}
    {s s₁ rest : Bytes} {x : α} (hp : p s = some (x, s₁)) (hws : skipWs s₁ = close :: rest) :
    parseElems p close (fuel + 1) n s = some (keptElem n x, rest) := by
  rw [parseElems, hp]
  dsimp only
  rw [hws]
  dsimp only
  rw [if_neg hclose, if_pos rfl]
  rfl

theorem parseElems_other {close : UInt8} {fuel n : Nat} {s s₁ : Bytes} {x : α}
    (hp : p s = some (x, s₁)) (hcomma : ∀ rest, skipWs s₁ ≠ chComma :: rest)
    (hclose : ∀ rest, skipWs s₁ ≠ close :: rest) :
    parseElems p close (fuel + 1) n s = none := by
  rw [parseElems, hp]
  dsimp only
  cases hcase : skipWs s₁ with
  | nil => rfl
  | cons c rest =>
      dsimp only
      have h₁ : c ≠ chComma := fun hc => hcomma rest (by rw [hcase, hc])
      have h₂ : c ≠ close := fun hc => hclose rest (by rw [hcase, hc])
      rw [if_neg h₁, if_neg h₂]

/-- The loop, with the elements read before it. -/
theorem elemsAt_follows (helem : ElemFollows buf arena d elem p) {close : UInt8}
    (hclose : close ≠ chComma) {n : Nat} :
    ∀ {xs ys : List α} {t t' : JsonP}, t.depth = d → elemsAt buf elem close n xs t = some (ys, t') →
      (t.err = true → t'.err = true) ∧ t'.depth = t.depth ∧
      (t'.err = false → ∃ zs, ys = xs ++ zs ∧
        parseElems p close n xs.length (buf.drop t.pos) = some (zs, buf.drop t'.pos)) ∧
      ((∀ n, arena n = true) → t.err = false → t'.err = true →
        parseElems p close n xs.length (buf.drop t.pos) = none) := by
  induction n with
  | zero => exact fun _ h => (by cases h)
  | succ n ih =>
      intro xs ys t t' hd h
      rw [elemsAt, Option.bind_eq_some_iff] at h
      obtain ⟨⟨x, u⟩, hx, h⟩ := h
      have hu := helem t x u hd hx
      dsimp only at h
      by_cases herr : u.err = true
      · rw [if_pos herr] at h
        obtain ⟨rfl, rfl⟩ := Prod.mk.inj (Option.some.inj h)
        refine ⟨fun _ => herr, hu.depth, fun hno => ?_, fun hall ht _ => ?_⟩
        · rw [herr] at hno
          cases hno
        · rw [parseElems, hu.complete hall ht herr]
      rw [if_neg herr] at h
      have hu' : u.err = false := Bool.eq_false_iff.mpr herr
      have ht : t.err = false := hu.err_false hu'
      obtain ⟨y, rfl, hp⟩ := hu.sound hu'
      have hnot : t.err = true → t'.err = true := by
        rw [ht]
        exact fun hno => (by cases hno)
      have hdepth : (skipWsAt buf u).depth = d := hu.depth.trans hd
      have hws : (skipWsAt buf u).err = false := hu'
      have hkept : (if xs.length < ntcJsonMaxMembers then xs ++ (some y).toList else xs) =
          xs ++ keptElem xs.length y := by
        rw [keptElem]
        split
        · rfl
        · exact (List.append_nil xs).symm
      rw [hkept] at h
      have hskip : skipWs (buf.drop u.pos) = buf.drop (skipWsAt buf u).pos := drop_skipWsAt.symm
      by_cases hcomma : (skipWsAt buf u).sees buf chComma = true
      · rw [if_pos hcomma] at h
        have hparse := @parseElems_comma α p close n xs.length _ _ _ _ hp
          (hskip.trans (drop_of_sees hcomma))
        obtain ⟨-, hdepth', hsound, hcomplete⟩ := ih (t := (skipWsAt buf u).advance 1) hdepth h
        rw [List.length_append] at hsound hcomplete
        refine ⟨hnot, hdepth'.trans hu.depth, fun herr' => ?_, fun hall _ herr' => ?_⟩
        · obtain ⟨zs, rfl, hzs⟩ := hsound herr'
          refine ⟨keptElem xs.length y ++ zs, List.append_assoc _ _ _, ?_⟩
          rw [hparse]
          exact congrArg (Option.map _) hzs
        · rw [hparse]
          exact congrArg (Option.map _) (hcomplete hall hws herr')
      rw [if_neg hcomma] at h
      by_cases hclosed : (skipWsAt buf u).sees buf close = true
      · rw [if_pos hclosed] at h
        obtain ⟨rfl, rfl⟩ := Prod.mk.inj (Option.some.inj h)
        have hparse := @parseElems_close α p close hclose n xs.length _ _ _ _ hp
          (hskip.trans (drop_of_sees hclosed))
        refine ⟨hnot, hu.depth, fun _ => ⟨_, rfl, hparse⟩, fun _ _ herr' => ?_⟩
        rw [show ((skipWsAt buf u).advance 1).err = false from hws] at herr'
        cases herr'
      · rw [if_neg hclosed] at h
        obtain ⟨rfl, rfl⟩ := Prod.mk.inj (Option.some.inj h)
        refine ⟨fun _ => rfl, hu.depth, fun herr' => (by cases herr'), fun _ _ _ => ?_⟩
        apply parseElems_other hp
        · rw [hskip]
          exact drop_of_not_sees hcomma
        · rw [hskip]
          exact drop_of_not_sees hclosed

/-- What is between the brackets. -/
theorem listAt_follows (helem : ElemFollows buf arena d elem p) (hnil : p [] = none)
    {close : UInt8} (hclose : close ≠ chComma) {xs : List α} (hd : t.depth = d)
    (h : listAt buf elem close t = some (xs, t')) :
    CursorFollows buf arena t t' (some xs) (parseList p close (buf.drop t.pos)) := by
  rw [listAt] at h
  have hskip : skipWs (buf.drop t.pos) = buf.drop (skipWsAt buf t).pos := drop_skipWsAt.symm
  by_cases hclosed : (skipWsAt buf t).sees buf close = true
  · rw [if_pos hclosed] at h
    obtain ⟨rfl, rfl⟩ := Prod.mk.inj (Option.some.inj h)
    have hparse : parseList p close (buf.drop t.pos) =
        some ([], buf.drop ((skipWsAt buf t).advance 1).pos) := by
      rw [parseList, hskip, drop_of_sees hclosed]
      exact if_pos rfl
    refine ⟨id, rfl, fun _ => ⟨[], rfl, hparse⟩, fun _ hs hs' => ?_⟩
    rw [show ((skipWsAt buf t).advance 1).err = t.err from rfl, hs] at hs'
    cases hs'
  rw [if_neg hclosed] at h
  obtain ⟨herr, hdepth, hsound, hcomplete⟩ :=
    elemsAt_follows helem hclose (t := skipWsAt buf t) hd h
  by_cases hend : buf.length ≤ (skipWsAt buf t).pos
  · -- nothing is left: both fail
    have hdrop := drop_eq_nil_iff_pos.mpr hend
    have hparse : parseList p close (buf.drop t.pos) = none := by
      rw [parseList, hskip, hdrop]
    refine ⟨herr, hdepth, fun herr' => ?_, fun _ _ _ => hparse⟩
    obtain ⟨zs, -, hzs⟩ := hsound herr'
    rw [hdrop, parseElems, hnil] at hzs
    cases hzs
  · have hlt := not_le.mp hend
    have hparse : parseList p close (buf.drop t.pos) =
        parseElems p close (buf.length - (skipWsAt buf t).pos + 1) 0
          (buf.drop (skipWsAt buf t).pos) := by
      have hne : (skipWsAt buf t).byte buf ≠ close := fun hbyte =>
        drop_of_not_sees hclosed (buf.drop ((skipWsAt buf t).pos + 1)) (by
          rw [drop_of_lt hlt, hbyte])
      have hlen : (buf.drop (skipWsAt buf t).pos).length = buf.length - (skipWsAt buf t).pos :=
        List.length_drop
      rw [parseList, hskip]
      rw [drop_of_lt hlt] at hlen ⊢
      dsimp only
      rw [if_neg hne, hlen]
    rw [hparse]
    refine ⟨herr, hdepth, fun herr' => ?_, fun hall hs herr' => hcomplete hall hs herr'⟩
    obtain ⟨zs, hxs, hzs⟩ := hsound herr'
    exact ⟨xs, rfl, by rw [hxs]; exact hzs⟩

theorem parseMember_whole {s s₀ s₁ s₂ k : Bytes} (hquote : skipWs s = chQuote :: s₀)
    (hkey : parseString s₀ = some (k, s₁)) (hcolon : skipWs s₁ = chColon :: s₂) :
    parseMember p s = (p s₂).map fun r => ((k, r.1), r.2) := by
  rw [parseMember, hquote]
  dsimp only
  rw [if_neg (not_not.mpr rfl), hkey, Option.bind_some]
  dsimp only
  rw [hcolon]
  exact if_pos rfl

theorem parseMember_noKey {s s₀ : Bytes} (hquote : skipWs s = chQuote :: s₀)
    (hkey : parseString s₀ = none) : parseMember p s = none := by
  rw [parseMember, hquote]
  dsimp only
  rw [if_neg (not_not.mpr rfl), hkey, Option.bind_none]

theorem parseMember_noColon {s s₀ s₁ k : Bytes} (hquote : skipWs s = chQuote :: s₀)
    (hkey : parseString s₀ = some (k, s₁)) (hcolon : ∀ rest, skipWs s₁ ≠ chColon :: rest) :
    parseMember p s = none := by
  rw [parseMember, hquote]
  dsimp only
  rw [if_neg (not_not.mpr rfl), hkey, Option.bind_some]
  dsimp only
  cases hcase : skipWs s₁ with
  | nil => rfl
  | cons c rest =>
      dsimp only
      exact if_neg fun hc => hcolon rest (by rw [hcase, hc])

/-- A member of an object. -/
theorem memberAt_follows (helem : ElemFollows buf arena d elem p) :
    ElemFollows buf arena d (memberAt buf arena elem) (parseMember p) := by
  intro u x u' hd h
  rw [memberAt] at h
  dsimp only at h
  have hskip : skipWs (buf.drop u.pos) = buf.drop (skipWsAt buf u).pos := drop_skipWsAt.symm
  by_cases hquote : (skipWsAt buf u).sees buf chQuote = true
  · rw [hquote, if_neg (by decide), Option.bind_eq_some_iff] at h
    obtain ⟨⟨k, t⟩, hkey, h⟩ := h
    have hfollows := parseStringAt_follows hkey
    have hskip' : skipWs (buf.drop t.pos) = buf.drop (skipWsAt buf t).pos := drop_skipWsAt.symm
    have hstart : skipWs (buf.drop u.pos) = chQuote :: buf.drop ((skipWsAt buf u).pos + 1) :=
      hskip.trans (drop_of_sees hquote)
    have hdepth : (skipWsAt buf t).depth = u.depth := hfollows.depth
    dsimp only at h
    by_cases hcolon : (skipWsAt buf t).sees buf chColon = true
    · rw [hcolon, if_neg (by decide), Option.map_eq_some_iff] at h
      obtain ⟨⟨v, t'⟩, hvalue, heq⟩ := h
      obtain ⟨rfl, rfl⟩ := Prod.mk.inj heq
      have hv := helem ((skipWsAt buf t).advance 1) v t' (hdepth.trans hd) hvalue
      have hcolon' : skipWs (buf.drop t.pos) = chColon :: buf.drop ((skipWsAt buf t).pos + 1) :=
        hskip'.trans (drop_of_sees hcolon)
      refine ⟨fun herr => hv.err (hfollows.err herr), hv.depth.trans hdepth, fun herr => ?_,
        fun hall hs herr => ?_⟩
      · have ht : t.err = false := hv.err_false herr
        obtain ⟨_, hk, hstr⟩ := hfollows.sound ht
        obtain rfl := Option.some.inj hk
        obtain ⟨y, rfl, hy⟩ := hv.sound herr
        refine ⟨(k, y), rfl, ?_⟩
        rw [parseMember_whole hstart hstr hcolon']
        exact congrArg (Option.map _) hy
      · cases ht : t.err with
        | true => exact parseMember_noKey hstart (hfollows.complete hall hs ht)
        | false =>
            obtain ⟨_, hk, hstr⟩ := hfollows.sound ht
            obtain rfl := Option.some.inj hk
            rw [parseMember_whole hstart hstr hcolon']
            exact congrArg (Option.map _) (hv.complete hall ht herr)
    · rw [Bool.not_eq_true] at hcolon
      rw [hcolon, if_pos (by decide)] at h
      obtain ⟨rfl, rfl⟩ := Prod.mk.inj (Option.some.inj h)
      refine ⟨fun _ => rfl, hdepth, fun herr => (by cases herr), fun hall hs _ => ?_⟩
      cases ht : t.err with
      | true => exact parseMember_noKey hstart (hfollows.complete hall hs ht)
      | false =>
          obtain ⟨_, hk, hstr⟩ := hfollows.sound ht
          obtain rfl := Option.some.inj hk
          apply parseMember_noColon hstart hstr
          rw [hskip']
          exact drop_of_not_sees (by rw [hcolon]; decide)
  · rw [Bool.not_eq_true] at hquote
    rw [hquote, if_pos (by decide)] at h
    obtain ⟨rfl, rfl⟩ := Prod.mk.inj (Option.some.inj h)
    have hnone : parseMember p (buf.drop u.pos) = none := by
      rw [parseMember, hskip]
      cases hcase : buf.drop (skipWsAt buf u).pos with
      | nil => rfl
      | cons c rest =>
          refine if_pos fun hc => ?_
          rw [hc] at hcase
          exact drop_of_not_sees (by rw [hquote]; decide) rest hcase
    rw [hnone]
    exact .failed rfl

-- ============================================================================
-- Values
-- ============================================================================

theorem arraysAt_err (k : Nat) (s : JsonP) :
    (s.err = true → (arraysAt arena k s).err = true) ∧
      ((∀ n, arena n = true) → (arraysAt arena k s).err = s.err) := by
  rw [arraysAt]
  constructor
  · intro h
    split
    · exact h
    · rfl
  · intro hall
    have hok : ((List.range k).all fun i => arena (s.allocs + i)) = true :=
      List.all_eq_true.mpr fun i _ => hall _
    rw [hok]
    rfl

theorem arraysAt_pos (k : Nat) (s : JsonP) :
    (arraysAt arena k s).pos = s.pos ∧ (arraysAt arena k s).depth = s.depth := by
  rw [arraysAt]
  split
  · exact ⟨rfl, rfl⟩
  · exact ⟨rfl, rfl⟩

/-- An object or an array: what is between the brackets, made into a value. -/
theorem container_follows {β : Type} {r : Option (List β × Bytes)} {xs : List β} {k : Nat}
    (make : List β → NtcJson) {v : Option NtcJson}
    (hlist : CursorFollows buf arena (newVal arena s).2 t (some xs) r)
    (h : (if (newVal arena s).1 && !t.err then (some (make xs), arraysAt arena k t)
      else (none, t)) = (v, t')) :
    CursorFollows buf arena s t' v (r.map fun r => (make r.1, r.2)) := by
  have hdepth : t.depth = s.depth := hlist.depth.trans (newVal_depth s)
  have hstart : (newVal arena s).2.err = (s.err || !(newVal arena s).1) := newVal_err s
  split at h
  next hok =>
    obtain ⟨rfl, rfl⟩ := Prod.mk.inj h
    obtain ⟨hnew, ht⟩ := Bool.and_eq_true_iff.mp hok
    rw [Bool.not_eq_true'] at ht
    obtain ⟨hpos, hdepth'⟩ := @arraysAt_pos arena k t
    refine ⟨fun hs => ?_, hdepth'.trans hdepth, fun _ => ?_, fun hall _ herr => ?_⟩
    · rw [hs, Bool.true_or] at hstart
      rw [hlist.err hstart] at ht
      cases ht
    · obtain ⟨ys, hys, hr⟩ := hlist.sound ht
      obtain rfl := Option.some.inj hys
      exact ⟨make xs, rfl, by rw [hr, hpos]; rfl⟩
    · rw [(arraysAt_err k t).2 hall, ht] at herr
      cases herr
  next hok =>
    obtain ⟨rfl, rfl⟩ := Prod.mk.inj h
    -- no value: the arena has failed, or the list
    have herr : t.err = true := by
      cases hnew : (newVal arena s).1 with
      | false =>
          rw [hnew, Bool.not_false, Bool.or_true] at hstart
          exact hlist.err hstart
      | true =>
          rw [hnew, Bool.true_and, Bool.not_eq_true', Bool.not_eq_false] at hok
          exact hok
    refine ⟨fun _ => herr, hdepth, fun hno => ?_, fun hall hs _ => ?_⟩
    · rw [herr] at hno
      cases hno
    · rw [newVal_ok hall, hs] at hstart
      rw [hlist.complete hall hstart herr, Option.map_none]

/-- The same, with the call that reads the list. -/
theorem containerAt_follows {β : Type} {elem : JsonP → Option (Option β × JsonP)}
    {q : Bytes → Option (β × Bytes)} (helem : ElemFollows buf arena d elem q) (hnil : q [] = none)
    {close : UInt8} (hclose : close ≠ chComma) (make : List β → NtcJson) (k : Nat)
    (hd : s.depth = d) {v : Option NtcJson}
    (h : ((listAt buf elem close (newVal arena s).2).map fun r =>
      if (newVal arena s).1 && !r.2.err then (some (make r.1), arraysAt arena k r.2)
      else (none, r.2)) = some (v, s')) :
    CursorFollows buf arena s s' v
      ((parseList q close (buf.drop s.pos)).map fun r => (make r.1, r.2)) := by
  obtain ⟨⟨xs, t⟩, hlist, heq⟩ := Option.map_eq_some_iff.mp h
  have hfollows := listAt_follows helem hnil hclose ((newVal_depth s).trans hd) hlist
  rw [newVal_pos] at hfollows
  exact container_follows make hfollows heq

/-- A value without parts: allocated behind what was read. -/
theorem leaf_follows {x : NtcJson} {r : Option (NtcJson × Bytes)}
    (hr : r = some (x, buf.drop t.pos)) (herr : t.err = s.err) (hdepth : t.depth = s.depth)
    {v : Option NtcJson}
    (h : (if (newVal arena t).1 then some x else none, (newVal arena t).2) = (v, t')) :
    CursorFollows buf arena s t' v r := by
  obtain ⟨rfl, rfl⟩ := Prod.mk.inj h
  have hstart : (newVal arena t).2.err = (t.err || !(newVal arena t).1) := newVal_err t
  refine ⟨fun hs => ?_, (newVal_depth t).trans hdepth, fun hno => ?_, fun hall hs hyes => ?_⟩
  · rw [hstart, herr, hs, Bool.true_or]
  · rw [hno] at hstart
    cases hnew : (newVal arena t).1 with
    | false =>
        rw [hnew, Bool.not_false, Bool.or_true] at hstart
        cases hstart
    | true => exact ⟨x, rfl, by rw [hr, newVal_pos]⟩
  · rw [hyes, newVal_ok hall, herr, hs] at hstart
    cases hstart

theorem literalAt_follows (word : Bytes) (x : NtcJson) {v : Option NtcJson}
    (h : literalAt buf arena word x s = (v, s')) :
    CursorFollows buf arena s s' v (parseLiteral word x (buf.drop s.pos)) := by
  rw [literalAt] at h
  rw [parseLiteral]
  by_cases hword : word.isPrefixOf (buf.drop s.pos) = true
  · have hprefix := List.isPrefixOf_iff_prefix.mp hword
    have htake : (buf.drop s.pos).take word.length = word :=
      (List.prefix_iff_eq_take.mp hprefix).symm
    have hlen := hprefix.length_le
    rw [List.length_drop] at hlen
    rw [if_pos ⟨hlen, htake⟩] at h
    rw [if_pos hword]
    refine leaf_follows (s := s) (t := s.advance word.length) ?_ rfl rfl h
    show some (x, (buf.drop s.pos).drop word.length) = some (x, buf.drop (s.pos + word.length))
    rw [List.drop_drop]
  · rw [if_neg fun hboth => hword (List.isPrefixOf_iff_prefix.mpr
      (List.prefix_iff_eq_take.mpr hboth.2.symm))] at h
    obtain ⟨rfl, rfl⟩ := Prod.mk.inj h
    rw [if_neg hword]
    exact .failed rfl

theorem numberAt_follows {v : Option NtcJson} (h : numberAt buf arena s = (v, s')) :
    CursorFollows buf arena s s' v (some (.num (((buf.drop s.pos).takeWhile isNumChar).take 63),
      (buf.drop s.pos).dropWhile isNumChar)) := by
  rw [numberAt] at h
  refine leaf_follows (s := s)
    (t := s.advance ((buf.drop s.pos).takeWhile isNumChar).length) ?_ rfl rfl h
  show _ = some (_, buf.drop (s.pos + ((buf.drop s.pos).takeWhile isNumChar).length))
  rw [← List.drop_drop, drop_length_takeWhile]

theorem parseValue_nil (n : Nat) : parseValue n [] = none := by
  cases n with
  | zero => rfl
  | succ n => rfl

theorem parseMember_nil : parseMember p [] = none := rfl

/-- `parse_value` of the list parser, by the first character. -/
def parseDispatch (value : Bytes → Option (NtcJson × Bytes)) (c : UInt8) (rest : Bytes) :
    Option (NtcJson × Bytes) :=
  if c = 123 then
    (parseList (parseMember value) 125 rest).map fun r =>
      (.obj (r.1.map Prod.fst) (r.1.map Prod.snd), r.2)
  else if c = 91 then (parseList value 93 rest).map fun r => (.arr r.1, r.2)
  else if c = chQuote then (parseString rest).map fun r => (.str r.1, r.2)
  else if c = 116 then parseLiteral (lit "true") (.bool true) (c :: rest)
  else if c = 102 then parseLiteral (lit "false") (.bool false) (c :: rest)
  else if c = 110 then parseLiteral (lit "null") .null (c :: rest)
  else if c = 45 ∨ (48 ≤ c ∧ c ≤ 57) then
    some (.num (((c :: rest).takeWhile isNumChar).take 63), (c :: rest).dropWhile isNumChar)
  else none

theorem parseValue_succ {n : Nat} {s rest : Bytes} {c : UInt8} (h : skipWs s = c :: rest) :
    parseValue (n + 1) s = parseDispatch (parseValue n) c rest := by
  rw [parseValue, h]
  rfl

/-- A string as a value. -/
theorem stringValue_follows {rest : Bytes} (hrest : buf.drop (s.advance 1).pos = rest)
    {v : Option NtcJson}
    (h : (if (newVal arena s).1 then
        (parseStringAt buf arena (newVal arena s).2).map fun r => (some (.str r.1), r.2)
      else some (none, (newVal arena s).2)) = some (v, s')) :
    CursorFollows buf arena s s' v ((parseString rest).map fun r => (.str r.1, r.2)) := by
  have hstart : (newVal arena s).2.err = (s.err || !(newVal arena s).1) := newVal_err s
  cases hnew : (newVal arena s).1 with
  | false =>
      rw [hnew, if_neg (by decide)] at h
      obtain ⟨rfl, rfl⟩ := Prod.mk.inj (Option.some.inj h)
      rw [hnew, Bool.not_false, Bool.or_true] at hstart
      refine ⟨fun _ => hstart, newVal_depth s, fun hno => ?_, fun hall _ _ => ?_⟩
      · rw [hstart] at hno
        cases hno
      · rw [newVal_ok hall] at hnew
        cases hnew
  | true =>
      rw [hnew, if_pos rfl] at h
      obtain ⟨⟨out, t⟩, hstring, heq⟩ := Option.map_eq_some_iff.mp h
      obtain ⟨rfl, rfl⟩ := Prod.mk.inj heq
      rw [hnew, Bool.not_true, Bool.or_false] at hstart
      have hfollows := parseStringAt_follows hstring
      rw [newVal_pos, show buf.drop (s.pos + 1) = rest from hrest] at hfollows
      refine ⟨fun hs => hfollows.err (hstart.trans hs), hfollows.depth.trans (newVal_depth s),
        fun herr => ?_, fun hall hs herr => ?_⟩
      · obtain ⟨x, hx, hr⟩ := hfollows.sound herr
        obtain rfl := Option.some.inj hx
        exact ⟨.str out, rfl, by rw [hr]; rfl⟩
      · rw [hfollows.complete hall (hstart.trans hs) herr, Option.map_none]

theorem dispatchAt_follows {value : JsonP → Option (Option NtcJson × JsonP)}
    {q : Bytes → Option (NtcJson × Bytes)} (hvalue : ElemFollows buf arena d value q)
    (hnil : q [] = none) {c : UInt8} {rest : Bytes} (hdrop : buf.drop s.pos = c :: rest)
    (hd : s.depth = d) {v : Option NtcJson} (h : dispatchAt buf arena value s = some (v, s')) :
    CursorFollows buf arena s s' v (parseDispatch q c rest) := by
  have hrest : buf.drop (s.advance 1).pos = rest := drop_advance hdrop
  rw [dispatchAt, byte_of_drop hdrop] at h
  dsimp only at h
  rw [parseDispatch]
  split at h
  next hc =>
    rw [if_pos hc]
    have hfollows := containerAt_follows (s := s.advance 1) (memberAt_follows hvalue)
      parseMember_nil (by decide) (fun ms => .obj (ms.map Prod.fst) (ms.map Prod.snd)) 2 hd h
    rw [hrest] at hfollows
    exact hfollows.of_advance
  next hc =>
  rw [if_neg hc]
  split at h
  next hc =>
    rw [if_pos hc]
    have hfollows := containerAt_follows (s := s.advance 1) hvalue hnil (by decide) .arr 1 hd h
    rw [hrest] at hfollows
    exact hfollows.of_advance
  next hc =>
  rw [if_neg hc]
  split at h
  next hc =>
    rw [if_pos hc]
    exact stringValue_follows hrest h
  next hc =>
  rw [if_neg hc]
  split at h
  next hc =>
    rw [if_pos hc, ← hdrop]
    exact literalAt_follows _ _ (Option.some.inj h)
  next hc =>
  rw [if_neg hc]
  split at h
  next hc =>
    rw [if_pos hc, ← hdrop]
    exact literalAt_follows _ _ (Option.some.inj h)
  next hc =>
  rw [if_neg hc]
  split at h
  next hc =>
    rw [if_pos hc, ← hdrop]
    exact literalAt_follows _ _ (Option.some.inj h)
  next hc =>
  rw [if_neg hc]
  split at h
  next hc =>
    rw [if_pos hc, ← hdrop]
    exact numberAt_follows (Option.some.inj h)
  next hc =>
    rw [if_neg hc]
    obtain ⟨rfl, rfl⟩ := Prod.mk.inj (Option.some.inj h)
    exact .failed rfl

/-- The body of `parse_value`, one level further down. -/
theorem valueBody_follows {value : JsonP → Option (Option NtcJson × JsonP)} {n : Nat}
    (hn : d + (n + 1) = ntcJsonMaxDepth)
    (hvalue : ElemFollows buf arena (d + 1) value (parseValue n)) :
    ElemFollows buf arena d (valueBody buf arena value) (parseValue (n + 1)) := by
  intro u v u' hd h
  rw [valueBody] at h
  by_cases herr : u.err = true
  · rw [if_pos herr] at h
    obtain ⟨rfl, rfl⟩ := Prod.mk.inj (Option.some.inj h)
    refine ⟨id, rfl, fun hno => ?_, fun _ hno => ?_⟩
    · rw [herr] at hno
      cases hno
    · rw [herr] at hno
      cases hno
  rw [if_neg herr] at h
  dsimp only at h
  have hdepth : u.enter.depth = d + 1 := congrArg (· + 1) hd
  rw [if_neg (by rw [hdepth]; omega)] at h
  have hskip : skipWs (buf.drop u.pos) = buf.drop (skipWsAt buf u.enter).pos :=
    (drop_skipWsAt (s := u.enter)).symm
  by_cases hend : buf.length ≤ (skipWsAt buf u.enter).pos
  · rw [if_pos hend] at h
    obtain ⟨rfl, rfl⟩ := Prod.mk.inj (Option.some.inj h)
    have hparse : parseValue (n + 1) (buf.drop u.pos) = none := by
      rw [parseValue, hskip, drop_eq_nil_iff_pos.mpr hend]
    rw [hparse]
    exact .failed (t := (skipWsAt buf u.enter).leave) rfl
  rw [if_neg hend] at h
  obtain ⟨⟨w, t⟩, hdispatch, heq⟩ := Option.map_eq_some_iff.mp h
  obtain ⟨rfl, rfl⟩ := Prod.mk.inj heq
  have hdrop := drop_of_lt (not_le.mp hend)
  have hfollows := dispatchAt_follows hvalue (parseValue_nil n) hdrop hdepth hdispatch
  rw [parseValue_succ (hskip.trans hdrop)]
  refine ⟨hfollows.err, ?_, fun hno => ?_, hfollows.complete⟩
  · show t.depth - 1 = u.depth
    rw [hfollows.depth, show (skipWsAt buf u.enter).depth = u.depth + 1 from rfl,
      Nat.add_sub_cancel]
  · obtain ⟨x, rfl, hr⟩ := hfollows.sound hno
    exact ⟨x, by rw [if_neg (by rw [hno]; decide)], hr⟩

/-- At the last level the code has no room, and the list parser no level. -/
theorem valueBody_full (value : JsonP → Option (Option NtcJson × JsonP)) :
    ElemFollows buf arena ntcJsonMaxDepth (valueBody buf arena value) (parseValue 0) := by
  intro u v u' hd h
  rw [valueBody] at h
  by_cases herr : u.err = true
  · rw [if_pos herr] at h
    obtain ⟨rfl, rfl⟩ := Prod.mk.inj (Option.some.inj h)
    refine ⟨id, rfl, fun hno => ?_, fun _ _ _ => rfl⟩
    rw [herr] at hno
    cases hno
  rw [if_neg herr] at h
  dsimp only at h
  have hdepth : u.enter.depth = ntcJsonMaxDepth + 1 := congrArg (· + 1) hd
  rw [if_pos (by rw [hdepth]; exact Nat.lt_succ_self _)] at h
  obtain ⟨rfl, rfl⟩ := Prod.mk.inj (Option.some.inj h)
  exact .failed (t := u.enter.leave) rfl

/-- `parse_value` with `k` levels of room, at the depth at which the list
    parser has `n` levels left. -/
theorem parseValueAt_follows {n : Nat} : ∀ {d k : Nat}, d + n = ntcJsonMaxDepth →
    ElemFollows buf arena d (parseValueAt buf arena k) (parseValue n) := by
  induction n with
  | zero =>
      intro d k hd u v u' hu h
      cases k with
      | zero => cases h
      | succ k =>
          obtain ⟨⟨w, t⟩, hbody, heq⟩ := Option.map_eq_some_iff.mp h
          obtain ⟨rfl, rfl⟩ := Prod.mk.inj heq
          rw [Nat.add_zero] at hd
          have hfollows := valueBody_full (parseValueAt buf arena k) u w t (hu.trans hd) hbody
          exact ⟨hfollows.err, hfollows.depth, hfollows.sound, hfollows.complete⟩
  | succ n ih =>
      intro d k hd u v u' hu h
      cases k with
      | zero => cases h
      | succ k =>
          obtain ⟨⟨w, t⟩, hbody, heq⟩ := Option.map_eq_some_iff.mp h
          obtain ⟨rfl, rfl⟩ := Prod.mk.inj heq
          have hvalue : ElemFollows buf arena (d + 1) (parseValueAt buf arena k) (parseValue n) :=
            ih (by omega)
          have hfollows := valueBody_follows hd hvalue u w t hu hbody
          exact ⟨hfollows.err, hfollows.depth, hfollows.sound, hfollows.complete⟩

/-- The parser on lists is what `ntc_json_parse` computes: of any text, whatever
    the arena does, the code comes to an end; a value it returns is that of the
    list parser, and while the arena has room it returns what the list parser
    does. -/
theorem ntcJsonParseAt_refines (buf : Bytes) (arena : Nat → Bool) :
    ∃ v s, ntcJsonParseAt buf arena (ntcJsonMaxDepth + 1) = some (v, s) ∧
      (∀ x, v = some x → ntcJsonParse buf = some x) ∧
      ((∀ n, arena n = true) → v = ntcJsonParse buf) := by
  have hsafe : JsonTrace.Safe {} buf.length 0 :=
    ⟨⟨Nat.zero_le _, fun q hq => absurd hq List.not_mem_nil, .nil⟩,
      fun e he => absurd he List.not_mem_nil, fun r hr => absurd hr List.not_mem_nil,
      fun w hw => absurd hw List.not_mem_nil⟩
  obtain ⟨v, s, hres, -⟩ := @parseValueAt_spec buf arena _ _
    (Nat.zero_le ntcJsonMaxDepth) le_rfl {} hsafe rfl
  have hfollows : CursorFollows buf arena {} s v (parseValue ntcJsonMaxDepth buf) :=
    parseValueAt_follows (Nat.zero_add ntcJsonMaxDepth) {} v s rfl hres
  have hok : s.err = false → v = ntcJsonParse buf := by
    intro herr
    obtain ⟨x, rfl, hx⟩ := hfollows.sound herr
    rw [ntcJsonParse, hx, Option.map_some]
  refine ⟨if s.err then none else v, s, by rw [ntcJsonParseAt, hres, Option.map_some], ?_, ?_⟩
  · intro x hx
    cases herr : s.err with
    | true =>
        rw [herr, if_pos rfl] at hx
        cases hx
    | false =>
        rw [herr, if_neg (by decide)] at hx
        rw [← hok herr, hx]
  · intro hall
    cases herr : s.err with
    | true =>
        rw [if_pos rfl, ntcJsonParse, hfollows.complete hall rfl herr, Option.map_none]
    | false =>
        rw [if_neg (by decide)]
        exact hok herr

end Naitron
