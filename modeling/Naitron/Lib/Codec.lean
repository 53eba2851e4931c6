/-
  Naitron.Lib.Codec

  Self-delimiting codecs.  A parser takes a value off the front of a string
  and returns the rest; `PrefixCodec enc dec Ok` says that `dec` accepts
  exactly the strings that start with `enc a` for some `a` in `Ok`, and that
  it returns that `a`.  Both directions together make `enc` injective on
  `Ok` and its image a prefix code.

  `dec_bind` and `bind_eq_some` run a parser one field at a time, forwards on
  an encoding and backwards from a result.  The other rules build codecs: a
  field of fixed width, a field behind its length, a list behind its count.
-/

import Mathlib.Data.List.Basic
import Mathlib.Tactic

namespace Naitron.Lib

variable {α β γ : Type}

/-- Parsers over strings of `γ`. -/
abbrev Parse (γ : Type) := StateT (List γ) Option

/-- `dec` reads back what `enc` writes for the values in `Ok`, and nothing
    else. -/
structure PrefixCodec (enc : α → List γ) (dec : Parse γ α) (Ok : α → Prop) : Prop where
  dec_enc : ∀ (a : α) (rest : List γ), Ok a → dec (enc a ++ rest) = some (a, rest)
  enc_dec : ∀ {s rest : List γ} {a : α}, dec s = some (a, rest) → Ok a ∧ s = enc a ++ rest

namespace PrefixCodec

variable {e : α → List γ} {d : Parse γ α} {Ok : α → Prop}

/-! ## One field at a time -/

theorem dec_bind (h : PrefixCodec e d Ok) {a : α} (ok : Ok a) (k : α → Parse γ β)
    (rest : List γ) : (d >>= k) (e a ++ rest) = k a rest := by
  show (d (e a ++ rest)).bind (fun x => k x.1 x.2) = k a rest
  rw [h.dec_enc a rest ok, Option.bind_some]

theorem bind_eq_some (h : PrefixCodec e d Ok) {k : α → Parse γ β} {s rest : List γ} {b : β}
    (hd : (d >>= k) s = some (b, rest)) :
    ∃ a s', Ok a ∧ s = e a ++ s' ∧ k a s' = some (b, rest) := by
  obtain ⟨⟨a, s'⟩, ha, hk⟩ := Option.bind_eq_some_iff.mp hd
  obtain ⟨ok, hs⟩ := h.enc_dec ha
  exact ⟨a, s', ok, hs, hk⟩

end PrefixCodec

/-! ## A field of fixed width -/

/-- `n` symbols that stand for a value: `val` inverts `e` on the strings of
    that length. -/
theorem PrefixCodec.fixedWidth {e : α → List γ} {val : List γ → α} {Ok : α → Prop} (n : Nat)
    (hlen : ∀ a, Ok a → (e a).length = n) (hval : ∀ a, Ok a → val (e a) = a)
    (hinv : ∀ s : List γ, s.length = n → Ok (val s) ∧ e (val s) = s) :
    PrefixCodec e (fun s => if s.length < n then none else some (val (s.take n), s.drop n)) Ok where
  dec_enc := by
    intro a rest ok
    have hn := hlen a ok
    rw [if_neg (by rw [List.length_append]; omega), List.take_left' hn, List.drop_left' hn,
      hval a ok]
  enc_dec := by
    intro s rest a h
    split_ifs at h with hlt
    cases h
    obtain ⟨ok, henc⟩ := hinv (s.take n) (by rw [List.length_take]; omega)
    exact ⟨ok, by rw [henc, List.take_append_drop]⟩

/-! ## A field behind its length -/

/-- The first `n` symbols, if there are that many. -/
def readN (n : Nat) : Parse γ (List γ) := fun s =>
  if s.length < n then none else some (s.take n, s.drop n)

theorem readN_append (s rest : List γ) : readN s.length (s ++ rest) = some (s, rest) := by
  rw [readN, if_neg (by simp)]
  simp

theorem readN_eq_some {n : Nat} {s a rest : List γ} (h : readN n s = some (a, rest)) :
    a.length = n ∧ s = a ++ rest := by
  rw [readN] at h
  split_ifs at h with hlt
  cases h
  refine ⟨?_, (List.take_append_drop n s).symm⟩
  rw [List.length_take]
  omega

/-- A string whose length stands in front of it. -/
theorem PrefixCodec.lengthPrefixed {e : Nat → List γ} {d : Parse γ Nat} {Ok : Nat → Prop}
    (h : PrefixCodec e d Ok) :
    PrefixCodec (fun s : List γ => e s.length ++ s) (d >>= readN) (fun s => Ok s.length) where
  dec_enc := by
    intro s rest ok
    rw [List.append_assoc, h.dec_bind ok]
    exact readN_append s rest
  enc_dec := by
    intro s rest a hd
    obtain ⟨n, s', ok, hs, hr⟩ := h.bind_eq_some hd
    obtain ⟨hlen, hs'⟩ := readN_eq_some hr
    rw [hlen]
    refine ⟨ok, ?_⟩
    rw [hs, hs', List.append_assoc]

/-! ## A list behind its count -/

/-- `n` values in a row. -/
def readList (d : Parse γ α) : Nat → Parse γ (List α)
  | 0 => pure []
  | n + 1 => do
      let a ← d
      let as ← readList d n
      return a :: as

/-- A parser that reads one value back reads a row of them back. -/
theorem readList_flatMap {e : α → List γ} {d : Parse γ α} {Ok : α → Prop}
    (h : ∀ (a : α) (rest : List γ), Ok a → d (e a ++ rest) = some (a, rest)) (rest : List γ) :
    ∀ as : List α, (∀ a ∈ as, Ok a) →
      readList d as.length (as.flatMap e ++ rest) = some (as, rest) := by
  intro as
  induction as with
  | nil =>
      intro _
      rfl
  | cons a as ih =>
      intro ok
      have hrest := ih fun b hb => ok b (List.mem_cons_of_mem a hb)
      rw [List.length_cons, List.flatMap_cons, List.append_assoc]
      show (d (e a ++ (as.flatMap e ++ rest))).bind _ = _
      rw [h a _ (ok a List.mem_cons_self), Option.bind_some]
      show (readList d as.length (as.flatMap e ++ rest)).bind _ = _
      rw [hrest]
      rfl

theorem PrefixCodec.enc_readList {e : α → List γ} {d : Parse γ α} {Ok : α → Prop}
    (h : PrefixCodec e d Ok) :
    ∀ {n : Nat} {s rest : List γ} {as : List α}, readList d n s = some (as, rest) →
      as.length = n ∧ (∀ a ∈ as, Ok a) ∧ s = as.flatMap e ++ rest := by
  intro n
  induction n with
  | zero =>
      intro s rest as hd
      cases hd
      exact ⟨rfl, by simp, rfl⟩
  | succ n ih =>
      intro s rest as hd
      obtain ⟨a, s', ok, hs, hd⟩ := h.bind_eq_some hd
      obtain ⟨⟨bs, s''⟩, hbs, hd⟩ := Option.bind_eq_some_iff.mp hd
      cases hd
      obtain ⟨hlen, oks, hs'⟩ := ih hbs
      refine ⟨by rw [List.length_cons, hlen], ?_, ?_⟩
      · intro b hb
        rcases List.mem_cons.mp hb with rfl | hb
        · exact ok
        · exact oks b hb
      · rw [hs, hs', List.flatMap_cons, List.append_assoc]

/-- A count, refused when it is over `limit`, and that many values. -/
def readCounted (limit : Nat) (d : Parse γ Nat) (g : Parse γ α) : Parse γ (List α) := do
  let n ← d
  if limit < n then failure else readList g n

theorem PrefixCodec.counted {e : Nat → List γ} {d : Parse γ Nat} {Ok : Nat → Prop}
    {f : α → List γ} {g : Parse γ α} {Ok' : α → Prop} (limit : Nat) (h : PrefixCodec e d Ok)
    (h' : PrefixCodec f g Ok') (hlimit : ∀ n ≤ limit, Ok n) :
    PrefixCodec (fun as : List α => e as.length ++ as.flatMap f) (readCounted limit d g)
      (fun as => as.length ≤ limit ∧ ∀ a ∈ as, Ok' a) where
  dec_enc := by
    rintro as rest ⟨hle, ok⟩
    rw [List.append_assoc, readCounted, h.dec_bind (hlimit _ hle), if_neg (Nat.not_lt.mpr hle)]
    exact readList_flatMap h'.dec_enc rest as ok
  enc_dec := by
    intro s rest as hd
    obtain ⟨n, s', _, hs, hd⟩ := h.bind_eq_some hd
    split_ifs at hd with hlt
    · cases hd
    obtain ⟨hlen, oks, hs'⟩ := h'.enc_readList hd
    rw [hlen]
    refine ⟨⟨Nat.not_lt.mp hlt, oks⟩, ?_⟩
    rw [hs, hs', List.append_assoc]

end Naitron.Lib
