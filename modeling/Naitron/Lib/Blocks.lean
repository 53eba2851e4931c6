/-
  Naitron.Lib.Blocks

  Lists cut into blocks of one size, and machines that consume them.

  A block machine has a state that a full block updates and a buffer for the
  bytes of a block that is not full yet.  Feeding it a list one element at a
  time, or in pieces copied into the buffer as far as they fit, comes to the
  same: the state has taken all full blocks of the buffer and the list, and
  the buffer holds what is left.
-/

import Mathlib.Tactic

namespace Naitron.Lib

variable {α σ : Type*}

/-! ## Blocks -/

/-- The full blocks of `n` elements at the front of a list. -/
def blocks (n : ℕ) (s : List α) : List (List α) :=
  if 0 < n ∧ n ≤ s.length then s.take n :: blocks n (s.drop n) else []
termination_by s.length
decreasing_by
  rw [List.length_drop]
  omega

/-- What is left behind the full blocks. -/
def blocksRest (n : ℕ) (s : List α) : List α :=
  s.drop (n * (s.length / n))

theorem blocks_of_lt {n : ℕ} {s : List α} (h : s.length < n) : blocks n s = [] := by
  rw [blocks, if_neg (by omega)]

theorem blocksRest_of_lt {n : ℕ} {s : List α} (h : s.length < n) : blocksRest n s = s := by
  rw [blocksRest, Nat.div_eq_of_lt h, Nat.mul_zero, List.drop_zero]

/-- A full block at the front. -/
theorem blocks_append {n : ℕ} (hn : 0 < n) {b : List α} (hb : b.length = n) (s : List α) :
    blocks n (b ++ s) = b :: blocks n s := by
  rw [blocks, if_pos ⟨hn, by rw [List.length_append]; omega⟩, List.take_left' hb,
    List.drop_left' hb]

theorem blocksRest_append {n : ℕ} (hn : 0 < n) {b : List α} (hb : b.length = n) (s : List α) :
    blocksRest n (b ++ s) = blocksRest n s := by
  have hdiv : (b ++ s).length / n = s.length / n + 1 := by
    rw [List.length_append, hb, Nat.add_comm, Nat.add_div_right _ hn]
  rw [blocksRest, hdiv, Nat.mul_add, Nat.mul_one, Nat.add_comm, ← List.drop_drop,
    List.drop_left' hb, blocksRest]

theorem blocksRest_length_lt {n : ℕ} (hn : 0 < n) (s : List α) : (blocksRest n s).length < n := by
  have hmod := Nat.mod_lt s.length hn
  have hsplit := Nat.div_add_mod s.length n
  rw [blocksRest, List.length_drop]
  omega

/-! ## Machines that consume blocks -/

section Machine

variable (n : ℕ) (f : σ → List α → σ)

/-- One element: into the buffer, and the buffer into the state when it is
    full. -/
def pushElem (c : σ × List α) (x : α) : σ × List α :=
  if (c.2 ++ [x]).length = n then (f c.1 (c.2 ++ [x]), []) else (c.1, c.2 ++ [x])

/-- A piece: as much as the buffer takes, again and again; every round takes
    an element at least. -/
def copyPiece : ℕ → σ × List α → List α → σ × List α
  | 0, c, _ => c
  | fuel + 1, c, s =>
      if s = [] then c
      else
        let take := min (n - c.2.length) s.length
        let buf := c.2 ++ s.take take
        copyPiece fuel (if buf.length = n then (f c.1 buf, []) else (c.1, buf)) (s.drop take)

variable {n f}

theorem pushElem_length_lt (hn : 0 < n) {c : σ × List α} (hc : c.2.length < n) (x : α) :
    (pushElem n f c x).2.length < n := by
  rw [pushElem]
  split_ifs with h
  · exact hn
  · rw [List.length_append, List.length_singleton] at h ⊢
    omega

/-- Element by element: the state takes the full blocks, the buffer keeps the
    rest. -/
theorem foldl_pushElem (hn : 0 < n) :
    ∀ (s : List α) (c : σ × List α), c.2.length < n →
      s.foldl (pushElem n f) c
        = ((blocks n (c.2 ++ s)).foldl f c.1, blocksRest n (c.2 ++ s)) := by
  intro s
  induction s with
  | nil =>
      intro c hc
      rw [List.append_nil, blocks_of_lt hc, blocksRest_of_lt hc]
      rfl
  | cons x s ih =>
      intro c hc
      have hsplit : c.2 ++ x :: s = (c.2 ++ [x]) ++ s := by
        rw [List.append_assoc]
        rfl
      rw [List.foldl_cons, ih _ (pushElem_length_lt hn hc x), pushElem, hsplit]
      split_ifs with hfull
      · rw [blocks_append hn hfull, blocksRest_append hn hfull]
        rfl
      · rfl

/-- In pieces: the same. -/
theorem copyPiece_eq (hn : 0 < n) :
    ∀ (fuel : ℕ) (c : σ × List α) (s : List α), c.2.length < n → s.length ≤ fuel →
      copyPiece n f fuel c s
        = ((blocks n (c.2 ++ s)).foldl f c.1, blocksRest n (c.2 ++ s)) := by
  intro fuel
  induction fuel with
  | zero =>
      intro c s hc hs
      rw [List.length_eq_zero_iff.mp (Nat.le_zero.mp hs), copyPiece, List.append_nil,
        blocks_of_lt hc, blocksRest_of_lt hc]
      rfl
  | succ fuel ih =>
      intro c s hc hs
      rw [copyPiece]
      by_cases hnil : s = []
      · rw [if_pos hnil, hnil, List.append_nil, blocks_of_lt hc, blocksRest_of_lt hc]
        rfl
      · rw [if_neg hnil]
        have hpos : 0 < s.length := List.length_pos_iff.mpr hnil
        dsimp only
        obtain ⟨take, htake⟩ : ∃ t, t = min (n - c.2.length) s.length := ⟨_, rfl⟩
        rw [← htake]
        have hsplit : c.2 ++ s = (c.2 ++ s.take take) ++ s.drop take := by
          rw [List.append_assoc, List.take_append_drop]
        have hbuf : (c.2 ++ s.take take).length = c.2.length + take := by
          rw [List.length_append, List.length_take_of_le (by omega)]
        have hrest : (s.drop take).length ≤ fuel := by
          rw [List.length_drop]
          omega
        split_ifs with hfull
        · rw [ih (f c.1 (c.2 ++ s.take take), []) _ hn hrest, hsplit, blocks_append hn hfull,
            blocksRest_append hn hfull]
          rfl
        · rw [ih _ _ (by show (c.2 ++ s.take take).length < n; omega) hrest, hsplit]

end Machine

end Naitron.Lib
