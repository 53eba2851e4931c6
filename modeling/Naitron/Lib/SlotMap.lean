/-
  Naitron.Lib.SlotMap

  A finite map kept in an array of slots.  `key` reads the key of a slot,
  `none` for an empty one; the slots are a map as long as no key occurs twice.
  Writing one slot changes the map at the key written and at the key that was
  there.
-/

import Mathlib.Data.List.FinRange
import Mathlib.Logic.Function.Basic
import Mathlib.Tactic

namespace Naitron.Lib

variable {n : ℕ} {σ κ : Type*} [DecidableEq κ] (key : σ → Option κ)

/-- The first slot with a key. -/
def slotOf (f : Fin n → σ) (k : κ) : Option (Fin n) :=
  (List.finRange n).find? fun i => key (f i) == some k

/-- What the map holds under a key. -/
def contents (f : Fin n → σ) (k : κ) : Option σ :=
  (slotOf key f k).map f

/-- No key occurs in two slots. -/
def DistinctKeys (f : Fin n → σ) : Prop :=
  ∀ i j k, key (f i) = some k → key (f j) = some k → i = j

variable {key} {f : Fin n → σ}

theorem slotOf_some {k : κ} {i : Fin n} (h : slotOf key f k = some i) : key (f i) = some k := by
  have hfound := List.find?_some (p := fun i => key (f i) == some k) h
  exact beq_iff_eq.mp hfound

theorem slotOf_eq_none_iff {k : κ} : slotOf key f k = none ↔ ∀ i, key (f i) ≠ some k := by
  rw [slotOf, List.find?_eq_none]
  constructor
  · intro h i heq
    exact h i (List.mem_finRange i) (beq_iff_eq.mpr heq)
  · intro h i _ heq
    exact h i (beq_iff_eq.mp heq)

theorem slotOf_eq_some_iff (hf : DistinctKeys key f) {k : κ} {i : Fin n} :
    slotOf key f k = some i ↔ key (f i) = some k := by
  constructor
  · exact slotOf_some
  · intro h
    cases hslot : slotOf key f k with
    | none => exact absurd h (slotOf_eq_none_iff.mp hslot i)
    | some j => rw [hf i j k h (slotOf_some hslot)]

theorem contents_of_key (hf : DistinctKeys key f) {k : κ} {i : Fin n} (h : key (f i) = some k) :
    contents key f k = some (f i) := by
  rw [contents, (slotOf_eq_some_iff hf).mpr h, Option.map_some]

theorem contents_eq_none_iff {k : κ} : contents key f k = none ↔ ∀ i, key (f i) ≠ some k := by
  rw [contents, Option.map_eq_none_iff, slotOf_eq_none_iff]

omit [DecidableEq κ] in
/-- A slot may be written with a key that no other slot has. -/
theorem DistinctKeys.update (hf : DistinctKeys key f) {i : Fin n} {x : σ}
    (hx : ∀ k, key x = some k → ∀ j, key (f j) = some k → j = i) :
    DistinctKeys key (Function.update f i x) := by
  intro a b k ha hb
  by_cases hai : a = i
  · by_cases hbi : b = i
    · rw [hai, hbi]
    · rw [hai, Function.update_self] at ha
      rw [Function.update_of_ne hbi] at hb
      exact absurd (hx k ha b hb) hbi
  · rw [Function.update_of_ne hai] at ha
    by_cases hbi : b = i
    · rw [hbi, Function.update_self] at hb
      exact absurd (hx k hb a ha) hai
    · rw [Function.update_of_ne hbi] at hb
      exact hf a b k ha hb

/-- The map after a slot is written. -/
theorem contents_update (hf : DistinctKeys key f) {i : Fin n} {x : σ}
    (hx : ∀ k, key x = some k → ∀ j, key (f j) = some k → j = i) (k : κ) :
    contents key (Function.update f i x) k
      = if key x = some k then some x
        else if key (f i) = some k then none else contents key f k := by
  have hf' := hf.update hx
  split_ifs with hnew hold
  · have h : key (Function.update f i x i) = some k := by rwa [Function.update_self]
    rw [contents_of_key hf' h, Function.update_self]
  · rw [contents_eq_none_iff]
    intro j hj
    by_cases hji : j = i
    · rw [hji, Function.update_self] at hj
      exact hnew hj
    · rw [Function.update_of_ne hji] at hj
      exact hji (hf j i k hj hold)
  · cases hc : slotOf key f k with
    | none =>
        have hnone := slotOf_eq_none_iff.mp hc
        rw [contents_eq_none_iff.mpr hnone, contents_eq_none_iff]
        intro j hj
        by_cases hji : j = i
        · rw [hji, Function.update_self] at hj
          exact hnew hj
        · rw [Function.update_of_ne hji] at hj
          exact hnone j hj
    | some j =>
        have hj := slotOf_some hc
        have hji : j ≠ i := fun h => hold (h ▸ hj)
        have h : key (Function.update f i x j) = some k := by rwa [Function.update_of_ne hji]
        rw [contents_of_key hf' h, contents_of_key hf hj, Function.update_of_ne hji]

end Naitron.Lib
