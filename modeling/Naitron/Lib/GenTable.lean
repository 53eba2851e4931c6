/-
  Naitron.Lib.GenTable

  A table of slots with a stack of free slots and a generation counter per
  slot.  `alloc` pops a slot, `free` pushes it back and advances its
  generation, a handle is a slot together with the low part of its generation
  at the time of `alloc`.

  `WF` is the table invariant: the free stack holds exactly the empty slots,
  each once.  The ghost counter `freed` counts the frees of a slot without
  wrapping around; `gen` is `freed` modulo the machine word, and
  `handle_stale` is the argument that a handle stays dead for `span` frees.
-/

import Mathlib.Data.Finset.Card
import Mathlib.Tactic

namespace Naitron.Lib

variable {α : Type}

/-- The slots, their generations and the free stack. -/
structure GenTable (α : Type) where
  pending : Nat → Option α
  gen : Nat → Nat
  freeSlots : Nat → Nat
  freeTop : Nat
  /-- Ghost: how often each slot was freed. -/
  freed : Nat → Nat

namespace GenTable

/-- All slots below `size` empty and on the free stack. -/
def init (α : Type) (size : Nat) : GenTable α where
  pending _ := none
  gen _ := 0
  freeSlots i := i
  freeTop := size
  freed _ := 0

/-- Pop a slot and store `a` in it; `none` when no slot is free. -/
def alloc (t : GenTable α) (a : α) : Option (Nat × GenTable α) :=
  if t.freeTop = 0 then none
  else
    let slot := t.freeSlots (t.freeTop - 1)
    some (slot,
      { t with pending := Function.update t.pending slot (some a), freeTop := t.freeTop - 1 })

/-- Empty a slot, advance its generation (a counter modulo `wrap`) and push it
    on the free stack. -/
def free (wrap : Nat) (t : GenTable α) (slot : Nat) : GenTable α where
  pending := Function.update t.pending slot none
  gen := Function.update t.gen slot ((t.gen slot + 1) % wrap)
  freeSlots := Function.update t.freeSlots t.freeTop slot
  freeTop := t.freeTop + 1
  freed := Function.update t.freed slot (t.freed slot + 1)

/-- The table invariant. -/
structure WF (size wrap : Nat) (t : GenTable α) : Prop where
  slot_lt : ∀ i < t.freeTop, t.freeSlots i < size
  slot_inj : ∀ i < t.freeTop, ∀ j < t.freeTop, t.freeSlots i = t.freeSlots j → i = j
  free_iff : ∀ s < size, (∃ i < t.freeTop, t.freeSlots i = s) ↔ t.pending s = none
  empty_out : ∀ s, size ≤ s → t.pending s = none
  gen_eq : ∀ s, t.gen s = t.freed s % wrap

theorem WF.lt_of_pending {size wrap : Nat} {t : GenTable α} {s : Nat} {a : α}
    (h : t.WF size wrap) (hs : t.pending s = some a) : s < size := by
  by_contra hge
  have := h.empty_out s (Nat.le_of_not_lt hge)
  rw [hs] at this
  cases this

theorem init_wf (size wrap : Nat) : (init α size).WF size wrap where
  slot_lt := fun _ hi => hi
  slot_inj := fun _ _ _ _ hij => hij
  free_iff := fun s hs => ⟨fun _ => rfl, fun _ => ⟨s, hs, rfl⟩⟩
  empty_out := fun _ _ => rfl
  gen_eq := fun _ => (Nat.zero_mod wrap).symm

/-- What `alloc` does when a slot is free. -/
theorem alloc_cases {t t' : GenTable α} {a : α} {slot : Nat} (h : t.alloc a = some (slot, t')) :
    0 < t.freeTop ∧ slot = t.freeSlots (t.freeTop - 1) ∧
      t' = { t with pending := Function.update t.pending slot (some a)
                    freeTop := t.freeTop - 1 } := by
  rw [alloc] at h
  split at h
  · cases h
  · cases h
    exact ⟨by omega, rfl, rfl⟩

/-- A popped slot was empty. -/
theorem WF.alloc_empty {size wrap : Nat} {t t' : GenTable α} {a : α} {slot : Nat}
    (h : t.WF size wrap) (ha : t.alloc a = some (slot, t')) :
    slot < size ∧ t.pending slot = none := by
  obtain ⟨htop, rfl, -⟩ := alloc_cases ha
  have hlt : t.freeSlots (t.freeTop - 1) < size := h.slot_lt _ (by omega)
  exact ⟨hlt, (h.free_iff _ hlt).mp ⟨t.freeTop - 1, by omega, rfl⟩⟩

theorem WF.alloc {size wrap : Nat} {t t' : GenTable α} {a : α} {slot : Nat}
    (h : t.WF size wrap) (ha : t.alloc a = some (slot, t')) : t'.WF size wrap := by
  have hslot := h.alloc_empty ha
  obtain ⟨htop, hslot_eq, rfl⟩ := alloc_cases ha
  refine ⟨?_, ?_, ?_, ?_, h.gen_eq⟩
  · intro i hi
    exact h.slot_lt i (by dsimp only at hi; omega)
  · intro i hi j hj hij
    dsimp only at hi hj
    exact h.slot_inj i (by omega) j (by omega) hij
  · intro s hs
    dsimp only
    by_cases hss : s = slot
    · -- the popped slot is no longer on the stack: it was there only once
      subst hss
      simp only [Function.update_self, reduceCtorEq, iff_false, not_exists, not_and]
      intro i hi hi_eq
      have := h.slot_inj i (by omega) (t.freeTop - 1) (by omega) (by rw [hi_eq, hslot_eq])
      omega
    · rw [Function.update_of_ne hss, ← h.free_iff s hs]
      constructor
      · rintro ⟨i, hi, rfl⟩
        exact ⟨i, by omega, rfl⟩
      · rintro ⟨i, hi, rfl⟩
        refine ⟨i, ?_, rfl⟩
        have : i ≠ t.freeTop - 1 := by
          rintro rfl
          exact hss hslot_eq.symm
        omega
  · intro s hs
    have hne : s ≠ slot := by omega
    dsimp only
    rw [Function.update_of_ne hne]
    exact h.empty_out s hs

/-- A slot that is occupied after a free is another one, unchanged. -/
theorem free_pending_some {wrap slot s : Nat} {t : GenTable α} {a : α}
    (h : (t.free wrap slot).pending s = some a) :
    s ≠ slot ∧ t.pending s = some a ∧ (t.free wrap slot).gen s = t.gen s := by
  have hne : s ≠ slot := by
    rintro rfl
    have hgone : (t.free wrap s).pending s = none := Function.update_self _ _ _
    rw [hgone] at h
    cases h
  have hsame : (t.free wrap slot).pending s = t.pending s := Function.update_of_ne hne _ _
  exact ⟨hne, hsame.symm.trans h, Function.update_of_ne hne _ _⟩

theorem WF.free {size wrap : Nat} {t : GenTable α} {a : α} {slot : Nat}
    (h : t.WF size wrap) (hs : t.pending slot = some a) : (t.free wrap slot).WF size wrap := by
  have hlt : slot < size := h.lt_of_pending hs
  -- `slot` is occupied, so it is not on the stack
  have hoff : ∀ i < t.freeTop, t.freeSlots i ≠ slot := by
    intro i hi hi_eq
    have := (h.free_iff slot hlt).mp ⟨i, hi, hi_eq⟩
    rw [hs] at this
    cases this
  have hold : ∀ i < t.freeTop, (t.free wrap slot).freeSlots i = t.freeSlots i := by
    intro i hi
    exact Function.update_of_ne (by omega) _ _
  have hnew : (t.free wrap slot).freeSlots t.freeTop = slot := Function.update_self _ _ _
  have hcases : ∀ i < (t.free wrap slot).freeTop, i < t.freeTop ∨ i = t.freeTop := by
    intro i hi
    have : i < t.freeTop + 1 := hi
    omega
  refine ⟨?_, ?_, ?_, ?_, ?_⟩
  · intro i hi
    rcases hcases i hi with hi | rfl
    · rw [hold i hi]
      exact h.slot_lt i hi
    · rw [hnew]
      exact hlt
  · intro i hi j hj hij
    rcases hcases i hi with hi | rfl <;> rcases hcases j hj with hj | rfl
    · rw [hold i hi, hold j hj] at hij
      exact h.slot_inj i hi j hj hij
    · rw [hold i hi, hnew] at hij
      exact absurd hij (hoff i hi)
    · rw [hold j hj, hnew] at hij
      exact absurd hij.symm (hoff j hj)
    · rfl
  · intro s hsz
    show (∃ i < t.freeTop + 1, (t.free wrap slot).freeSlots i = s) ↔
      Function.update t.pending slot none s = none
    by_cases hss : s = slot
    · subst hss
      simp only [Function.update_self, iff_true]
      exact ⟨t.freeTop, by omega, hnew⟩
    · rw [Function.update_of_ne hss, ← h.free_iff s hsz]
      constructor
      · rintro ⟨i, hi, hi_eq⟩
        rcases hcases i hi with hi | rfl
        · exact ⟨i, hi, by rw [← hold i hi]; exact hi_eq⟩
        · rw [hnew] at hi_eq
          exact absurd hi_eq.symm hss
      · rintro ⟨i, hi, hi_eq⟩
        exact ⟨i, by omega, by rw [hold i hi]; exact hi_eq⟩
  · intro s hsz
    have hne : s ≠ slot := by omega
    show Function.update t.pending slot none s = none
    rw [Function.update_of_ne hne]
    exact h.empty_out s hsz
  · intro s
    show Function.update t.gen slot _ s = Function.update t.freed slot _ s % wrap
    by_cases hss : s = slot
    · subst hss
      simp [h.gen_eq, Nat.add_mod]
    · rw [Function.update_of_ne hss, Function.update_of_ne hss]
      exact h.gen_eq s

/-! ## Counting -/

/-- The stack never outgrows the table. -/
theorem WF.freeTop_le {size wrap : Nat} {t : GenTable α} (h : t.WF size wrap) :
    t.freeTop ≤ size := by
  have hcard := Finset.card_le_card_of_injOn (s := Finset.range t.freeTop)
    (t := Finset.range size) t.freeSlots
    (fun i hi => by
      simp only [Finset.coe_range, Set.mem_Iio] at hi ⊢
      exact h.slot_lt i hi)
    (fun i hi j hj hij => by
      simp only [Finset.coe_range, Set.mem_Iio] at hi hj
      exact h.slot_inj i hi j hj hij)
  simpa using hcard

/-! ## Handles -/

/-- A generation counter that advanced by fewer than `span` steps has left
    the residue it started from. -/
theorem mod_span_ne {span n m : Nat} (hlt : n < m) (hspan : m - n < span) :
    m % span ≠ n % span := by
  intro h
  have hdvd : span ∣ m - n := (Nat.modEq_iff_dvd' hlt.le).mp h.symm
  exact absurd (Nat.le_of_dvd (by omega) hdvd) (by omega)

/-- A slot that was freed since, but fewer than `span` times, has a
    generation whose low part differs from the one the handle carries. -/
theorem WF.handle_stale {size wrap span : Nat} {t : GenTable α} {s n : Nat}
    (h : t.WF size wrap) (hdvd : span ∣ wrap) (hlt : n < t.freed s)
    (hspan : t.freed s - n < span) : t.gen s % span ≠ n % span := by
  rw [h.gen_eq, Nat.mod_mod_of_dvd _ hdvd]
  exact mod_span_ne hlt hspan

end GenTable

end Naitron.Lib
