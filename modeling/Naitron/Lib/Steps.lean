/-
  Naitron.Lib.Steps

  Sequences of labelled steps.  `Steps R P s s'` says that `s'` is reached
  from `s` by steps of `R` whose labels all satisfy `P`: what a piece of code
  may do, as a set of labels, next to what each step does, as a relation.

  The rules compose: sequencing, widening the set of labels, a loop over a
  list, and carrying a property that every allowed step keeps.

  For a machine that is a function, a run is a list of inputs; `Along` says of
  each of its steps that it is of a certain kind.
-/

import Mathlib.Logic.Relation

namespace Naitron.Lib

variable {σ L : Type*} {R : σ → L → σ → Prop}

/-- `s'` is reached from `s` by steps with labels in `P`. -/
def Steps (R : σ → L → σ → Prop) (P : L → Prop) : σ → σ → Prop :=
  Relation.ReflTransGen fun s s' => ∃ l, P l ∧ R s l s'

namespace Steps

variable {P Q : L → Prop} {s s' s'' : σ}

theorem refl (s : σ) : Steps R P s s := Relation.ReflTransGen.refl

theorem of_eq (h : s' = s) : Steps R P s s' := by
  rw [h]
  exact refl s

theorem one {l : L} (h : R s l s') (hl : P l) : Steps R P s s' :=
  Relation.ReflTransGen.single ⟨l, hl, h⟩

theorem trans (h : Steps R P s s') (h' : Steps R P s' s'') : Steps R P s s'' :=
  Relation.ReflTransGen.trans h h'

theorem mono (h : Steps R P s s') (hPQ : ∀ l, P l → Q l) : Steps R Q s s' :=
  Relation.ReflTransGen.mono (fun _ _ ⟨l, hl, hm⟩ => ⟨l, hPQ l hl, hm⟩) _ _ h

/-- A property that every allowed step keeps holds at the end. -/
theorem keep {I : σ → Prop} (h : Steps R P s s')
    (hstep : ∀ {a b l}, P l → R a l b → I a → I b) (hs : I s) : I s' := by
  induction h with
  | refl => exact hs
  | tail _ hm ih =>
      obtain ⟨l, hl, hm⟩ := hm
      exact hstep hl hm ih

/-- A loop over a list whose body takes allowed steps, as long as a side
    condition on the loop state holds, which the body keeps. -/
theorem foldl {α β : Type*} (view : α → σ) {body : α → β → α} {I : α → Prop} :
    ∀ (xs : List β) (a : α), I a →
      (∀ a, I a → ∀ x ∈ xs, Steps R P (view a) (view (body a x)) ∧ I (body a x)) →
      Steps R P (view a) (view (xs.foldl body a)) ∧ I (xs.foldl body a) := by
  intro xs
  induction xs with
  | nil =>
      intro a ha _
      exact ⟨refl _, ha⟩
  | cons x xs ih =>
      intro a ha hbody
      obtain ⟨hx, hI⟩ := hbody a ha x List.mem_cons_self
      obtain ⟨hrest, hI'⟩ := ih (body a x) hI
        (fun b hb y hy => hbody b hb y (List.mem_cons_of_mem x hy))
      exact ⟨hx.trans hrest, hI'⟩

end Steps

/-! ## Runs of a function -/

section Runs

variable {ι : Type*} {step : σ → ι → σ}

/-- Every step of the run from `s` with inputs `is` satisfies `P`. -/
def Along (step : σ → ι → σ) (P : σ → ι → Prop) : σ → List ι → Prop
  | _, [] => True
  | s, i :: is => P s i ∧ Along step P (step s i) is

theorem Along.of_forall {P : ι → Prop} :
    ∀ {is : List ι} {s : σ}, (∀ i ∈ is, P i) → Along step (fun _ i => P i) s is := by
  intro is
  induction is with
  | nil => exact fun _ => trivial
  | cons i is ih =>
      exact fun h => ⟨h i List.mem_cons_self, ih fun j hj => h j (List.mem_cons_of_mem i hj)⟩

/-- A property that every step of a kind keeps holds at the end. -/
theorem Along.keep {P : σ → ι → Prop} {I : σ → Prop}
    (hstep : ∀ {s i}, I s → P s i → I (step s i)) :
    ∀ {is : List ι} {s : σ}, Along step P s is → I s → I (is.foldl step s) := by
  intro is
  induction is with
  | nil => exact fun _ hs => hs
  | cons i is ih => exact fun h hs => ih h.2 (hstep hs h.1)

/-- A property that depends on a condition: it holds at the end if the
    condition has held of every step, and each step keeps it while it does. -/
theorem Along.keep_while {P Q : σ → ι → Prop} {I : Prop → σ → Prop}
    (hmono : ∀ {a b : Prop} {s}, (a → b) → I a s → I b s)
    (hstep : ∀ {a : Prop} {s i}, I a s → P s i → I (a ∨ ¬ Q s i) (step s i)) :
    ∀ {is : List ι} {s : σ} {a : Prop}, Along step P s is → I a s →
      I (a ∨ ¬ Along step Q s is) (is.foldl step s) := by
  intro is
  induction is with
  | nil => exact fun _ hs => hmono Or.inl hs
  | cons i is ih =>
      intro s a h hs
      refine hmono ?_ (ih h.2 (hstep hs h.1))
      rintro ((ha | hq) | hrest)
      · exact Or.inl ha
      · exact Or.inr fun hall => hq hall.1
      · exact Or.inr fun hall => hrest hall.2

end Runs

end Naitron.Lib
