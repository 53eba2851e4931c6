/-
  Naitron.Lib.Framing

  Streams of records.  A sender writes records one after another, each as a
  non-empty list of symbols; a receiver has some of the stream.  Whatever it
  has is a number of whole records and the beginning of the next one.
-/

import Mathlib.Data.List.Flatten
import Mathlib.Data.List.Infix

namespace Naitron.Lib

variable {α F : Type*}

/-- `rest` is a beginning of the first of the records `fs`, and not the whole
    of it; nothing when there is none. -/
def Unfinished (enc : F → List α) : List F → List α → Prop
  | [], rest => rest = []
  | f :: _, rest => rest <+: enc f ∧ rest.length < (enc f).length

namespace Framing

variable {enc : F → List α}

/-- A part of a stream, cut at the last record boundary in it. -/
theorem exists_cut :
    ∀ (fs : List F) (p : List α), p <+: fs.flatMap enc →
      ∃ n rest, p = (fs.take n).flatMap enc ++ rest ∧ Unfinished enc (fs.drop n) rest := by
  intro fs
  induction fs with
  | nil =>
      intro p hp
      exact ⟨0, [], by simpa using hp, rfl⟩
  | cons f fs ih =>
      intro p hp
      rw [List.flatMap_cons] at hp
      by_cases hlt : p.length < (enc f).length
      · have hpre : p <+: enc f :=
          List.prefix_of_prefix_length_le hp (List.prefix_append _ _) hlt.le
        exact ⟨0, p, rfl, hpre, hlt⟩
      · have hpre : enc f <+: p :=
          List.prefix_of_prefix_length_le (List.prefix_append _ _) hp (not_lt.mp hlt)
        obtain ⟨q, rfl⟩ := hpre
        obtain ⟨n, rest, hq, hrest⟩ := ih q ((List.prefix_append_right_inj (enc f)).mp hp)
        refine ⟨n + 1, rest, ?_, hrest⟩
        rw [List.take_succ_cons, List.flatMap_cons, List.append_assoc, ← hq]

/-- A whole stream has no beginning of a record at its end. -/
theorem cut_whole {fs : List F} {n : Nat} {rest : List α}
    (h : fs.flatMap enc = (fs.take n).flatMap enc ++ rest)
    (hrest : Unfinished enc (fs.drop n) rest) : fs.take n = fs ∧ rest = [] := by
  have hdrop : (fs.drop n).flatMap enc = rest := by
    have hsplit : fs.flatMap enc = (fs.take n).flatMap enc ++ (fs.drop n).flatMap enc := by
      rw [← List.flatMap_append, List.take_append_drop]
    exact List.append_cancel_left (hsplit.symm.trans h)
  cases hd : fs.drop n with
  | nil =>
      rw [hd] at hdrop
      refine ⟨?_, hdrop.symm⟩
      rw [← List.take_append_drop n fs, hd, List.append_nil, List.take_take, min_self]
  | cons f gs =>
      rw [hd, List.flatMap_cons] at hdrop
      rw [hd] at hrest
      have hlt := hrest.2
      rw [← hdrop, List.length_append] at hlt
      omega

end Framing

end Naitron.Lib
