/-
  Naitron.Lib.Split

  Lists cut at a separator: `List.splitOn` one piece at a time, its non-empty
  pieces, and pairing two cut lists piece by piece.

  `parts sep s` drops the empty pieces of `s.splitOn sep`.  Scanners that skip
  runs of separators compute `parts`, scanners that treat every separator as a
  boundary compute `splitOn`; `forall₂_filter_iff` says when a pairing of the
  latter is a pairing of the former.
-/

import Mathlib.Data.List.Forall2
import Mathlib.Tactic

namespace Naitron.Lib

variable {α β : Type*} [BEq α] [LawfulBEq α]

/-! ## One piece at a time -/

/-- The first piece of `splitOn` ends at the first separator; the other pieces
    are those of what follows it. -/
theorem splitOn_eq_takeWhile (sep : α) (s : List α) :
    s.splitOn sep = s.takeWhile (· != sep) ::
      match s.dropWhile (· != sep) with
      | [] => []
      | _ :: rest => rest.splitOn sep := by
  induction s with
  | nil => rfl
  | cons c rest ih =>
      rw [List.splitOn_cons_eq_if_modifyHead]
      by_cases hc : c = sep
      · simp [hc]
      · rw [if_neg (by simpa using hc), ih]
        simp [hc]

/-! ## Non-empty pieces -/

/-- The non-empty pieces of `s` between separators. -/
def parts (sep : α) (s : List α) : List (List α) :=
  (s.splitOn sep).filter fun p => !p.isEmpty

omit [LawfulBEq α] in
theorem parts_nil (sep : α) : parts sep [] = [] := rfl

theorem parts_cons_sep (sep : α) (s : List α) : parts sep (sep :: s) = parts sep s := by
  simp [parts, List.splitOn_cons_eq_if_modifyHead]

/-- Leading separators do not change the pieces. -/
theorem parts_dropWhile_sep (sep : α) (s : List α) :
    parts sep (s.dropWhile (· == sep)) = parts sep s := by
  induction s with
  | nil => rfl
  | cons c rest ih =>
      by_cases hc : c = sep
      · subst hc
        rw [List.dropWhile_cons_of_pos (by simp), ih, parts_cons_sep]
      · rw [List.dropWhile_cons_of_neg (by simpa using hc)]

/-- A list that starts inside a piece: that piece, then the rest. -/
theorem parts_eq_cons {sep c : α} {s : List α} (hc : c ≠ sep) :
    parts sep (c :: s) =
      (c :: s).takeWhile (· != sep) :: parts sep ((c :: s).dropWhile (· != sep)) := by
  have hdrop : parts sep ((c :: s).dropWhile (· != sep))
      = (match (c :: s).dropWhile (· != sep) with
          | [] => []
          | _ :: rest => rest.splitOn sep).filter fun p => !p.isEmpty := by
    cases hd : (c :: s).dropWhile (· != sep) with
    | nil => rfl
    | cons d rest =>
        have hds : d = sep := by
          have := List.head?_dropWhile_not (· != sep) (c :: s)
          rw [hd] at this
          simpa using this
        rw [hds, parts_cons_sep]
        rfl
  rw [hdrop]
  conv_lhs => rw [parts, splitOn_eq_takeWhile]
  rw [List.filter_cons_of_pos]
  simp [hc]

/-- The pieces on both sides of a separator. -/
theorem parts_append_sep (sep : α) (a s : List α) :
    parts sep (a ++ sep :: s) = parts sep a ++ parts sep s := by
  rw [parts, List.splitOn_append_cons_self, List.filter_append]
  rfl

/-- A run without separators is one piece. -/
theorem parts_of_notMem {sep : α} {w : List α} (hsep : sep ∉ w) :
    parts sep w = if w = [] then [] else [w] := by
  rw [parts, List.splitOn_eq_singleton hsep]
  cases w with
  | nil => rfl
  | cons c w => simp

/-- A piece is a run without separators between separators or the ends. -/
theorem mem_parts_iff {sep : α} {w : List α} : ∀ {s : List α},
    w ∈ parts sep s ↔ w ≠ [] ∧ sep ∉ w ∧ ∃ a b, s = a ++ (w ++ b) ∧
      (∀ c ∈ a.getLast?, c = sep) ∧ ∀ c ∈ b.head?, c = sep := by
  intro s
  constructor
  · induction hn : s.length using Nat.strong_induction_on generalizing s with
    | _ n ih =>
        intro hw
        by_cases hs : sep ∈ s
        · obtain ⟨p, rest, rfl, hp⟩ := List.eq_append_cons_of_mem hs
          rw [parts_append_sep, parts_of_notMem hp, List.mem_append] at hw
          rcases hw with hw | hw
          · split at hw
            · cases hw
            · rename_i hne
              obtain rfl := List.mem_singleton.mp hw
              exact ⟨hne, hp, [], sep :: rest, rfl, by simp, by simp⟩
          · have hlen : rest.length < n := by
              rw [← hn, List.length_append, List.length_cons]
              omega
            obtain ⟨hne, hsep, a, b, rfl, ha, hb⟩ := ih _ hlen rfl hw
            refine ⟨hne, hsep, p ++ sep :: a, b, by simp, ?_, hb⟩
            cases a with
            | nil => simp
            | cons d a => simpa using ha
        · rw [parts_of_notMem hs] at hw
          split at hw
          · cases hw
          · rename_i hne
            obtain rfl := List.mem_singleton.mp hw
            exact ⟨hne, hs, [], [], by simp, by simp, by simp⟩
  · rintro ⟨hne, hsep, a, b, rfl, ha, hb⟩
    have hright : w ∈ parts sep (w ++ b) := by
      cases b with
      | nil =>
          rw [List.append_nil, parts_of_notMem hsep, if_neg hne]
          exact List.mem_singleton_self w
      | cons c b =>
          rw [hb c rfl, parts_append_sep, parts_of_notMem hsep, if_neg hne]
          exact List.mem_append_left _ (List.mem_singleton_self w)
    rcases List.eq_nil_or_concat' a with rfl | ⟨a, c, rfl⟩
    · exact hright
    · rw [ha c (by simp), List.append_assoc, List.singleton_append, parts_append_sep]
      exact List.mem_append_right _ hright

/-! ## One element at a time -/

omit [BEq α] [LawfulBEq α] in
/-- Every element of a list with what is before and after it. -/
theorem forall_split_cons {P : List α → α → List α → Prop} {a : α} {l : List α} :
    (∀ pre x post, a :: l = pre ++ x :: post → P pre x post) ↔
      P [] a l ∧ ∀ pre x post, l = pre ++ x :: post → P (a :: pre) x post := by
  constructor
  · intro h
    refine ⟨h [] a l rfl, fun pre x post hl => h (a :: pre) x post ?_⟩
    rw [hl, List.cons_append]
  · rintro ⟨hfirst, hrest⟩ pre x post hl
    cases pre with
    | nil =>
        obtain ⟨rfl, rfl⟩ := List.cons.inj hl
        exact hfirst
    | cons p pre =>
        obtain ⟨rfl, htail⟩ := List.cons.inj hl
        exact hrest pre x post htail

omit [BEq α] [LawfulBEq α] in
theorem forall_split_nil {P : List α → α → List α → Prop} :
    ∀ pre x post, [] = pre ++ x :: post → P pre x post := by
  intro pre x post h
  simp at h

/-! ## Pairing -/

omit [BEq α] [LawfulBEq α] in
/-- Two lists of pieces with empty pieces in the same places: their non-empty
    pieces are related in order exactly when every non-empty piece is related
    to the one in its place. -/
theorem forall₂_filter_iff {R : List α → List β → Prop} :
    ∀ {l : List (List α)} {m : List (List β)},
      l.map List.isEmpty = m.map List.isEmpty →
      (List.Forall₂ R (l.filter fun p => !p.isEmpty) (m.filter fun p => !p.isEmpty) ↔
        List.Forall₂ (fun a b => a ≠ [] → R a b) l m)
  | [], [], _ => by simp
  | [], _ :: _, h => by simp at h
  | _ :: _, [], h => by simp at h
  | a :: l, b :: m, h => by
      simp only [List.map_cons, List.cons.injEq] at h
      have ih := forall₂_filter_iff (R := R) h.2
      rcases a with _ | ⟨c, a⟩
      · have hb : b = [] := List.isEmpty_iff.mp h.1.symm
        simp [hb, ih]
      · have hb : b ≠ [] := by
          intro hb
          simp [hb] at h
        simp [hb, ih]

end Naitron.Lib
