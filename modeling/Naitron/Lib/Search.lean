/-
  Naitron.Lib.Search

  The first occurrence of a pattern in a list, and where it is when one letter
  of the pattern, its first or its last, does not occur elsewhere in it.

  Texts that are made of runs without such a letter are searched one run at a
  time: `search_head` for a pattern that begins with the letter, `search_last`
  for one that ends with it, `search_notMem` for one without it.
-/

import Mathlib.Data.List.Infix
import Mathlib.Tactic

namespace Naitron.Lib

variable {α : Type*} [DecidableEq α]

/-- The offset of the first occurrence of a pattern. -/
def search (pat : List α) : List α → Option Nat
  | [] => if pat = [] then some 0 else none
  | a :: s => if pat <+: a :: s then some 0 else (search pat s).map (· + 1)

variable {pat s r : List α}

/-! ## Occurrences -/

theorem search_zero (h : pat <+: s) : search pat s = some 0 := by
  cases s with
  | nil => rw [search, if_pos (List.prefix_nil.mp h)]
  | cons a s => rw [search, if_pos h]

theorem search_cons (a : α) (s : List α) (h : ¬ pat <+: a :: s) :
    search pat (a :: s) = (search pat s).map (· + 1) := by
  rw [search, if_neg h]

/-- Without an occurrence in front of it, the rest decides. -/
theorem search_skip : ∀ {l : List α}, (∀ i < l.length, ¬ pat <+: (l ++ r).drop i) →
    search pat (l ++ r) = (search pat r).map (· + l.length)
  | [], _ => by
      rw [List.nil_append]
      exact Option.map_id'.symm
  | a :: l, h => by
      have hhere : ¬ pat <+: a :: (l ++ r) := h 0 (Nat.succ_pos _)
      have hlater : ∀ i < l.length, ¬ pat <+: (l ++ r).drop i := by
        intro i hi
        exact h (i + 1) (Nat.succ_lt_succ hi)
      rw [List.cons_append, search_cons a _ hhere, search_skip hlater, Option.map_map]
      refine congrArg (Option.map · _) (funext fun n => ?_)
      show n + l.length + 1 = n + (l.length + 1)
      omega

theorem search_eq_none_iff : search pat s = none ↔ ¬ pat <:+: s := by
  induction s with
  | nil =>
      rw [search, List.infix_nil]
      split
      · rename_i h
        exact iff_of_false (Option.some_ne_none 0) fun hno => hno h
      · rename_i h
        exact iff_of_true rfl h
  | cons a s ih =>
      rw [search, List.infix_cons_iff]
      split
      · rename_i h
        exact iff_of_false (Option.some_ne_none 0) fun hno => hno (.inl h)
      · rename_i h
        rw [Option.map_eq_none_iff, ih, not_or]
        exact ⟨fun hno => ⟨h, hno⟩, fun hno => hno.2⟩

/-- Where it says the pattern is, the pattern is. -/
theorem search_some : ∀ {s : List α} {i : Nat}, search pat s = some i → pat <+: s.drop i
  | [], i, h => by
      rw [search] at h
      split at h
      · rename_i hnil
        rw [hnil]
        exact List.nil_prefix
      · cases h
  | a :: s, i, h => by
      rw [search] at h
      split at h
      · rename_i hpre
        obtain rfl := Option.some.inj h
        exact hpre
      · obtain ⟨j, hj, rfl⟩ := Option.map_eq_some_iff.mp h
        show pat <+: s.drop j
        exact search_some hj

/-- The occurrence lies in the list. -/
theorem search_le {i : Nat} (h : search pat s = some i) : i + pat.length ≤ s.length := by
  have hle := (search_some h).length_le
  rw [List.length_drop] at hle
  by_cases hi : i ≤ s.length
  · omega
  · obtain rfl : pat = [] := List.length_eq_zero_iff.mp (by omega)
    rw [search_zero List.nil_prefix, Option.some.injEq] at h
    omega

/-- In front of it the pattern is not. -/
theorem search_take (hpat : pat ≠ []) : ∀ {s : List α} {i : Nat}, search pat s = some i →
    ¬ pat <:+: s.take i
  | [], i, _ => by
      rw [List.take_nil, List.infix_nil]
      exact hpat
  | a :: s, i, h => by
      rw [search] at h
      split at h
      · obtain rfl := Option.some.inj h
        rw [List.take_zero, List.infix_nil]
        exact hpat
      · rename_i hhere
        obtain ⟨j, hj, rfl⟩ := Option.map_eq_some_iff.mp h
        rw [List.take_succ_cons, List.infix_cons_iff, not_or]
        refine ⟨fun hpre => hhere (hpre.trans ?_), search_take hpat hj⟩
        exact List.cons_prefix_cons.mpr ⟨rfl, List.take_prefix _ _⟩

/-! ## A letter that is in the pattern once -/

omit [DecidableEq α] in
/-- A pattern without the letter does not reach over it. -/
theorem prefix_append_cons_iff {c : α} (hc : c ∉ pat) :
    pat <+: s ++ c :: r ↔ pat <+: s := by
  refine ⟨fun h => ?_, fun h => List.prefix_append_of_prefix h⟩
  rcases Nat.le_total pat.length s.length with hle | hle
  · exact List.prefix_of_prefix_length_le h (List.prefix_append _ _) hle
  · have hs : s <+: pat := List.prefix_of_prefix_length_le (List.prefix_append _ _) h hle
    obtain ⟨t, rfl⟩ := hs
    cases t with
    | nil =>
        rw [List.append_nil]
    | cons d t =>
        rw [List.prefix_append_right_inj, List.cons_prefix_cons] at h
        exact absurd (List.mem_append_right s (h.1 ▸ List.mem_cons_self)) hc

/-- A pattern without the letter is in front of it or behind it. -/
theorem search_notMem {c : α} (hpat : pat ≠ []) (hc : c ∉ pat) : ∀ l : List α,
    search pat (l ++ c :: r) = (search pat l).or ((search pat r).map (· + (l.length + 1)))
  | [] => by
      have hhere : ¬ pat <+: c :: r := fun h =>
        hpat (List.prefix_nil.mp ((prefix_append_cons_iff (s := []) hc).mp h))
      rw [List.nil_append, search_cons c r hhere, search, if_neg hpat]
      rfl
  | a :: l => by
      have hiff : pat <+: a :: l ++ c :: r ↔ pat <+: a :: l := prefix_append_cons_iff hc
      by_cases hpre : pat <+: a :: l
      · rw [search_zero (hiff.mpr hpre), search_zero hpre]
        rfl
      · have hno : ¬ pat <+: a :: (l ++ c :: r) := fun h => hpre (hiff.mp h)
        rw [List.cons_append, search_cons a _ hno, search_cons a _ hpre, search_notMem hpat hc l]
        cases search pat l with
        | some i => rfl
        | none =>
            cases search pat r with
            | none => rfl
            | some i => rfl

theorem infix_append_cons_iff {c : α} (hpat : pat ≠ []) (hc : c ∉ pat) (l : List α) :
    pat <:+: l ++ c :: r ↔ pat <:+: l ∨ pat <:+: r := by
  have hnone := search_notMem (r := r) hpat hc l
  have hiff : search pat (l ++ c :: r) = none ↔ search pat l = none ∧ search pat r = none := by
    rw [hnone, Option.or_eq_none_iff, Option.map_eq_none_iff]
  rw [search_eq_none_iff, search_eq_none_iff, search_eq_none_iff] at hiff
  rw [← not_iff_not, hiff, not_or]

/-- A pattern that begins with the letter does not begin in a run without it. -/
theorem search_run {c : α} {d : List α} {l : List α} (hl : c ∉ l) :
    search (c :: d) (l ++ r) = (search (c :: d) r).map (· + l.length) := by
  refine search_skip fun i hi h => ?_
  rw [List.drop_append_of_le_length hi.le, List.drop_eq_getElem_cons hi, List.cons_append,
    List.cons_prefix_cons] at h
  exact hl (h.1 ▸ List.getElem_mem hi)

/-- It begins at the letter behind the run or later. -/
theorem search_head {c : α} {d : List α} {l : List α} (hl : c ∉ l) :
    search (c :: d) (l ++ c :: r) =
      if d <+: r then some l.length else (search (c :: d) r).map (· + (l.length + 1)) := by
  rw [search_run hl]
  split
  · rename_i hd
    rw [search_zero (List.cons_prefix_cons.mpr ⟨rfl, hd⟩), Option.map_some, Nat.zero_add]
  · rename_i hd
    rw [search_cons c r fun h => hd (List.cons_prefix_cons.mp h).2, Option.map_map]
    refine congrArg (Option.map · _) (funext fun n => ?_)
    show n + 1 + l.length = n + (l.length + 1)
    omega

/-- A pattern that begins with the letter and does not have it elsewhere is
    found behind a text without the pattern. -/
theorem search_append {c : α} {d : List α} (hc : c ∉ d) {l : List α} (hl : ¬ c :: d <:+: l) :
    search (c :: d) (l ++ (c :: d ++ r)) = some l.length := by
  have hskip : ∀ i < l.length, ¬ c :: d <+: (l ++ (c :: d ++ r)).drop i := by
    intro i hi h
    rw [List.drop_append_of_le_length hi.le, List.drop_eq_getElem_cons hi, List.cons_append,
      List.cons_prefix_cons] at h
    have hd : d <+: l.drop (i + 1) := (prefix_append_cons_iff hc).mp h.2
    refine hl (List.IsInfix.trans (List.IsPrefix.isInfix ?_) (List.drop_suffix i l).isInfix)
    rw [List.drop_eq_getElem_cons hi, List.cons_prefix_cons]
    exact ⟨h.1, hd⟩
  rw [search_skip hskip, search_zero (List.prefix_append _ _), Option.map_some, Nat.zero_add]

omit [DecidableEq α] in
/-- Two runs without the letter, up to the letter. -/
theorem eq_of_append_cons {q : α} {k l t : List α} (hk : q ∉ k) (hl : q ∉ l)
    (h : k ++ q :: t = l ++ q :: r) : k = l := by
  rcases List.append_eq_append_iff.mp h with ⟨a, rfl, ha⟩ | ⟨a, rfl, ha⟩
  · cases a with
    | nil => exact (List.append_nil k).symm
    | cons b a =>
        rw [List.cons_append, List.cons.injEq] at ha
        exact absurd (List.mem_append_right k (ha.1 ▸ List.mem_cons_self)) hl
  · cases a with
    | nil => exact List.append_nil l
    | cons b a =>
        rw [List.cons_append, List.cons.injEq] at ha
        exact absurd (List.mem_append_right l (ha.1 ▸ List.mem_cons_self)) hk

/-- A pattern that ends with the letter is found where a run without it ends
    with the rest of the pattern. -/
theorem search_last {q : α} {k : List α} (hk : q ∉ k) {l : List α} (hl : q ∉ l) :
    search (k ++ [q]) (l ++ q :: r) =
      if k <:+ l then some (l.length - k.length)
      else (search (k ++ [q]) r).map (· + (l.length + 1)) := by
  have hhere : ∀ i ≤ l.length, k ++ [q] <+: (l ++ q :: r).drop i → k = l.drop i := by
    intro i hi h
    rw [List.drop_append_of_le_length hi] at h
    obtain ⟨t, ht⟩ := h
    rw [List.append_assoc] at ht
    exact eq_of_append_cons hk (fun hq => hl (List.mem_of_mem_drop hq)) ht
  split
  · rename_i hsuffix
    obtain ⟨a, rfl⟩ := hsuffix
    have hskip : ∀ i < a.length, ¬ k ++ [q] <+: (a ++ (k ++ q :: r)).drop i := by
      intro i hi h
      rw [← List.append_assoc] at h
      have hlen := congrArg List.length (hhere i (by rw [List.length_append]; omega) h)
      rw [List.length_drop, List.length_append] at hlen
      omega
    have hfound : k ++ [q] <+: k ++ q :: r := ⟨r, by rw [List.append_assoc]; rfl⟩
    rw [List.append_assoc, search_skip hskip, search_zero hfound, List.length_append,
      Option.map_some]
    refine congrArg some ?_
    omega
  · rename_i hsuffix
    have hskip : ∀ i < (l ++ [q]).length, ¬ k ++ [q] <+: (l ++ [q] ++ r).drop i := by
      intro i hi h
      rw [List.length_append, List.length_singleton] at hi
      rw [List.append_assoc] at h
      exact hsuffix ((hhere i (by omega) h) ▸ List.drop_suffix i l)
    have hsearch := search_skip hskip
    rw [List.append_assoc, List.length_append, List.length_singleton] at hsearch
    exact hsearch

end Naitron.Lib
