/-
  Naitron.Lib.Chain

  Regions of memory, and linked lists in memory: the addresses that are come
  to from a first one by following `next` until it is null.
-/

import Mathlib.Data.List.Basic
import Mathlib.Data.List.Nodup
import Mathlib.Logic.Function.Basic

namespace Naitron.Lib

/-! ## Regions -/

/-- `len` bytes from an address on. -/
structure Region where
  addr : Nat
  len : Nat
deriving DecidableEq, Repr

namespace Region

/-- No byte belongs to both. -/
def Disjoint (r s : Region) : Prop := r.addr + r.len ≤ s.addr ∨ s.addr + s.len ≤ r.addr

instance (r s : Region) : Decidable (r.Disjoint s) := inferInstanceAs (Decidable (_ ∨ _))

/-- Every byte of the one belongs to the other. -/
def Inside (r s : Region) : Prop := s.addr ≤ r.addr ∧ r.addr + r.len ≤ s.addr + s.len

variable {r s r' s' : Region}

theorem Disjoint.symm (h : r.Disjoint s) : s.Disjoint r := Or.symm h

theorem Disjoint.inside (h : r.Disjoint s) (hr : r'.Inside r) (hs : s'.Inside s) :
    r'.Disjoint s' := by
  obtain ⟨hr₁, hr₂⟩ := hr
  obtain ⟨hs₁, hs₂⟩ := hs
  obtain h | h := h
  · exact .inl (by omega)
  · exact .inr (by omega)

/-- Regions that begin at one address and have bytes overlap. -/
theorem Disjoint.addr_ne (h : r.Disjoint s) (hr : 0 < r.len) (hs : 0 < s.len) :
    r.addr ≠ s.addr := by
  intro heq
  obtain h | h := h <;> omega

end Region

/-! ## Linked lists -/

/-- `next` leads from `p` through the addresses of the list to null. -/
def Chain (next : Nat → Option Nat) : Nat → List Nat → Prop
  | p, [] => p = 0
  | p, q :: qs => p = q ∧ q ≠ 0 ∧ ∃ n, next q = some n ∧ Chain next n qs

namespace Chain

variable {next next' : Nat → Option Nat} {p : Nat} {ps : List Nat}

theorem cons_of_ne (h : Chain next p ps) (hp : p ≠ 0) :
    ∃ n qs, ps = p :: qs ∧ next p = some n ∧ Chain next n qs := by
  cases ps with
  | nil => exact absurd h hp
  | cons q qs =>
      obtain ⟨rfl, -, n, hn, hqs⟩ := h
      exact ⟨n, qs, rfl, hn, hqs⟩

/-- Every address of the list is one of memory. -/
theorem mem (h : Chain next p ps) : ∀ q ∈ ps, q ≠ 0 ∧ ∃ n, next q = some n := by
  induction ps generalizing p with
  | nil => exact fun q hq => absurd hq List.not_mem_nil
  | cons r rs ih =>
      obtain ⟨rfl, hr, n, hn, hrs⟩ := h
      intro q hq
      obtain rfl | hq := List.mem_cons.mp hq
      · exact ⟨hr, n, hn⟩
      · exact ih hrs q hq

/-- Only the addresses of the list matter. -/
theorem congr (h : Chain next p ps) (hnext : ∀ q ∈ ps, next' q = next q) :
    Chain next' p ps := by
  induction ps generalizing p with
  | nil => exact h
  | cons r rs ih =>
      obtain ⟨rfl, hr, n, hn, hrs⟩ := h
      refine ⟨rfl, hr, n, ?_, ih hrs fun q hq => hnext q (List.mem_cons_of_mem p hq)⟩
      rw [hnext p List.mem_cons_self, hn]

/-- A new last address, to which the old one is linked. -/
theorem append {c q : Nat} (h : Chain next p ps) (hps : ps ≠ []) (hnodup : ps.Nodup)
    (hlast : ps.getLast hps = c) (hc : next' c = some q) (hq : q ≠ 0) (hnull : next' q = some 0)
    (hnext : ∀ r ∈ ps, r ≠ c → next' r = next r) : Chain next' p (ps ++ [q]) := by
  induction ps generalizing p with
  | nil => exact absurd rfl hps
  | cons r rs ih =>
      obtain ⟨rfl, hr, n, hn, hrs⟩ := h
      cases rs with
      | nil =>
          rw [List.getLast_singleton] at hlast
          subst hlast
          exact ⟨rfl, hr, q, hc, rfl, hq, 0, hnull, rfl⟩
      | cons s ss =>
          rw [List.getLast_cons (List.cons_ne_nil s ss)] at hlast
          have hpc : p ≠ c := by
            rintro rfl
            have hmem := List.getLast_mem (List.cons_ne_nil s ss)
            rw [hlast] at hmem
            exact (List.nodup_cons.mp hnodup).1 hmem
          refine ⟨rfl, hr, n, (hnext p List.mem_cons_self hpc).trans hn, ?_⟩
          exact ih hrs (List.cons_ne_nil s ss) (List.nodup_cons.mp hnodup).2 hlast
            fun t ht => hnext t (List.mem_cons_of_mem p ht)

end Chain

end Naitron.Lib
