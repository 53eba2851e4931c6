/-
  Naitron.Lib.Table

  A table of rows with a primary key, kept as a list.  An insertion replaces
  the row of its key, a deletion takes out the rows that meet a condition.

  Where a machine does at most one such operation a step, the table has at the
  end of a run the rows that a step has inserted and that no later step took
  out, next to those of the beginning that no step took out.
-/

import Mathlib.Data.List.Induction
import Mathlib.Data.List.Nodup

namespace Naitron.Lib

variable {ρ κ : Type*} (key : ρ → κ)

/-- An operation on a table. -/
inductive TableOp (ρ : Type*) where
  | insert (r : ρ)
  | delete (p : ρ → Bool)

/-- The table after an operation. -/
def TableOp.apply [DecidableEq κ] (t : List ρ) : TableOp ρ → List ρ
  | .insert r => t.filter (fun r' => decide (key r' ≠ key r)) ++ [r]
  | .delete p => t.filter fun r' => !p r'

/-- The operation takes the row out, or another row in its place. -/
def TableOp.Drops : TableOp ρ → ρ → Prop
  | .insert r', r => key r' = key r
  | .delete p, r => p r = true

/-- No two rows with one key. -/
def UniqueKeys (t : List ρ) : Prop := (t.map key).Nodup

variable {key} {t : List ρ}

theorem uniqueKeys_nil : UniqueKeys key [] := List.nodup_nil

theorem UniqueKeys.filter (h : UniqueKeys key t) (p : ρ → Bool) :
    UniqueKeys key (t.filter p) :=
  List.Nodup.sublist (List.filter_sublist.map key) h

theorem UniqueKeys.apply [DecidableEq κ] (h : UniqueKeys key t) (op : TableOp ρ) :
    UniqueKeys key (op.apply key t) := by
  cases op with
  | delete p => exact h.filter _
  | insert r =>
      rw [TableOp.apply, UniqueKeys, List.map_append, List.map_singleton]
      refine List.Nodup.append (h.filter _) (List.nodup_singleton (key r)) ?_
      rw [List.disjoint_singleton]
      intro hmem
      obtain ⟨r', hr', heq⟩ := List.mem_map.mp hmem
      exact of_decide_eq_true (List.mem_filter.mp hr').2 heq

/-- The rows after an operation. -/
theorem TableOp.mem_apply [DecidableEq κ] {op : TableOp ρ} {r : ρ} :
    r ∈ op.apply key t ↔ op = .insert r ∨ (r ∈ t ∧ ¬ op.Drops key r) := by
  cases op with
  | delete p =>
      rw [TableOp.apply, List.mem_filter, TableOp.Drops, Bool.not_eq_true',
        Bool.not_eq_true]
      exact ⟨.inr, fun h => h.resolve_left fun h => nomatch h⟩
  | insert r' =>
      rw [TableOp.apply, List.mem_append, List.mem_filter, List.mem_singleton, TableOp.Drops,
        decide_eq_true_eq, TableOp.insert.injEq, or_comm, eq_comm (a := r), ne_comm]

/-- A row that is looked for with a condition on its key. -/
theorem UniqueKeys.find?_eq_some_iff (h : UniqueKeys key t) {k : κ} {p : ρ → Bool}
    (hp : ∀ r, p r = true → key r = k) {r : ρ} :
    t.find? p = some r ↔ r ∈ t ∧ p r = true := by
  constructor
  · exact fun hfind => ⟨List.mem_of_find?_eq_some hfind, List.find?_some hfind⟩
  · rintro ⟨hmem, hr⟩
    cases hfind : t.find? p with
    | none => exact absurd hr (List.find?_eq_none.mp hfind r hmem)
    | some r' =>
        have hmem' := List.mem_of_find?_eq_some hfind
        have hkey : key r' = key r := (hp r' (List.find?_some hfind)).trans (hp r hr).symm
        rw [List.inj_on_of_nodup_map h hmem' hmem hkey]

/-! ## Runs -/

section Runs

variable {σ ε : Type*} {step : σ → ε → σ} {table : σ → List ρ} {op : σ → ε → Option (TableOp ρ)}

/-- No step of the run from `s` on takes the row out. -/
def Kept (key : ρ → κ) (step : σ → ε → σ) (op : σ → ε → Option (TableOp ρ)) (r : ρ) (s : σ)
    (run : List ε) : Prop :=
  ∀ before e after, run = before ++ e :: after →
    ∀ o, op (before.foldl step s) e = some o → ¬ o.Drops key r

theorem kept_nil {r : ρ} {s : σ} : Kept key step op r s [] := by
  intro before e after h
  exact absurd h.symm (List.append_ne_nil_of_right_ne_nil before (List.cons_ne_nil e after))

theorem kept_concat {r : ρ} {s : σ} {run : List ε} {e : ε} :
    Kept key step op r s (run ++ [e]) ↔
      Kept key step op r s run ∧ ∀ o, op (run.foldl step s) e = some o → ¬ o.Drops key r := by
  constructor
  · intro h
    refine ⟨fun before e' after heq => ?_, h run e [] rfl⟩
    exact h before e' (after ++ [e]) (by rw [heq, List.append_assoc, List.cons_append])
  · rintro ⟨hrun, hlast⟩ before e' after heq
    rcases List.eq_nil_or_concat after with rfl | ⟨init, last, rfl⟩
    · obtain ⟨rfl, he⟩ := List.append_inj' heq rfl
      rw [← List.singleton_inj.mp he]
      exact hlast
    · rw [List.concat_eq_append, ← List.cons_append, ← List.append_assoc] at heq
      exact hrun before e' init (List.append_inj_left' heq rfl)

/-- The table keeps its keys apart. -/
theorem uniqueKeys_run [DecidableEq κ]
    (hstep : ∀ s e, table (step s e) = (op s e).elim (table s) (TableOp.apply key (table s)))
    {s : σ} (hs : UniqueKeys key (table s)) (run : List ε) :
    UniqueKeys key (table (run.foldl step s)) := by
  induction run generalizing s with
  | nil => exact hs
  | cons e run ih =>
      refine ih ?_
      rw [hstep]
      cases op s e with
      | none => exact hs
      | some o => exact hs.apply o

/-- The rows at the end of a run. -/
theorem mem_table_run [DecidableEq κ]
    (hstep : ∀ s e, table (step s e) = (op s e).elim (table s) (TableOp.apply key (table s)))
    (s : σ) (run : List ε) (r : ρ) :
    r ∈ table (run.foldl step s) ↔
      (∃ before e after, run = before ++ e :: after ∧
        op (before.foldl step s) e = some (.insert r) ∧
        Kept key step op r ((before ++ [e]).foldl step s) after) ∨
      (r ∈ table s ∧ Kept key step op r s run) := by
  induction run using List.reverseRecOn with
  | nil =>
      refine ⟨fun h => .inr ⟨h, kept_nil⟩, ?_⟩
      rintro (⟨before, e, after, h, -⟩ | ⟨h, -⟩)
      · exact absurd h.symm (List.append_ne_nil_of_right_ne_nil before (List.cons_ne_nil e after))
      · exact h
  | append_singleton run e ih =>
      -- a row is there after the last step: put by it, or there before and not taken out
      have hlast : r ∈ table ((run ++ [e]).foldl step s) ↔
          op (run.foldl step s) e = some (.insert r) ∨
            (r ∈ table (run.foldl step s) ∧
              ∀ o, op (run.foldl step s) e = some o → ¬ o.Drops key r) := by
        rw [List.foldl_concat, hstep]
        cases op (run.foldl step s) e with
        | none => simp
        | some o => simp [TableOp.mem_apply]
      rw [hlast, ih, kept_concat]
      constructor
      · rintro (hput | ⟨⟨before, e', after, rfl, hput, hkept⟩ | ⟨hmem, hkept⟩, hnot⟩)
        · exact .inl ⟨run, e, [], rfl, hput, kept_nil⟩
        · refine .inl ⟨before, e', after ++ [e], by simp, hput, kept_concat.mpr ⟨hkept, ?_⟩⟩
          rw [← List.foldl_append, List.append_assoc]
          exact hnot
        · exact .inr ⟨hmem, hkept, hnot⟩
      · rintro (⟨before, e', after, heq, hput, hkept⟩ | ⟨hmem, hkept, hnot⟩)
        · rcases List.eq_nil_or_concat after with rfl | ⟨init, last, rfl⟩
          · obtain ⟨rfl, he⟩ := List.append_inj' heq rfl
            rw [List.singleton_inj.mp he]
            exact .inl hput
          · rw [List.concat_eq_append] at heq hkept
            have hinit : run = before ++ e' :: init ∧ e = last := by
              rw [← List.cons_append, ← List.append_assoc] at heq
              obtain ⟨h₁, h₂⟩ := List.append_inj' heq rfl
              exact ⟨h₁, List.singleton_inj.mp h₂⟩
            obtain ⟨rfl, rfl⟩ := hinit
            obtain ⟨hkept, hnot⟩ := kept_concat.mp hkept
            rw [← List.foldl_append, List.append_assoc] at hnot
            exact .inr ⟨.inl ⟨before, e', init, rfl, hput, hkept⟩, hnot⟩
        · exact .inr ⟨.inr ⟨hmem, hkept⟩, hnot⟩

end Runs

end Naitron.Lib
