/-
  Naitron.Lib.Lexical

  Resolving a path name lexically: its components are walked from left to
  right, empty and single-dot components stay where they are, a double-dot
  component goes up and any other goes down.  Above the root of an absolute
  path there is nothing; a relative path keeps the double dots it cannot
  resolve.

  A path is confined to a directory if every step of its walk behind the
  directory's own components stays at or below the directory.
-/

import Naitron.Lib.Split

namespace Naitron.Lib

variable {α : Type*} [DecidableEq α] (sep dot : α)

/-- One component of a walk; `rooted` for an absolute path. -/
def walk (rooted : Bool) (stack : List (List α)) (comp : List α) : List (List α) :=
  if comp = [] ∨ comp = [dot] then stack
  else if comp = [dot, dot] then
    if stack = [] ∨ stack.getLast? = some [dot, dot] then
      if rooted then stack else stack ++ [comp]
    else stack.dropLast
  else stack ++ [comp]

/-- Where a walk along components ends. -/
def resolve (rooted : Bool) (comps : List (List α)) : List (List α) :=
  comps.foldl (walk dot rooted) []

/-- A path begins at the root. -/
def isRooted (path : List α) : Bool :=
  path.head? == some sep

/-- Every part of the walk along `path` that covers `dir` ends at or below
    `dir`. -/
def Confined (dir path : List α) : Prop :=
  ∀ walked, walked <+: path.splitOn sep → dir.splitOn sep <+: walked →
    resolve dot (isRooted sep dir) (dir.splitOn sep) <+: resolve dot (isRooted sep path) walked

variable {sep dot}

/-- Only a double dot goes up. -/
theorem prefix_walk (rooted : Bool) (stack : List (List α)) {comp : List α}
    (h : comp ≠ [dot, dot]) : stack <+: walk dot rooted stack comp := by
  rw [walk]
  split_ifs
  · exact List.prefix_refl stack
  · exact List.prefix_append stack [comp]

/-- A walk without double dots does not leave where it starts. -/
theorem prefix_foldl_walk (rooted : Bool) :
    ∀ (comps stack : List (List α)), [dot, dot] ∉ comps →
      stack <+: comps.foldl (walk dot rooted) stack := by
  intro comps
  induction comps with
  | nil => exact fun stack _ => List.prefix_refl stack
  | cons comp comps ih =>
      intro stack h
      have hcomp : comp ≠ [dot, dot] := fun heq => h (heq ▸ List.mem_cons_self)
      exact (prefix_walk rooted stack hcomp).trans
        (ih (walk dot rooted stack comp) fun hmem => h (List.mem_cons_of_mem comp hmem))

/-- A name without double-dot components is confined to the directory it is
    appended to. -/
theorem confined_append {dir name : List α} (hdir : dir ≠ [])
    (hname : [dot, dot] ∉ name.splitOn sep) : Confined sep dot dir (dir ++ sep :: name) := by
  intro walked hwalked hcover
  have hroot : isRooted sep (dir ++ sep :: name) = isRooted sep dir := by
    cases dir with
    | nil => exact absurd rfl hdir
    | cons c dir => rfl
  obtain ⟨more, rfl⟩ := hcover
  rw [List.splitOn_append_cons_self, List.prefix_append_right_inj] at hwalked
  rw [hroot, resolve, resolve, List.foldl_append]
  exact prefix_foldl_walk _ more _ fun h => hname (hwalked.subset h)

/-- A component that is not a double dot, for a name that has no two dots in a
    row. -/
theorem dots_notMem_splitOn {name : List α} (h : ¬ [dot, dot] <:+: name) :
    [dot, dot] ∉ name.splitOn sep := by
  intro hmem
  have hpart : [dot, dot] ∈ parts sep name := by
    rw [parts, List.mem_filter]
    exact ⟨hmem, rfl⟩
  obtain ⟨_, _, a, b, heq, _, _⟩ := mem_parts_iff.mp hpart
  exact h ⟨a, b, by rw [heq, List.append_assoc]⟩

end Naitron.Lib
