/-
  Naitron.Lib.Metering

  Metered runs.  A meter is a machine whose state has a level and the time at
  which that level was last brought up to date; some of its steps are admitted
  and cost one unit of the level.  If the level grows by at most `rate` per
  unit of time and an admitted step leaves at most `cap - 1`, then the steps
  admitted within `[lo, hi]` number at most `cap + rate * (hi - lo)`, whatever
  the run.

  A meter may be set up by its first admitted step (`started`).
-/

import Mathlib.Algebra.Order.Field.Basic
import Mathlib.Tactic.Linarith
import Mathlib.Tactic.Ring
import Naitron.Lib.Steps

namespace Naitron.Lib

variable {σ ε K : Type*} [Field K] [LinearOrder K] [IsStrictOrderedRing K]

/-- A machine with a level that some of its steps draw on. -/
structure Meter (σ ε K : Type*) where
  step : σ → ε → σ
  admits : σ → ε → Bool
  time : ε → K
  level : σ → K
  stamp : σ → K
  started : σ → Prop

namespace Meter

variable (M : Meter σ ε K)

/-- What a step costs. -/
def cost (s : σ) (e : ε) : K :=
  if M.admits s e then 1 else 0

/-- The steps of the run from `s` that are admitted at a time in `[lo, hi]`. -/
def admittedIn (lo hi : K) : σ → List ε → ℕ
  | _, [] => 0
  | s, e :: es =>
      (if M.admits s e ∧ lo ≤ M.time e ∧ M.time e ≤ hi then 1 else 0)
        + admittedIn lo hi (M.step s e) es

/-- The stamp of a started meter does not lie ahead of the clock. -/
def Behind (s : σ) (t : K) : Prop :=
  M.started s → M.stamp s ≤ t

/-- The laws of a meter with a rate and a cap, for the steps that `Fits`
    allows in the states that satisfy `Inv`. -/
structure Lawful (rate cap : K) (Inv : σ → Prop) (Fits : σ → ε → Prop) : Prop where
  level_nonneg : ∀ {s}, Inv s → 0 ≤ M.level s
  keep : ∀ {s e}, Inv s → Fits s e → M.Behind s (M.time e) →
    Inv (M.step s e) ∧ M.Behind (M.step s e) (M.time e)
  charge : ∀ {s e}, Inv s → Fits s e → M.started s → M.stamp s ≤ M.time e →
    M.started (M.step s e) ∧
      M.level (M.step s e) + M.cost s e
        ≤ M.level s + rate * (M.stamp (M.step s e) - M.stamp s)
  admitted : ∀ {s e}, Inv s → Fits s e → M.Behind s (M.time e) → M.admits s e = true →
    M.started (M.step s e) ∧ M.stamp (M.step s e) = M.time e ∧ M.level (M.step s e) + 1 ≤ cap

variable {M}

omit [Field K] [IsStrictOrderedRing K] in
/-- Nothing is admitted in an interval that the clock has passed. -/
theorem admittedIn_of_lt {lo hi : K} :
    ∀ (es : List ε) (s : σ), (∀ e ∈ es, hi < M.time e) → M.admittedIn lo hi s es = 0 := by
  intro es
  induction es with
  | nil =>
      intro s _
      rfl
  | cons e es ih =>
      intro s hlate
      have hlt : hi < M.time e := hlate e List.mem_cons_self
      rw [admittedIn, if_neg fun h => absurd h.2.2 (not_le.mpr hlt),
        ih _ fun e' he' => hlate e' (List.mem_cons_of_mem e he')]

variable {rate cap : K} {Inv : σ → Prop} {Fits : σ → ε → Prop}

/-- A started meter pays for what it admits out of its level and of what the
    rest of the interval adds. -/
theorem Lawful.admittedIn_le_level (hM : M.Lawful rate cap Inv Fits) (hrate : 0 ≤ rate)
    (lo hi : K) :
    ∀ (es : List ε) (s : σ), Inv s → M.started s → M.stamp s ≤ hi →
      (∀ e ∈ es, M.stamp s ≤ M.time e) → (es.map M.time).Pairwise (· ≤ ·) →
      Along M.step Fits s es →
      (M.admittedIn lo hi s es : K) ≤ M.level s + rate * (hi - M.stamp s) := by
  intro es
  induction es with
  | nil =>
      intro s hinv _ hhi _ _ _
      have hlevel := hM.level_nonneg hinv
      have hgain : 0 ≤ rate * (hi - M.stamp s) := mul_nonneg hrate (sub_nonneg.mpr hhi)
      rw [admittedIn, Nat.cast_zero]
      linarith
  | cons e es ih =>
      intro s hinv hstart hhi hbehind hsorted halong
      obtain ⟨hlater, hsorted'⟩ := List.pairwise_cons.mp hsorted
      have hlater' : ∀ e' ∈ es, M.time e ≤ M.time e' := fun e' he' =>
        hlater _ (List.mem_map_of_mem he')
      have hnow : M.stamp s ≤ M.time e := hbehind e List.mem_cons_self
      obtain ⟨hinv', hbehind'⟩ := hM.keep hinv halong.1 fun _ => hnow
      obtain ⟨hstart', hcharge⟩ := hM.charge hinv halong.1 hstart hnow
      have hstamp' : M.stamp (M.step s e) ≤ M.time e := hbehind' hstart'
      -- the clock either is still within the interval or has left it for good
      rcases le_or_gt (M.time e) hi with hin | hout
      · have hrest := ih (M.step s e) hinv' hstart' (le_trans hstamp' hin)
          (fun e' he' => le_trans hstamp' (hlater' e' he')) hsorted' halong.2
        have hone : ((if M.admits s e ∧ lo ≤ M.time e ∧ M.time e ≤ hi then 1 else 0 : ℕ) : K)
            ≤ M.cost s e := by
          unfold cost
          by_cases had : M.admits s e = true
          · rw [if_pos had]
            split_ifs
            · rw [Nat.cast_one]
            · rw [Nat.cast_zero]
              exact zero_le_one
          · rw [if_neg had, if_neg fun h => had h.1, Nat.cast_zero]
        rw [admittedIn, Nat.cast_add]
        have hsplit : rate * (M.stamp (M.step s e) - M.stamp s)
            + rate * (hi - M.stamp (M.step s e)) = rate * (hi - M.stamp s) := by ring
        linarith
      · have hnone : M.admittedIn lo hi s (e :: es) = 0 := by
          apply admittedIn_of_lt
          intro e' he'
          rcases List.mem_cons.mp he' with rfl | he'
          · exact hout
          · exact lt_of_lt_of_le hout (hlater' e' he')
        have hlevel := hM.level_nonneg hinv
        have hgain : 0 ≤ rate * (hi - M.stamp s) := mul_nonneg hrate (sub_nonneg.mpr hhi)
        rw [hnone, Nat.cast_zero]
        linarith

/-- In every run the steps admitted within an interval are bounded by the cap
    and by what the interval adds. -/
theorem Lawful.admittedIn_le (hM : M.Lawful rate cap Inv Fits) (hrate : 0 ≤ rate) (hcap : 0 ≤ cap)
    (lo hi : K) (hlohi : lo ≤ hi) :
    ∀ (es : List ε) (s : σ), Inv s → (∀ e ∈ es, M.Behind s (M.time e)) →
      (es.map M.time).Pairwise (· ≤ ·) → Along M.step Fits s es →
      (M.admittedIn lo hi s es : K) ≤ cap + rate * (hi - lo) := by
  have hgain : 0 ≤ rate * (hi - lo) := mul_nonneg hrate (sub_nonneg.mpr hlohi)
  intro es
  induction es with
  | nil =>
      intro s _ _ _ _
      rw [admittedIn, Nat.cast_zero]
      linarith
  | cons e es ih =>
      intro s hinv hbehind hsorted halong
      obtain ⟨hlater, hsorted'⟩ := List.pairwise_cons.mp hsorted
      have hlater' : ∀ e' ∈ es, M.time e ≤ M.time e' := fun e' he' =>
        hlater _ (List.mem_map_of_mem he')
      have hnow := hbehind e List.mem_cons_self
      obtain ⟨hinv', hbehind'⟩ := hM.keep hinv halong.1 hnow
      have hnext : ∀ e' ∈ es, M.Behind (M.step s e) (M.time e') := fun e' he' hs =>
        le_trans (hbehind' hs) (hlater' e' he')
      rw [admittedIn]
      by_cases hfirst : M.admits s e = true ∧ lo ≤ M.time e ∧ M.time e ≤ hi
      · -- the first admitted step leaves at most `cap - 1`, stamped inside the interval
        obtain ⟨hstart', hstamp, hlevel⟩ := hM.admitted hinv halong.1 hnow hfirst.1
        have hrest := hM.admittedIn_le_level hrate lo hi es (M.step s e) hinv'
          hstart' (hstamp ▸ hfirst.2.2) (fun e' he' => hstamp ▸ hlater' e' he') hsorted' halong.2
        have hless : rate * (hi - M.time e) ≤ rate * (hi - lo) :=
          mul_le_mul_of_nonneg_left (by linarith [hfirst.2.1]) hrate
        rw [if_pos hfirst, Nat.cast_add, Nat.cast_one]
        rw [hstamp] at hrest
        linarith
      · rw [if_neg hfirst, Nat.zero_add]
        exact ih (M.step s e) hinv' hnext hsorted' halong.2

/-! ## A meter inside a larger machine -/

variable {σ' ε' : Type*}

/-- The readings of `M'` are those of `M` on a part of the state. -/
structure Views (M' : Meter σ' ε' K) (M : Meter σ ε K) (f : σ' → σ) (g : ε' → ε) : Prop where
  time : ∀ e, M'.time e = M.time (g e)
  level : ∀ s, M'.level s = M.level (f s)
  stamp : ∀ s, M'.stamp s = M.stamp (f s)
  started : ∀ s, M'.started s ↔ M.started (f s)

/-- A machine is lawful if each of its steps either leaves the metered part
    alone and is not admitted, or is a step of the meter that admits it too. -/
theorem Lawful.of_view (hM : M.Lawful rate cap Inv Fits) {M' : Meter σ' ε' K} {f : σ' → σ}
    {g : ε' → ε} (hview : M'.Views M f g) {Inv' : σ' → Prop} {Fits' : σ' → ε' → Prop}
    (hinv : ∀ {s}, Inv' s → Inv (f s))
    (hkeep : ∀ {s e}, Inv' s → Fits' s e → Inv (f (M'.step s e)) → Inv' (M'.step s e))
    (hstep : ∀ {s e}, Inv' s → Fits' s e →
      (f (M'.step s e) = f s ∧ M'.admits s e = false) ∨
        (f (M'.step s e) = M.step (f s) (g e) ∧ Fits (f s) (g e) ∧
          (M'.admits s e = true → M.admits (f s) (g e) = true))) :
    M'.Lawful rate cap Inv' Fits' := by
  have hbehind : ∀ s t, M'.Behind s t ↔ M.Behind (f s) t := by
    intro s t
    rw [Behind, Behind, hview.started, hview.stamp]
  refine ⟨fun h => hview.level _ ▸ hM.level_nonneg (hinv h), ?_, ?_, ?_⟩
  · intro s e hs hfits hnow
    rw [hbehind, hview.time] at hnow
    rw [hbehind, hview.time]
    rcases hstep hs hfits with ⟨hsame, _⟩ | ⟨hmove, hfits', _⟩
    · refine ⟨hkeep hs hfits ?_, ?_⟩
      · rw [hsame]
        exact hinv hs
      · rw [hsame]
        exact hnow
    · obtain ⟨hinv', hnow'⟩ := hM.keep (hinv hs) hfits' hnow
      rw [← hmove] at hinv' hnow'
      exact ⟨hkeep hs hfits hinv', hnow'⟩
  · intro s e hs hfits hstart hle
    rw [hview.started] at hstart
    rw [hview.stamp, hview.time] at hle
    rw [hview.started, hview.level, hview.level, hview.stamp, hview.stamp]
    rcases hstep hs hfits with ⟨hsame, hno⟩ | ⟨hmove, hfits', hadmits⟩
    · rw [hsame, cost, hno, if_neg Bool.false_ne_true, sub_self, mul_zero]
      exact ⟨hstart, le_refl _⟩
    · obtain ⟨hstart', hcharge⟩ := hM.charge (hinv hs) hfits' hstart hle
      rw [← hmove] at hstart' hcharge
      refine ⟨hstart', le_trans (add_le_add_right ?_ _) hcharge⟩
      unfold cost
      split_ifs with h h'
      · exact le_refl _
      · exact absurd (hadmits h) h'
      · exact zero_le_one
      · exact le_refl _
  · intro s e hs hfits hnow had
    rw [hbehind, hview.time] at hnow
    rw [hview.started, hview.stamp, hview.time, hview.level]
    rcases hstep hs hfits with ⟨_, hno⟩ | ⟨hmove, hfits', hadmits⟩
    · rw [hno] at had
      cases had
    · rw [hmove]
      exact hM.admitted (hinv hs) hfits' hnow (hadmits had)

end Meter

end Naitron.Lib
