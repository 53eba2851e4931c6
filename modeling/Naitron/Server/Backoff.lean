/-
  Naitron.Server.Backoff

  Supervised restarts over runs: the ticks of `supervise` and the deaths of
  controllers, in any order and with anything in between that leaves the
  supervision of the services alone.

  A run writes a log of what happened to each slot.  The log alone says what
  is promised: which slots hold a process, how many failures there were since
  a tick last found the process stable, and how long the slot has to wait.
-/

import Naitron.Server.ServiceEffects

namespace Naitron

-- ============================================================================
-- Histories
-- ============================================================================

/-- What happens to one slot, with the clock reading it goes by. -/
inductive SlotEvent where
  /-- `controller_died`, at its reading of the clock. -/
  | died (now : Int)
  /-- `spawn_service` fails; the reading is that at the start of the tick. -/
  | failed (now : Int)
  /-- `spawn_service` succeeds. -/
  | spawned (now : Int)
  /-- A tick sees the process up for more than `NTC_STABLE_MS`. -/
  | stable (now : Int)
deriving DecidableEq, Repr

/-- What the events so far amount to: does the slot hold a process, how many
    deaths and failed spawns are there since the last `stable`, and when was
    the last of them. -/
structure SlotHistory where
  live : Bool
  failures : Nat := 0
  last : Int := 0
deriving DecidableEq, Repr

namespace SlotHistory

def after (h : SlotHistory) : SlotEvent → SlotHistory
  | .died now => ⟨false, h.failures + 1, now⟩
  | .failed now => ⟨h.live, h.failures + 1, now⟩
  | .spawned _ => { h with live := true }
  | .stable _ => { h with failures := 0 }

/-- The wait after `k` failures. -/
def wait (k : Nat) : Int := min (200 * 2 ^ (k - 1)) 5000

/-- Is the slot free, and the wait over? -/
def Due (h : SlotHistory) (now : Int) : Prop :=
  h.live = false ∧ (0 < h.failures → h.last + wait h.failures ≤ now)

/-- A spawn, also one that fails, is made only when it is due. -/
def Allows (h : SlotHistory) : SlotEvent → Prop
  | .spawned now | .failed now => h.Due now
  | .died _ | .stable _ => True

end SlotHistory

/-- The events of all slots, the latest first. -/
abbrev SlotLog := List (Nat × Nat × SlotEvent)

/-- The history of a slot that held a process at the start, or not. -/
def historyOf (live : Bool) (i s : Nat) : SlotLog → SlotHistory
  | [] => { live := live }
  | (i', s', e) :: log =>
      if (i', s') = (i, s) then (historyOf live i s log).after e else historyOf live i s log

/-- Every event of the slot was allowed when it happened. -/
def Respects (live : Bool) (i s : Nat) : SlotLog → Prop
  | [] => True
  | (i', s', e) :: log =>
      Respects live i s log ∧ ((i', s') = (i, s) → (historyOf live i s log).Allows e)

-- ============================================================================
-- Runs
-- ============================================================================

section Runs

variable (E : Ext)

end Runs

variable {E : Ext}

/-! ## Writing the log changes nothing -/

/-- A backoff as `backoff_ms` holds it. -/
def BackoffOk (b : Int) : Prop := b = 0 ∨ ntcBackoffBase ≤ b ∧ b ≤ ntcBackoffMax

/-- The entries of a slot say what its history asks for. -/
structure SlotBacked (svc : Service) (s : Nat) (h : SlotHistory) : Prop where
  live : h.live = (svc.conns s).isSome
  backoff : BackoffOk (svc.backoffMs s)
  long : 0 < h.failures → SlotHistory.wait h.failures ≤ svc.backoffMs s
  due : h.live = false → 0 < h.failures →
    h.last + SlotHistory.wait h.failures ≤ svc.restartAt s

theorem wait_one : SlotHistory.wait 1 = ntcBackoffBase := by decide

/-- One failure more at most doubles the wait. -/
theorem wait_succ {k : Nat} (hk : 0 < k) :
    SlotHistory.wait (k + 1) = min (SlotHistory.wait k * 2) ntcBackoffMax := by
  obtain ⟨j, rfl⟩ : ∃ j, k = j + 1 := ⟨k - 1, by omega⟩
  have hpow : (2 : Int) ^ (j + 1) = 2 ^ j * 2 := pow_succ 2 j
  show min (200 * 2 ^ (j + 1)) 5000 = min (min (200 * 2 ^ j) 5000 * 2) (5000 : Int)
  rw [hpow]
  omega

theorem nextBackoff_ok {b : Int} (h : BackoffOk b) :
    ntcBackoffBase ≤ nextBackoff b ∧ nextBackoff b ≤ ntcBackoffMax := by
  have hbase : ntcBackoffBase = 200 := rfl
  have hmax : ntcBackoffMax = 5000 := rfl
  rw [nextBackoff]
  obtain rfl | ⟨hlow, -⟩ := h
  · decide
  · rw [if_pos (by omega)]
    omega

/-- The backoff after a failure is the wait at least. -/
theorem wait_le_nextBackoff {svc : Service} {s : Nat} {h : SlotHistory} (hinv : SlotBacked svc s h) :
    SlotHistory.wait (h.failures + 1) ≤ nextBackoff (svc.backoffMs s) := by
  obtain hzero | hpos := Nat.eq_zero_or_pos h.failures
  · rw [hzero, wait_one]
    exact (nextBackoff_ok hinv.backoff).1
  · have hlong := hinv.long hpos
    have hwait : 0 < SlotHistory.wait h.failures :=
      lt_min (by positivity) (by decide)
    rw [wait_succ hpos, nextBackoff, if_pos (by omega)]
    exact min_le_min_right _ (by omega)

/-- A death, or a spawn that failed. -/
theorem SlotBacked.fails {svc svc' : Service} {s : Nat} {h : SlotHistory} (hinv : SlotBacked svc s h)
    {e : SlotEvent} {now : Int} (he : h.after e = ⟨false, h.failures + 1, now⟩)
    (hconns : svc'.conns s = none) (hbackoff : svc'.backoffMs s = nextBackoff (svc.backoffMs s))
    (hrestart : svc'.restartAt s = now + nextBackoff (svc.backoffMs s)) :
    SlotBacked svc' s (h.after e) := by
  have hwait := wait_le_nextBackoff hinv
  rw [he]
  refine ⟨by rw [hconns]; rfl, ?_, fun _ => ?_, fun _ _ => ?_⟩
  · rw [hbackoff]
    exact .inr (nextBackoff_ok hinv.backoff)
  · rw [hbackoff]
    exact hwait
  · rw [hrestart]
    exact Int.add_le_add_left hwait now

/-- A tick that finds the process stable. -/
theorem SlotBacked.stable {svc svc' : Service} {s : Nat} {h : SlotHistory} (hinv : SlotBacked svc s h)
    (now : Int) (hconns : svc'.conns s = svc.conns s) (hbackoff : BackoffOk (svc'.backoffMs s)) :
    SlotBacked svc' s (h.after (.stable now)) := by
  refine ⟨?_, hbackoff, fun hpos => absurd hpos (Nat.lt_irrefl 0),
    fun _ hpos => absurd hpos (Nat.lt_irrefl 0)⟩
  rw [hconns]
  exact hinv.live

/-- Only three entries matter. -/
theorem SlotBacked.congr {svc svc' : Service} {s : Nat} {h : SlotHistory} (hinv : SlotBacked svc s h)
    (hconns : svc'.conns s = svc.conns s) (hbackoff : svc'.backoffMs s = svc.backoffMs s)
    (hrestart : svc'.restartAt s = svc.restartAt s) : SlotBacked svc' s h := by
  obtain ⟨hlive, hok, hlong, hdue⟩ := hinv
  rw [← hconns] at hlive
  rw [← hbackoff] at hok hlong
  rw [← hrestart] at hdue
  exact ⟨hlive, hok, hlong, hdue⟩

/-- Every slot has its history's entries, and every event was allowed. -/
structure Backed (live : Nat → Nat → Bool) (services : List Service) (log : SlotLog) : Prop where
  slots : ∀ {i svc}, services[i]? = some svc → ∀ s,
    SlotBacked svc s (historyOf (live i s) i s log)
  respects : ∀ i s, Respects (live i s) i s log

variable {live : Nat → Nat → Bool} {services : List Service} {log : SlotLog}

/-- An event at one slot: the service record is changed there only. -/
theorem Backed.event (h : Backed live services log) {i s : Nat} {svc : Service}
    {F : Service → Service} {e : SlotEvent} (hsvc : services[i]? = some svc)
    (hother : ∀ s' ≠ s, (F svc).conns s' = svc.conns s' ∧
      (F svc).backoffMs s' = svc.backoffMs s' ∧ (F svc).restartAt s' = svc.restartAt s')
    (hallow : (historyOf (live i s) i s log).Allows e)
    (hslot : SlotBacked (F svc) s ((historyOf (live i s) i s log).after e)) :
    Backed live (services.modify i F) ((i, s, e) :: log) where
  slots := by
    intro i' svc' hi' s'
    rw [historyOf]
    by_cases hi : i = i'
    · subst hi
      rw [List.getElem?_modify_eq, hsvc] at hi'
      obtain rfl := Option.some.inj hi'
      by_cases hs : s = s'
      · subst hs
        rw [if_pos rfl]
        exact hslot
      · rw [if_neg fun heq => hs (Prod.mk.inj heq).2]
        obtain ⟨hconns, hbackoff, hrestart⟩ := hother s' (Ne.symm hs)
        exact (h.slots hsvc s').congr hconns hbackoff hrestart
    · rw [List.getElem?_modify_ne _ _ hi] at hi'
      rw [if_neg fun heq => hi (Prod.mk.inj heq).1]
      exact h.slots hi' s'
  respects := by
    intro i' s'
    refine ⟨h.respects i' s', fun heq => ?_⟩
    obtain ⟨rfl, rfl⟩ := Prod.mk.inj heq
    exact hallow

/-- Entries that are written as they were. -/
theorem Backed.same (h : Backed live services log) {services' : List Service}
    (hsame : ∀ (i : Nat) (svc' : Service), services'[i]? = some svc' →
      ∃ svc : Service, services[i]? = some svc ∧
      svc'.conns = svc.conns ∧ svc'.backoffMs = svc.backoffMs ∧ svc'.restartAt = svc.restartAt) :
    Backed live services' log where
  slots := by
    intro i svc' hi s
    obtain ⟨svc, hsvc, hconns, hbackoff, hrestart⟩ := hsame i svc' hi
    exact (h.slots hsvc s).congr (congrFun hconns s) (congrFun hbackoff s) (congrFun hrestart s)
  respects := h.respects

/-! ## The steps -/

end Naitron
