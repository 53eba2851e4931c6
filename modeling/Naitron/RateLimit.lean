/-
  Naitron.RateLimit

  The rate limiter of `src/core/middleware.c` over runs, in exact rational
  arithmetic: the token bucket on its own, and the whole before-chain for one
  client among any others.

  Both are meters: the level is the bucket's tokens, the stamp its `last_ms`,
  and a bucket is set up by the first call that finds `last_ms` zero.
-/

import Mathlib.Tactic.FieldSimp
import Naitron.Lib.Metering
import Naitron.Middleware

namespace Naitron

open Naitron.Lib

/-! ## Calls of the chain -/

/-- A call of `ntc_mw_before`. -/
structure MwCall where
  world : MwWorld
  req : NtcRequest
  clientIp : Bytes
  nowMs : Int
  preAuthed : Bool

section Calls

variable {F : Type} [CDouble F] (J : JwtOps) (m : NtcMw F) (c : MwCall)

/-- What `ntc_mw_before` answers a call. -/
def mwAnswer : NtcMwResult :=
  (ntcMwBefore J c.world m c.req c.clientIp c.nowMs c.preAuthed).2.1

/-- The middleware after a call. -/
def mwStep : NtcMw F :=
  (ntcMwBefore J c.world m c.req c.clientIp c.nowMs c.preAuthed).2.2

end Calls

/-! ## One bucket -/

/-- A zeroed `ntc_bucket`. -/
def NtcBucket.zero : NtcBucket ℚ := ⟨0, 0⟩

/-- The bucket after a sequence of calls. -/
def bucketAfter (rate burst : ℚ) (b : NtcBucket ℚ) (times : List Int) : NtcBucket ℚ :=
  times.foldl (fun b now => (ntcBucketAllow b now rate burst).2) b

/-- The answers of a sequence of calls. -/
def bucketAnswers (rate burst : ℚ) : NtcBucket ℚ → List Int → List Bool
  | _, [] => []
  | b, now :: times =>
      (ntcBucketAllow b now rate burst).1
        :: bucketAnswers rate burst (ntcBucketAllow b now rate burst).2 times

/-- The tokens lie between zero and the burst. -/
def BucketOk (burst : ℚ) (b : NtcBucket ℚ) : Prop :=
  0 ≤ b.tokens ∧ b.tokens ≤ burst

/-- What a refill leaves: the clock as stamp, tokens within the burst and, on
    a bucket in use, no more than the time since the last call has earned. -/
theorem bucketRefill_spec {rate burst : ℚ} (hrate : 0 ≤ rate) (hburst : 0 ≤ burst)
    {b : NtcBucket ℚ} (hok : BucketOk burst b) (now : Int)
    (hlast : b.lastMs ≠ 0 → b.lastMs ≤ now) :
    BucketOk burst (bucketRefill b now rate burst) ∧
      (bucketRefill b now rate burst).lastMs = now ∧
      (b.lastMs ≠ 0 →
        (bucketRefill b now rate burst).tokens
          ≤ b.tokens + rate / 1000 * ((now : ℚ) - b.lastMs)) := by
  obtain ⟨hlow, hhigh⟩ := hok
  by_cases hzero : b.lastMs = 0
  · have hrefill : bucketRefill b now rate burst = ⟨burst, now⟩ := by
      simp [bucketRefill, hzero, CDouble.lt, CDouble.ofInt, CDouble.div]
    rw [hrefill]
    exact ⟨⟨hburst, le_refl burst⟩, rfl, fun h => absurd hzero h⟩
  · have hle := hlast hzero
    rcases eq_or_lt_of_le hle with heq | hlt
    · have hrefill : bucketRefill b now rate burst = b := by
        simp [bucketRefill, ← heq, hzero, CDouble.lt, CDouble.ofInt, CDouble.div]
      rw [hrefill]
      refine ⟨⟨hlow, hhigh⟩, heq, fun _ => ?_⟩
      rw [heq, sub_self, mul_zero, add_zero]
    · have hdiff : (0 : ℚ) < (now : ℚ) - b.lastMs := sub_pos.mpr (Int.cast_lt.mpr hlt)
      have helapsed : (0 : ℚ) < ((now : ℚ) - b.lastMs) / 1000 := by positivity
      have hearned : ((now : ℚ) - b.lastMs) / 1000 * rate
          = rate / 1000 * ((now : ℚ) - b.lastMs) := by ring
      have hgain : 0 ≤ rate / 1000 * ((now : ℚ) - b.lastMs) := by positivity
      have hrefill : bucketRefill b now rate burst
          = ⟨min burst (b.tokens + rate / 1000 * ((now : ℚ) - b.lastMs)), now⟩ := by
        simp only [bucketRefill, hzero, if_false, CDouble.lt, CDouble.ofInt, CDouble.div,
          CDouble.add, CDouble.mul, Int.cast_sub, Int.cast_zero, Int.cast_ofNat, helapsed,
          decide_true, if_true, hearned]
        congr 1
        rw [min_def]
        simp only [decide_eq_true_eq]
        split_ifs with h1 h2
        · rfl
        · exact absurd (le_of_lt h1) h2
        · exact le_antisymm (not_lt.mp h1) (by assumption)
        · rfl
      rw [hrefill]
      refine ⟨⟨le_min hburst (by linarith), min_le_left _ _⟩, rfl, fun _ => min_le_right _ _⟩

/-- What a call leaves, and what an allowed one costs. -/
theorem ntcBucketAllow_spec {rate burst : ℚ} (hrate : 0 ≤ rate) (hburst : 0 ≤ burst)
    {b : NtcBucket ℚ} (hok : BucketOk burst b) (now : Int)
    (hlast : b.lastMs ≠ 0 → b.lastMs ≤ now) :
    BucketOk burst (ntcBucketAllow b now rate burst).2 ∧
      (ntcBucketAllow b now rate burst).2.lastMs = now ∧
      ((ntcBucketAllow b now rate burst).1 = true →
        (ntcBucketAllow b now rate burst).2.tokens + 1 ≤ burst) ∧
      (b.lastMs ≠ 0 →
        (ntcBucketAllow b now rate burst).2.tokens
            + (if (ntcBucketAllow b now rate burst).1 then 1 else 0)
          ≤ b.tokens + rate / 1000 * ((now : ℚ) - b.lastMs)) := by
  obtain ⟨⟨hlow, hhigh⟩, hstamp, hearned⟩ := bucketRefill_spec hrate hburst hok now hlast
  by_cases hone : (1 : ℚ) ≤ (bucketRefill b now rate burst).tokens
  · have hallow : ntcBucketAllow b now rate burst
        = (true, ⟨(bucketRefill b now rate burst).tokens - 1,
            (bucketRefill b now rate burst).lastMs⟩) := by
      simp [ntcBucketAllow, CDouble.le, CDouble.ofInt, CDouble.sub, hone]
    rw [hallow]
    refine ⟨⟨by linarith, by linarith⟩, hstamp, fun _ => by linarith, fun hused => ?_⟩
    have hused' := hearned hused
    rw [if_pos rfl]
    linarith
  · have hallow : ntcBucketAllow b now rate burst = (false, bucketRefill b now rate burst) := by
      simp [ntcBucketAllow, CDouble.le, CDouble.ofInt, hone]
    rw [hallow]
    refine ⟨⟨hlow, hhigh⟩, hstamp, fun h => Bool.noConfusion h, fun hused => ?_⟩
    rw [if_neg Bool.false_ne_true, add_zero]
    exact hearned hused

/-- A bucket as a meter. -/
def bucketMeter (rate burst : ℚ) : Meter (NtcBucket ℚ) Int ℚ where
  step b now := (ntcBucketAllow b now rate burst).2
  admits b now := (ntcBucketAllow b now rate burst).1
  time now := now
  level b := b.tokens
  stamp b := b.lastMs
  started b := b.lastMs ≠ 0

theorem bucketMeter_lawful {rate burst : ℚ} (hrate : 0 ≤ rate) (hburst : 0 ≤ burst) :
    (bucketMeter rate burst).Lawful (rate / 1000) burst (BucketOk burst)
      (fun _ now => now ≠ 0) where
  level_nonneg := fun hok => hok.1
  keep := by
    intro b now hok _ hbehind
    obtain ⟨hok', hstamp, _⟩ := ntcBucketAllow_spec hrate hburst hok
      now fun h => Int.cast_le.mp (hbehind h)
    exact ⟨hok', fun _ => le_of_eq (congrArg Int.cast hstamp)⟩
  charge := by
    intro b now hok hnow hused hle
    obtain ⟨_, hstamp, _, hcharge⟩ := ntcBucketAllow_spec hrate hburst hok
      now fun _ => Int.cast_le.mp hle
    have hcharge' := hcharge hused
    refine ⟨?_, ?_⟩
    · show (ntcBucketAllow b now rate burst).2.lastMs ≠ 0
      rw [hstamp]
      exact hnow
    · show (ntcBucketAllow b now rate burst).2.tokens
          + (if (ntcBucketAllow b now rate burst).1 then 1 else 0)
        ≤ b.tokens + rate / 1000
          * (((ntcBucketAllow b now rate burst).2.lastMs : ℚ) - (b.lastMs : ℚ))
      rw [hstamp]
      exact hcharge'
  admitted := by
    intro b now hok hnow hbehind hallowed
    obtain ⟨_, hstamp, hlevel, _⟩ := ntcBucketAllow_spec hrate hburst hok
      now fun h => Int.cast_le.mp (hbehind h)
    refine ⟨?_, congrArg Int.cast hstamp, hlevel hallowed⟩
    show (ntcBucketAllow b now rate burst).2.lastMs ≠ 0
    rw [hstamp]
    exact hnow

theorem bucketAnswers_take (rate burst : ℚ) (n : Nat) (times : List Int) (b : NtcBucket ℚ) :
    (bucketAnswers rate burst b times).take n = bucketAnswers rate burst b (times.take n) := by
  induction times generalizing b n with
  | nil => rw [bucketAnswers, List.take_nil, List.take_nil, bucketAnswers]
  | cons now times ih =>
      cases n with
      | zero => rfl
      | succ n => rw [bucketAnswers, List.take_succ_cons, List.take_succ_cons, bucketAnswers, ih]

theorem bucketAnswers_drop (rate burst : ℚ) (n : Nat) (times : List Int) (b : NtcBucket ℚ) :
    (bucketAnswers rate burst b times).drop n
      = bucketAnswers rate burst (bucketAfter rate burst b (times.take n)) (times.drop n) := by
  induction times generalizing b n with
  | nil => rw [bucketAnswers, List.drop_nil, List.drop_nil, bucketAnswers]
  | cons now times ih =>
      cases n with
      | zero => rfl
      | succ n =>
          rw [bucketAnswers, List.drop_succ_cons, List.drop_succ_cons, List.take_succ_cons, ih]
          rfl

/-- The allowed calls among calls that all fall into an interval. -/
theorem bucketMeter_admittedIn (rate burst : ℚ) (lo hi : ℚ) (times : List Int)
    (hin : ∀ t ∈ times, lo ≤ (t : ℚ) ∧ (t : ℚ) ≤ hi) (b : NtcBucket ℚ) :
    (bucketMeter rate burst).admittedIn lo hi b times
      = (bucketAnswers rate burst b times).count true := by
  induction times generalizing b with
  | nil => rfl
  | cons now times ih =>
      have hnow := hin now List.mem_cons_self
      have hrest := ih (fun t ht => hin t (List.mem_cons_of_mem now ht))
        (ntcBucketAllow b now rate burst).2
      rw [Meter.admittedIn, bucketAnswers, List.count_cons, ← hrest, Nat.add_comm]
      congr 1
      cases hallow : (ntcBucketAllow b now rate burst).1 with
      | true => exact if_pos ⟨hallow, hnow⟩
      | false =>
          have hdeny : ¬ ((bucketMeter rate burst).admits b now = true ∧ lo ≤ (now : ℚ) ∧
              (now : ℚ) ≤ hi) := fun h => Bool.noConfusion (hallow.symm.trans h.1)
          exact if_neg hdeny

/-- A sequence of calls keeps the bucket within its bounds and behind the
    clock. -/
theorem bucketAfter_ok {rate burst : ℚ} (hrate : 0 ≤ rate) (hburst : 0 ≤ burst) :
    ∀ (times : List Int) (b : NtcBucket ℚ), BucketOk burst b →
      (∀ t ∈ times, b.lastMs ≠ 0 → b.lastMs ≤ t) → times.Pairwise (· ≤ ·) →
      BucketOk burst (bucketAfter rate burst b times) ∧
        ((bucketAfter rate burst b times).lastMs = b.lastMs ∨
          (bucketAfter rate burst b times).lastMs ∈ times) := by
  intro times
  induction times with
  | nil =>
      intro b hok _ _
      exact ⟨hok, Or.inl rfl⟩
  | cons now times ih =>
      intro b hok hlast hmono
      obtain ⟨hlater, hmono'⟩ := List.pairwise_cons.mp hmono
      obtain ⟨hok', hstamp, _⟩ := ntcBucketAllow_spec hrate hburst hok now
        (hlast now List.mem_cons_self)
      have hlast' : ∀ t ∈ times, (ntcBucketAllow b now rate burst).2.lastMs ≠ 0 →
          (ntcBucketAllow b now rate burst).2.lastMs ≤ t := by
        intro t ht _
        rw [hstamp]
        exact hlater t ht
      obtain ⟨hend, hfrom⟩ := ih (ntcBucketAllow b now rate burst).2 hok' hlast' hmono'
      refine ⟨hend, Or.inr ?_⟩
      rcases hfrom with h | h
      · show (bucketAfter rate burst (ntcBucketAllow b now rate burst).2 times).lastMs
          ∈ now :: times
        rw [h, hstamp]
        exact List.mem_cons_self
      · exact List.mem_cons_of_mem now h

theorem bucketOk_zero {burst : ℚ} (hburst : 0 ≤ burst) : BucketOk burst NtcBucket.zero :=
  ⟨le_refl 0, hburst⟩

/-- On a zeroed bucket called at non-decreasing times the tokens stay between
    zero and the burst, and from the call at index `i` to the one at index
    `j` no more are allowed than the burst and the refill in between. -/
theorem ntcBucketAllow_bounded (rate burst : ℚ) (hrate : 0 ≤ rate) (hburst : 0 ≤ burst)
    (times : List Int) (hpos : ∀ t ∈ times, 1 ≤ t) (hmono : times.Pairwise (· ≤ ·)) :
    (∀ n, 0 ≤ (bucketAfter rate burst .zero (times.take n)).tokens ∧
      (bucketAfter rate burst .zero (times.take n)).tokens ≤ burst) ∧
    ∀ i j (hij : i ≤ j) (hj : j < times.length),
      ((((bucketAnswers rate burst .zero times).take (j + 1)).drop i).count true : ℚ)
        ≤ burst + rate * (times[j] - times[i]) / 1000 := by
  have hok : BucketOk burst NtcBucket.zero := bucketOk_zero hburst
  have hunused : ∀ t ∈ times, NtcBucket.zero.lastMs ≠ 0 → NtcBucket.zero.lastMs ≤ t :=
    fun _ _ h => absurd rfl h
  refine ⟨fun n => ?_, ?_⟩
  · exact (bucketAfter_ok hrate hburst (times.take n) .zero hok
      (fun t ht => hunused t (List.mem_of_mem_take ht)) (hmono.sublist (List.take_sublist n _))).1
  · intro i j hij hj
    -- the calls before `i`, and those from `i` to `j`
    obtain ⟨before, hbefore⟩ : ∃ before, before = (times.take (j + 1)).take i := ⟨_, rfl⟩
    obtain ⟨window, hwindow⟩ : ∃ window, window = (times.take (j + 1)).drop i := ⟨_, rfl⟩
    have hsplit : before ++ window = times.take (j + 1) := by
      rw [hbefore, hwindow, List.take_append_drop]
    have hsorted : (before ++ window).Pairwise (· ≤ ·) :=
      hsplit ▸ hmono.sublist (List.take_sublist (j + 1) _)
    have hmem : ∀ t ∈ before ++ window, t ∈ times := fun t ht =>
      List.mem_of_mem_take (hsplit ▸ ht)
    obtain ⟨hsorted₁, hsorted₂, hcross⟩ := List.pairwise_append.mp hsorted
    have hin : ∀ t ∈ window, (times[i] : ℚ) ≤ (t : ℚ) ∧ (t : ℚ) ≤ (times[j] : ℚ) := by
      intro t ht
      rw [hwindow] at ht
      obtain ⟨k, hk, rfl⟩ := List.getElem_of_mem ht
      rw [List.length_drop, List.length_take] at hk
      rw [List.getElem_drop, List.getElem_take]
      have hle := List.pairwise_iff_getElem.mp hmono
      constructor
      · apply Int.cast_le.mpr
        rcases Nat.eq_zero_or_pos k with rfl | hpos'
        · exact le_refl _
        · exact hle i (i + k) (by omega) (by omega) (by omega)
      · apply Int.cast_le.mpr
        rcases Nat.lt_or_ge (i + k) j with hlt | hge
        · exact hle (i + k) j (by omega) hj hlt
        · have heq : i + k = j := by omega
          simp only [heq, le_refl]
    obtain ⟨hok', hfrom⟩ := bucketAfter_ok hrate hburst before .zero hok
      (fun t ht => hunused t (hmem t (List.mem_append_left _ ht))) hsorted₁
    have hbehind : ∀ t ∈ window, (bucketMeter rate burst).Behind
        (bucketAfter rate burst .zero before) (t : ℚ) := by
      intro t ht hused
      rcases hfrom with h | h
      · exact absurd h hused
      · exact Int.cast_le.mpr (hcross _ h t ht)
    have hcalls : Along (bucketMeter rate burst).step (fun _ now => now ≠ 0)
        (bucketAfter rate burst .zero before) window :=
      Along.of_forall fun t ht => by
        have := hpos t (hmem t (List.mem_append_right _ ht))
        omega
    have hle : (times[i] : ℚ) ≤ (times[j] : ℚ) := by
      have hi : times[i] ∈ window := by
        rw [hwindow]
        apply List.mem_iff_getElem.mpr
        refine ⟨0, by rw [List.length_drop, List.length_take]; omega, ?_⟩
        rw [List.getElem_drop, List.getElem_take]
        rfl
      exact (hin _ hi).2
    have hbound := (bucketMeter_lawful hrate hburst).admittedIn_le (by positivity) hburst
      (times[i] : ℚ) (times[j] : ℚ) hle window _ hok' hbehind
      (hsorted₂.map _ fun _ _ h => Int.cast_le.mpr h) hcalls
    rw [bucketMeter_admittedIn rate burst _ _ window hin] at hbound
    rw [bucketAnswers_take, bucketAnswers_drop, ← hbefore, ← hwindow]
    calc ((bucketAnswers rate burst (bucketAfter rate burst .zero before) window).count true : ℚ)
        ≤ burst + rate / 1000 * (times[j] - times[i]) := hbound
      _ = burst + rate * (times[j] - times[i]) / 1000 := by ring

/-- Ten a second with a burst of three: four calls at once, two a tenth of a
    second later. -/
theorem ntcBucketAllow_bounded_six :
    (0 ≤ (bucketAfter 10 3 .zero (([1000, 1000, 1000, 1000, 1100, 1100] : List Int).take 6)).tokens ∧
      (bucketAfter 10 3 .zero (([1000, 1000, 1000, 1000, 1100, 1100] : List Int).take 6)).tokens
        ≤ 3) ∧
    ((((bucketAnswers 10 3 .zero [1000, 1000, 1000, 1000, 1100, 1100]).take 6).drop 0).count true
        : ℚ) ≤ 3 + 10 * (1100 - 1000) / 1000 := by
  have hbound := ntcBucketAllow_bounded 10 3 (by norm_num) (by norm_num)
    [1000, 1000, 1000, 1000, 1100, 1100] (by decide) (by decide)
  refine ⟨hbound.1 6, ?_⟩
  have hpair := hbound.2 0 5 (Nat.zero_le 5) (by decide)
  norm_num at hpair ⊢
  exact hpair

/-! ## The whole chain -/

variable (J : JwtOps)

/-- The burst of a configuration. -/
def mwBurst (cfg : NtcMwConfig) : Int :=
  if 0 < cfg.rateBurst then cfg.rateBurst else cfg.ratePerSec

/-- The bearer gate asks for a credential and the request carries no valid
    one. -/
def LacksCredential (m : NtcMw ℚ) (c : MwCall) : Prop :=
  (m.cfg.authMode.bytes ≠ [] ∧ m.cfg.authMode.bytes ≠ lit "none" ∧ c.preAuthed = false) ∧
    protectd m.cfg c.req.path = true ∧
    (checkBearer J c.world m (ntcHttpHeader c.req (lit "authorization"))).1 = .rejected

theorem mwAuth_rejected_iff (m : NtcMw ℚ) (c : MwCall) :
    (mwAuth J c.world m c.req c.preAuthed).1 = .rejected ↔ LacksCredential J m c := by
  unfold mwAuth LacksCredential
  split_ifs with hon hpath
  · exact ⟨fun h => ⟨hon, hpath, h⟩, fun h => h.2.2⟩
  · simp [hpath]
  · simp [hon]

/-- The bucket call of the limiter. -/
def clientAllow (m : NtcMw ℚ) (c : MwCall) : Bool × NtcBucket ℚ :=
  ntcBucketAllow (m.buckets (bucketIndex c.clientIp)) c.nowMs (m.cfg.ratePerSec : ℚ)
    (mwBurst m.cfg : ℚ)

/-- The limiter looks at the configuration and the buckets only. -/
theorem mwRateLimit_eq {m m' : NtcMw ℚ} (c : MwCall) (hrate : 0 < m.cfg.ratePerSec)
    (hcfg : m'.cfg = m.cfg) (hbuckets : m'.buckets = m.buckets) :
    (mwRateLimit m' c.clientIp c.nowMs).1 = !(clientAllow m c).1 ∧
      (mwRateLimit m' c.clientIp c.nowMs).2.cfg = m.cfg ∧
      (mwRateLimit m' c.clientIp c.nowMs).2.buckets
        = Function.update m.buckets (bucketIndex c.clientIp) (clientAllow m c).2 := by
  rw [mwRateLimit, hcfg, if_pos hrate, hbuckets]
  exact ⟨rfl, rfl, rfl⟩

/-- What a call does: a preflight and a request without the credential the
    gate asks for are answered before the limiter and leave the buckets alone;
    any other request draws on its client's bucket, and is answered 429
    exactly when the bucket denies. -/
theorem mwStep_cases (m : NtcMw ℚ) (c : MwCall) (hrate : 0 < m.cfg.ratePerSec) :
    (mwStep J m c).cfg = m.cfg ∧
    (((isPreflight m.cfg c.req ∨ LacksCredential J m c) ∧
        (mwStep J m c).buckets = m.buckets) ∨
      (((mwAnswer J m c).status = 429 ↔ (clientAllow m c).1 = false) ∧
        (mwStep J m c).buckets
          = Function.update m.buckets (bucketIndex c.clientIp) (clientAllow m c).2)) := by
  have hgate := mwAuth_rejected_iff J m c
  obtain ⟨hcfg, hbuckets⟩ := mwAuth_frame J c.world m c.req c.preAuthed
  unfold mwStep mwAnswer ntcMwBefore
  by_cases hpre : isPreflight m.cfg c.req
  · simp only [hpre, if_true, true_or, and_self]
  · simp only [hpre, if_false, false_or]
    rcases hauth : mwAuth J c.world m c.req c.preAuthed with ⟨out, m'⟩
    rw [hauth] at hgate hcfg hbuckets
    obtain ⟨hdeny, hcfg', hbuckets'⟩ := mwRateLimit_eq c hrate hcfg hbuckets
    cases out with
    | rejected => exact ⟨hcfg, Or.inl ⟨hgate.mp rfl, hbuckets⟩⟩
    | skipped =>
        rcases hlimit : mwRateLimit m' c.clientIp c.nowMs with ⟨denied, m''⟩
        rw [hlimit] at hdeny hcfg' hbuckets'
        refine ⟨?_, Or.inr ⟨?_, ?_⟩⟩ <;> cases denied <;> simp_all [mwHeaders, NtcMwResult.deny]
    | verified sub scope =>
        rcases hlimit : mwRateLimit m' c.clientIp c.nowMs with ⟨denied, m''⟩
        rw [hlimit] at hdeny hcfg' hbuckets'
        refine ⟨?_, Or.inr ⟨?_, ?_⟩⟩ <;> cases denied <;> simp_all [mwHeaders, NtcMwResult.deny]

/-- A request of the client that is no `OPTIONS` request. -/
def ClientRequest (ip : Bytes) (c : MwCall) : Prop :=
  c.clientIp = ip ∧ c.req.method ≠ lit "OPTIONS"

instance (ip : Bytes) (c : MwCall) : Decidable (ClientRequest ip c) :=
  inferInstanceAs (Decidable (_ ∧ _))

/-- The chain as a meter for one client: a step is admitted if it is a request
    of the client, not an `OPTIONS` one, answered with anything but 429. -/
def mwMeter (ip : Bytes) : Meter (NtcMw ℚ) MwCall ℚ where
  step := mwStep J
  admits m c := decide (ClientRequest ip c ∧ (mwAnswer J m c).status ≠ 429)
  time c := c.nowMs
  level m := (m.buckets (bucketIndex ip)).tokens
  stamp m := (m.buckets (bucketIndex ip)).lastMs
  started m := (m.buckets (bucketIndex ip)).lastMs ≠ 0

/-- The requests of the client, other than `OPTIONS`, that a run answers with
    anything but 429 from `lo` to `hi`. -/
def mwAnswered (ip : Bytes) (lo hi : Int) (m : NtcMw ℚ) (calls : List MwCall) : Nat :=
  (mwMeter J ip).admittedIn (lo : ℚ) (hi : ℚ) m calls

/-- The limiter sees the call: the clock does not read zero, and a request of
    the client carries the credential that the gate asks for. -/
def ReachesLimiter (ip : Bytes) (m : NtcMw ℚ) (c : MwCall) : Prop :=
  c.nowMs ≠ 0 ∧ (ClientRequest ip c → ¬ LacksCredential J m c)

/-- The configuration, and the client's bucket within its bounds. -/
def MwOk (cfg : NtcMwConfig) (ip : Bytes) (m : NtcMw ℚ) : Prop :=
  m.cfg = cfg ∧ BucketOk (mwBurst cfg) (m.buckets (bucketIndex ip))

theorem mwBurst_nonneg {cfg : NtcMwConfig} (hrate : 0 < cfg.ratePerSec) :
    (0 : ℚ) ≤ (mwBurst cfg : ℚ) := by
  apply Int.cast_nonneg
  rw [mwBurst]
  split_ifs <;> omega

/-- Seen through the client's bucket the chain is the bucket's meter: a call
    either leaves the bucket alone and is not admitted, or is a bucket call
    whose answer decides. -/
theorem mwMeter_lawful {cfg : NtcMwConfig} (hrate : 0 < cfg.ratePerSec) (ip : Bytes) :
    (mwMeter J ip).Lawful ((cfg.ratePerSec : ℚ) / 1000) (mwBurst cfg : ℚ) (MwOk cfg ip)
      (ReachesLimiter J ip) := by
  have hrate' : (0 : ℚ) ≤ (cfg.ratePerSec : ℚ) := Int.cast_nonneg (le_of_lt hrate)
  have hview : (mwMeter J ip).Views (bucketMeter (cfg.ratePerSec : ℚ) (mwBurst cfg : ℚ))
      (fun m => m.buckets (bucketIndex ip)) MwCall.nowMs :=
    ⟨fun _ => rfl, fun _ => rfl, fun _ => rfl, fun _ => Iff.rfl⟩
  apply (bucketMeter_lawful hrate' (mwBurst_nonneg hrate)).of_view hview
  · exact fun hok => hok.2
  · intro m c hok _ hbucket
    exact ⟨((mwStep_cases J m c (hok.1 ▸ hrate)).1).trans hok.1, hbucket⟩
  · intro m c hok hfits
    obtain ⟨hcfg, _⟩ := hok
    obtain ⟨_, ⟨hearly, hsame⟩ | ⟨hdeny, hupdate⟩⟩ := mwStep_cases J m c (hcfg ▸ hrate)
    · refine Or.inl ⟨congrFun hsame _, decide_eq_false fun h => ?_⟩
      rcases hearly with hpre | hlacks
      · exact h.1.2 hpre.2
      · exact hfits.2 h.1 hlacks
    · rw [clientAllow, hcfg] at hdeny hupdate
      by_cases hidx : bucketIndex ip = bucketIndex c.clientIp
      · rw [← hidx] at hdeny hupdate
        refine Or.inr ⟨?_, hfits.1, fun h => ?_⟩
        · exact (congrFun hupdate _).trans (Function.update_self ..)
        · exact Bool.eq_true_of_not_eq_false fun hf => (of_decide_eq_true h).2 (hdeny.mpr hf)
      · refine Or.inl ⟨?_, decide_eq_false fun h => ?_⟩
        · exact (congrFun hupdate _).trans (Function.update_of_ne hidx ..)
        · exact hidx (congrArg bucketIndex h.1.1.symm)

/-- In every run of the chain from zeroed buckets, among any other clients'
    requests, that lets every request of a client reach the limiter, those
    answered with anything but 429 in a window of `w` ms keep to the burst and
    the refill. -/
theorem ntcMwBefore_rate_bound (m : NtcMw ℚ) (hzero : ∀ i, m.buckets i = .zero)
    (hrate : 0 < m.cfg.ratePerSec) (ip : Bytes) (calls : List MwCall)
    (hmono : (calls.map MwCall.nowMs).Pairwise (· ≤ ·))
    (hreach : Along (mwStep J) (ReachesLimiter J ip) m calls) (s w : Int) (hw : 0 ≤ w) :
    (mwAnswered J ip s (s + w) m calls : ℚ)
      ≤ (mwBurst m.cfg : ℚ) + (m.cfg.ratePerSec : ℚ) * w / 1000 := by
  have hrate' : (0 : ℚ) ≤ (m.cfg.ratePerSec : ℚ) := Int.cast_nonneg (le_of_lt hrate)
  have hburst := mwBurst_nonneg hrate
  have hok : MwOk m.cfg ip m := ⟨rfl, by rw [hzero]; exact bucketOk_zero hburst⟩
  have hunused : ∀ c ∈ calls, (mwMeter J ip).Behind m ((mwMeter J ip).time c) := by
    intro c _ hused
    refine absurd ?_ hused
    show (m.buckets (bucketIndex ip)).lastMs = 0
    rw [hzero]
    rfl
  have hsorted : (calls.map (mwMeter J ip).time).Pairwise (· ≤ ·) := by
    have hcast := hmono.map (Int.cast : Int → ℚ) fun _ _ h => Int.cast_le.mpr h
    rw [List.map_map] at hcast
    exact hcast
  have hwindow : ((s : Int) : ℚ) ≤ ((s + w : Int) : ℚ) := Int.cast_le.mpr (by omega)
  have hbound := (mwMeter_lawful J hrate ip).admittedIn_le (by positivity) hburst
    (s : ℚ) ((s + w : Int) : ℚ) hwindow calls m hok hunused hsorted hreach
  have hlength : (((s + w : Int) : ℚ) - (s : ℚ)) = w := by
    rw [Int.cast_add]
    ring
  calc (mwAnswered J ip s (s + w) m calls : ℚ)
      ≤ (mwBurst m.cfg : ℚ)
          + (m.cfg.ratePerSec : ℚ) / 1000 * (((s + w : Int) : ℚ) - (s : ℚ)) := hbound
    _ = (mwBurst m.cfg : ℚ) + (m.cfg.ratePerSec : ℚ) * w / 1000 := by
        rw [hlength]
        ring

/-- API-key mode over every path, one request a second and a burst of one. -/
def limitedMw : NtcMw ℚ where
  cfg :=
    { ratePerSec := 1, rateBurst := 1
      authMode := .set 16 (lit "apikey"), authSecret := .set 256 (lit "s3cret") }
  jwks := []
  hasCa := false
  jwksLastFetchMs := 0
  buckets _ := .zero

/-- A request at one second. -/
def callWith (authorization : Bytes) : MwCall where
  world := mwWorldZero
  req :=
    { method := lit "GET", path := lit "/"
      headers := [⟨lit "authorization", authorization⟩] }
  clientIp := lit "10.0.0.1"
  nowMs := 1000
  preAuthed := false

theorem callWith_key_reaches (m : NtcMw ℚ) (hcfg : m.cfg = limitedMw.cfg) :
    ReachesLimiter jwtRejectAll (lit "10.0.0.1") m (callWith (lit "Bearer s3cret")) := by
  refine ⟨by decide, fun _ hlacks => ?_⟩
  have hheader : ntcHttpHeader (callWith (lit "Bearer s3cret")).req (lit "authorization")
      = lit "Bearer s3cret" := by decide
  have hbearer : 7 < (lit "Bearer s3cret").length ∧
      (lit "Bearer s3cret").take 7 = lit "Bearer " := by decide
  have hmode : m.cfg.authMode.bytes = lit "apikey" := by
    rw [hcfg]
    decide
  have hsecret : (lit "Bearer s3cret").drop 7 = m.cfg.authSecret.bytes := by
    rw [hcfg]
    decide
  have hrejected := hlacks.2.2
  rw [hheader, checkBearer, if_pos hbearer, if_pos hmode, if_pos hsecret] at hrejected
  cases hrejected

/-- Two requests at once with the key: one is answered. -/
theorem ntcMwBefore_rate_bound_two :
    (mwAnswered jwtRejectAll (lit "10.0.0.1") 1000 (1000 + 0) limitedMw
        [callWith (lit "Bearer s3cret"), callWith (lit "Bearer s3cret")] : ℚ)
      ≤ (mwBurst limitedMw.cfg : ℚ) + (limitedMw.cfg.ratePerSec : ℚ) * (0 : Int) / 1000 :=
  ntcMwBefore_rate_bound jwtRejectAll limitedMw (fun _ => rfl) (by decide) (lit "10.0.0.1")
    [callWith (lit "Bearer s3cret"), callWith (lit "Bearer s3cret")] (by decide)
    ⟨callWith_key_reaches _ rfl,
      callWith_key_reaches _ (mwStep_cases jwtRejectAll limitedMw _ (by decide)).1, trivial⟩
    1000 0 (le_refl 0)

/-- Two requests at once without a credential are both answered 401, one more
    than a burst of one allows. -/
theorem ntcMwBefore_failed_logins_unlimited :
    ¬ ((mwAnswered jwtRejectAll (lit "10.0.0.1") 1000 (1000 + 0) limitedMw
          [callWith [], callWith []] : ℚ)
        ≤ (mwBurst limitedMw.cfg : ℚ) + (limitedMw.cfg.ratePerSec : ℚ) * (0 : Int) / 1000) := by
  have htwo : mwAnswered jwtRejectAll (lit "10.0.0.1") 1000 (1000 + 0) limitedMw
      [callWith [], callWith []] = 2 := by
    decide +kernel
  rw [htwo]
  norm_num [mwBurst, limitedMw]

end Naitron
