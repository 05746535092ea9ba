import Guigu.Core.Runtime.Turn
import Guigu.Library.Binary64

/-! The waits between the attempts to set a stream up. A duration counts nanoseconds; the factor by
which it grows is a double. -/
namespace Guigu

/-- `Retry-After` counts for a rate limit only. -/
def ProviderError.retryAfter : ProviderError → Option ℕ
  | .httpStatus status _ retryAfter => if status = 429 then retryAfter else none
  | _ => none

structure RetryDelays where
  base : ℕ
  max : ℕ
  deriving DecidableEq, Repr

def RetryDelays.default : RetryDelays := ⟨500000000, 30000000000⟩

/-- `as_secs_f64`: seconds and nanoseconds are rounded, and so is their sum. -/
def asSecsF64 (duration : ℕ) : ℚ :=
  Binary64.round (Binary64.round ((duration / 10 ^ 9 : ℕ) : ℚ) +
    Binary64.round (((duration % 10 ^ 9 : ℕ) : ℚ) / 10 ^ 9))

/-- `2f64.powi(n)`; infinite from `2 ^ 1024` on. -/
def powi (n : ℤ) : Option ℚ :=
  if 1024 ≤ n then none else if n ≤ -1024 then some 0 else some (2 ^ n)

/-- The nanosecond next to a number of seconds. -/
def nearestNanos (seconds : ℚ) : ℕ := (Binary64.nearest (seconds * 10 ^ 9)).toNat

/-- `mul_f64` by a power of two, which changes no digit; it panics when the product is infinite or
no duration. -/
def mulF64 (duration : ℕ) (factor : Option ℚ) : Option ℕ :=
  factor.bind fun f =>
    if f * asSecsF64 duration < 2 ^ 64 then some (nearestNanos (f * asSecsF64 duration)) else none

/-- The wait behind a failure; the power is computed before it is known to be needed. -/
def RetryDelays.backoff (delays : RetryDelays) (attempt : ℕ) (e : ProviderError) : Option ℕ :=
  (mulF64 delays.base (powi (Int.bmod attempt (2 ^ 32)))).map fun exponential =>
    min (e.retryAfter.getD exponential) delays.max

/-- How a stream was set up: the attempts, the waits between them, and the answer, or none after a
panic. -/
structure RetryRun where
  attempts : ℕ
  waits : List ℕ
  result : Option (Except ProviderError Unit)
  deriving DecidableEq

/-- The attempt is the last one. -/
def RetryRun.last (result : Except ProviderError Unit) : RetryRun := ⟨1, [], some result⟩

/-- An attempt and a wait in front of the others. -/
def RetryRun.behind (run : RetryRun) (wait : ℕ) : RetryRun :=
  ⟨run.attempts + 1, wait :: run.waits, run.result⟩

/-- Behind a failed attempt; `next` is what comes of the attempts behind it. -/
def RetryRun.afterFailure (config : LoopConfig) (delay : ℕ → ProviderError → Option ℕ)
    (attempt : ℕ) (tokens : Tokens) (a : Attempt) (next : Tokens → RetryRun) (e : ProviderError) :
    RetryRun :=
  if e.retryClass = .permanent then .last (.error e)
  else
    let tokens := if a.cancelledMeanwhile then tokens.observe else tokens
    if tokens.isCancelled then .last (.error .aborted)
    else if config.maxRetries ≤ attempt then .last (.error e)
    else
      match delay attempt e with
      | none => ⟨1, [], none⟩
      | some wait =>
        if a.backoffCancelled then ⟨1, [wait], some (.error .aborted)⟩
        else (next tokens).behind wait

/-- `stream_with_retry` with its waits. -/
def retryRun (config : LoopConfig) (delay : ℕ → ProviderError → Option ℕ) :
    ℕ → Tokens → List Attempt → RetryRun
  | _, _, [] => .last (.error .aborted)
  | attempt, tokens, a :: rest =>
    let failed := RetryRun.afterFailure config delay attempt tokens a
      fun tokens => retryRun config delay (attempt + 1) tokens rest
    match a.outcome with
    | .established => .last (.ok ())
    | .failed e => failed e
    | .timedOut => if config.requestTimeout then failed .timeout else .last (.error .aborted)
    | .cancelled => .last (.error .aborted)

/-- The failure of an attempt. -/
def Attempt.failure? (a : Attempt) (config : LoopConfig) : Option ProviderError :=
  match a.outcome with
  | .failed e => some e
  | .timedOut => if config.requestTimeout then some .timeout else none
  | _ => none

/-- The failure behind which another attempt is possible: it is not permanent, and nothing has been
cancelled. -/
def Attempt.retriable? (a : Attempt) (config : LoopConfig) (tokens : Tokens) :
    Option ProviderError :=
  if tokens.isCancelled || a.cancelledMeanwhile then none
  else (a.failure? config).filter fun e => e.retryClass ≠ .permanent

theorem Attempt.failure_of_retriable {a : Attempt} {config : LoopConfig} {tokens : Tokens}
    {e : ProviderError} (h : a.retriable? config tokens = some e) :
    a.failure? config = some e := by
  unfold Attempt.retriable? at h
  split_ifs at h
  exact (Option.filter_eq_some_iff.mp h).1

section Run

variable (config : LoopConfig) (delay : ℕ → ProviderError → Option ℕ)

/-- What comes of an attempt. -/
inductive Attempted (n : ℕ) (tokens : Tokens) (a : Attempt) (rest : List Attempt) :
    RetryRun → Prop
  | stopped (r : Except ProviderError Unit) (h : a.retriable? config tokens = none) :
    Attempted n tokens a rest (.last r)
  | exhausted {e : ProviderError} (h : a.retriable? config tokens = some e)
    (hmax : config.maxRetries ≤ n) : Attempted n tokens a rest (.last (.error e))
  | panicked {e : ProviderError} (h : a.retriable? config tokens = some e)
    (hmax : n < config.maxRetries) (hdelay : delay n e = none) :
    Attempted n tokens a rest ⟨1, [], none⟩
  | cut {e : ProviderError} {wait : ℕ} (h : a.retriable? config tokens = some e)
    (hmax : n < config.maxRetries) (hdelay : delay n e = some wait)
    (hcut : a.backoffCancelled = true) :
    Attempted n tokens a rest ⟨1, [wait], some (.error .aborted)⟩
  | retried {e : ProviderError} {wait : ℕ} (h : a.retriable? config tokens = some e)
    (hmax : n < config.maxRetries) (hdelay : delay n e = some wait)
    (hcut : a.backoffCancelled = false) :
    Attempted n tokens a rest ((retryRun config delay (n + 1) tokens rest).behind wait)

theorem retryRun_attempted (n : ℕ) (tokens : Tokens) (a : Attempt) (rest : List Attempt) :
    Attempted config delay n tokens a rest (retryRun config delay n tokens (a :: rest)) := by
  have hfailed (e : ProviderError) (he : a.failure? config = some e) :
      Attempted config delay n tokens a rest (.afterFailure config delay n tokens a
        (fun tokens => retryRun config delay (n + 1) tokens rest) e) := by
    unfold RetryRun.afterFailure
    by_cases hpermanent : e.retryClass = .permanent
    · rw [if_pos hpermanent]
      exact .stopped _ (by simp [Attempt.retriable?, he, hpermanent])
    rw [if_neg hpermanent]
    by_cases hcancelled : (tokens.isCancelled || a.cancelledMeanwhile) = true
    · have hseen :
          (if a.cancelledMeanwhile then tokens.observe else tokens).isCancelled = true := by
        cases hmeanwhile : a.cancelledMeanwhile with
        | true =>
          rw [if_pos rfl, Tokens.observe]
          split_ifs with hbefore
          · exact hbefore
          · exact Bool.or_true _
        | false =>
          rw [hmeanwhile, Bool.or_false] at hcancelled
          rwa [if_neg Bool.false_ne_true]
      rw [if_pos hseen]
      exact .stopped _ (by simp only [Attempt.retriable?, if_pos hcancelled])
    · have hretriable : a.retriable? config tokens = some e := by
        simp only [Attempt.retriable?, if_neg hcancelled, he]
        exact Option.filter_eq_some_iff.mpr ⟨rfl, decide_eq_true hpermanent⟩
      rw [Bool.not_eq_true, Bool.or_eq_false_iff] at hcancelled
      rw [hcancelled.2, if_neg Bool.false_ne_true,
        if_neg (by rw [hcancelled.1]; exact Bool.false_ne_true)]
      by_cases hmax : config.maxRetries ≤ n
      · rw [if_pos hmax]
        exact .exhausted hretriable hmax
      · rw [if_neg hmax]
        rw [not_le] at hmax
        cases hdelay : delay n e with
        | none => exact .panicked hretriable hmax hdelay
        | some wait =>
          cases hcut : a.backoffCancelled with
          | true => exact .cut hretriable hmax hdelay hcut
          | false => exact .retried hretriable hmax hdelay hcut
  have hnone (h : a.failure? config = none) : a.retriable? config tokens = none := by
    simp [Attempt.retriable?, h]
  unfold retryRun
  cases houtcome : a.outcome with
  | established => exact .stopped _ (hnone (by simp [Attempt.failure?, houtcome]))
  | cancelled => exact .stopped _ (hnone (by simp [Attempt.failure?, houtcome]))
  | failed e => exact hfailed e (by simp [Attempt.failure?, houtcome])
  | timedOut =>
    cases htimeout : config.requestTimeout with
    | true => exact hfailed .timeout (by simp [Attempt.failure?, houtcome, htimeout])
    | false => exact .stopped _ (hnone (by simp [Attempt.failure?, houtcome, htimeout]))

/-- The failures that are waited behind, each with whether the wait is cut. -/
def waitedFailures (tokens : Tokens) : ℕ → List Attempt → List (ProviderError × Bool)
  | _, [] => []
  | attempt, a :: rest =>
    match a.retriable? config tokens with
    | none => []
    | some e =>
      if config.maxRetries ≤ attempt then []
      else if a.backoffCancelled then [(e, true)]
      else (e, false) :: waitedFailures tokens (attempt + 1) rest

variable {config delay} {n : ℕ} {tokens : Tokens} {attempts : List Attempt}

theorem retryRun_attempts_le (h : n ≤ config.maxRetries) :
    n + (retryRun config delay n tokens attempts).attempts ≤ config.maxRetries + 1 := by
  induction attempts generalizing n with
  | nil => exact Nat.add_le_add_right h 1
  | cons a rest ih =>
    have hattempted := retryRun_attempted config delay n tokens a rest
    generalize retryRun config delay n tokens (a :: rest) = run at hattempted ⊢
    cases hattempted with
    | retried _ hmax =>
      have hrest := ih (n := n + 1) hmax
      show n + (_ + 1) ≤ _
      omega
    | _ => exact Nat.add_le_add_right h 1

/-- Behind every attempt but the last there was a failure to wait for, and the wait was not cut. -/
theorem retryRun_waits {i : ℕ} (h : i + 1 < (retryRun config delay n tokens attempts).attempts) :
    ∃ a e wait, attempts[i]? = some a ∧ a.retriable? config tokens = some e ∧
      a.backoffCancelled = false ∧ (waitedFailures config tokens n attempts)[i]? = some (e, false) ∧
      delay (n + i) e = some wait ∧
      (retryRun config delay n tokens attempts).waits[i]? = some wait := by
  induction attempts generalizing n i with
  | nil => exact absurd h (by simp [retryRun, RetryRun.last])
  | cons a rest ih =>
    have hattempted := retryRun_attempted config delay n tokens a rest
    generalize retryRun config delay n tokens (a :: rest) = run at hattempted h ⊢
    cases hattempted with
    | @retried e wait hretriable hmax hdelay hcut =>
      have hwaited : waitedFailures config tokens n (a :: rest) =
          (e, false) :: waitedFailures config tokens (n + 1) rest := by
        simp only [waitedFailures, hretriable, if_neg (not_le.mpr hmax), hcut, Bool.false_eq_true,
          if_false]
      rw [hwaited]
      cases i with
      | zero => exact ⟨a, e, wait, rfl, hretriable, hcut, rfl, hdelay, rfl⟩
      | succ i =>
        obtain ⟨b, e', wait', hb, hrest, hcut', hfailure, hdelay', hwait⟩ :=
          ih (i := i) (Nat.lt_of_succ_lt_succ h)
        exact ⟨b, e', wait', hb, hrest, hcut', hfailure,
          by rwa [Nat.add_assoc, Nat.add_comm 1 i] at hdelay', hwait⟩
    | _ => exact absurd (Nat.lt_of_succ_lt_succ h) (Nat.not_lt_zero i)

/-- A failure behind which the wait is not cut is followed by another attempt, unless the run has
panicked. -/
theorem retryRun_goesOn {i : ℕ} {e : ProviderError}
    (h : (waitedFailures config tokens n attempts)[i]? = some (e, false))
    (hresult : (retryRun config delay n tokens attempts).result ≠ none) :
    i + 1 < (retryRun config delay n tokens attempts).attempts := by
  induction attempts generalizing n i with
  | nil => cases h
  | cons a rest ih =>
    have hattempted := retryRun_attempted config delay n tokens a rest
    generalize retryRun config delay n tokens (a :: rest) = run at hattempted hresult ⊢
    cases hattempted with
    | stopped r hretriable =>
      simp [waitedFailures, hretriable] at h
    | exhausted hretriable hmax =>
      simp [waitedFailures, hretriable, hmax] at h
    | panicked => exact absurd rfl hresult
    | cut hretriable hmax _ hcut =>
      simp only [waitedFailures, hretriable, if_neg (not_le.mpr hmax), if_pos hcut] at h
      cases i with
      | zero => cases Option.some.inj h
      | succ i => cases h
    | retried hretriable hmax _ hcut =>
      simp only [waitedFailures, hretriable, if_neg (not_le.mpr hmax), hcut, Bool.false_eq_true,
        if_false] at h
      have hsome : ∀ attempts, 0 < (retryRun config delay (n + 1) tokens attempts).attempts := by
        intro attempts
        cases attempts with
        | nil => exact Nat.one_pos
        | cons b rest =>
          have hnext := retryRun_attempted config delay (n + 1) tokens b rest
          generalize retryRun config delay (n + 1) tokens (b :: rest) = run at hnext
          cases hnext <;> exact Nat.succ_pos _
      cases i with
      | zero => exact Nat.succ_lt_succ (hsome rest)
      | succ i => exact Nat.succ_lt_succ (ih h hresult)

/-- The run panics at the first wait that cannot be computed. -/
theorem retryRun_result_eq_none_iff :
    (retryRun config delay n tokens attempts).result = none ↔
      ∃ i e cut, (waitedFailures config tokens n attempts)[i]? = some (e, cut) ∧
        delay (n + i) e = none := by
  induction attempts generalizing n with
  | nil => simp [retryRun, RetryRun.last, waitedFailures]
  | cons a rest ih =>
    have hattempted := retryRun_attempted config delay n tokens a rest
    generalize retryRun config delay n tokens (a :: rest) = run at hattempted ⊢
    cases hattempted with
    | stopped r hretriable => simp [waitedFailures, hretriable, RetryRun.last]
    | exhausted hretriable hmax => simp [waitedFailures, hretriable, hmax, RetryRun.last]
    | @panicked e hretriable hmax hdelay =>
      refine iff_of_true rfl ⟨0, e, a.backoffCancelled, ?_, hdelay⟩
      simp only [waitedFailures, hretriable, if_neg (not_le.mpr hmax)]
      cases a.backoffCancelled <;> rfl
    | @cut e wait hretriable hmax hdelay hcut =>
      refine iff_of_false (Option.some_ne_none _) ?_
      rintro ⟨i, e', cut, hmem, hnone⟩
      simp only [waitedFailures, hretriable, if_neg (not_le.mpr hmax), if_pos hcut] at hmem
      cases i with
      | zero =>
        obtain ⟨rfl, rfl⟩ := Prod.mk.inj (Option.some.inj hmem)
        cases hdelay.symm.trans hnone
      | succ i => cases hmem
    | @retried e wait hretriable hmax hdelay hcut =>
      have hwaited : waitedFailures config tokens n (a :: rest) =
          (e, false) :: waitedFailures config tokens (n + 1) rest := by
        simp only [waitedFailures, hretriable, if_neg (not_le.mpr hmax), hcut, Bool.false_eq_true,
          if_false]
      rw [hwaited]
      show (retryRun config delay (n + 1) tokens rest).result = none ↔ _
      rw [ih]
      constructor
      · rintro ⟨i, e', cut, hmem, hnone⟩
        exact ⟨i + 1, e', cut, hmem, by rwa [Nat.add_assoc, Nat.add_comm 1 i] at hnone⟩
      · rintro ⟨i, e', cut, hmem, hnone⟩
        cases i with
        | zero =>
          obtain ⟨rfl, rfl⟩ := Prod.mk.inj (Option.some.inj hmem)
          cases hdelay.symm.trans hnone
        | succ i =>
          exact ⟨i, e', cut, hmem, by rwa [Nat.add_assoc, Nat.add_comm 1 i]⟩

/-- Unless it panics, the run returns what setting the stream up returns. -/
theorem streamWithRetry_of_retryRun {r : Except ProviderError Unit}
    (h : (retryRun config delay n tokens attempts).result = some r) :
    (streamWithRetry config n tokens attempts).1 = r := by
  induction attempts generalizing n tokens with
  | nil => exact Option.some.inj h
  | cons a rest ih =>
    have hfailed (e : ProviderError) (h : (RetryRun.afterFailure config delay n tokens a
        (fun tokens => retryRun config delay (n + 1) tokens rest) e).result = some r) :
        (if e.retryClass = .permanent then (.error e, tokens)
          else if (if a.cancelledMeanwhile then tokens.observe else tokens).isCancelled then
            (.error .aborted, if a.cancelledMeanwhile then tokens.observe else tokens)
          else if config.maxRetries ≤ n then
            (.error e, if a.cancelledMeanwhile then tokens.observe else tokens)
          else if a.backoffCancelled then (.error .aborted,
            (if a.cancelledMeanwhile then tokens.observe else tokens).observe)
          else streamWithRetry config (n + 1)
            (if a.cancelledMeanwhile then tokens.observe else tokens) rest).1 = r := by
      unfold RetryRun.afterFailure at h
      dsimp only at h
      generalize (if a.cancelledMeanwhile then tokens.observe else tokens) = tokens' at h ⊢
      by_cases hpermanent : e.retryClass = .permanent
      · rw [if_pos hpermanent] at h ⊢
        exact Option.some.inj h
      rw [if_neg hpermanent] at h ⊢
      by_cases hcancelled : tokens'.isCancelled = true
      · rw [if_pos hcancelled] at h ⊢
        exact Option.some.inj h
      rw [if_neg hcancelled] at h ⊢
      by_cases hmax : config.maxRetries ≤ n
      · rw [if_pos hmax] at h ⊢
        exact Option.some.inj h
      rw [if_neg hmax] at h ⊢
      cases hdelay : delay n e with
      | none =>
        rw [hdelay] at h
        cases h
      | some wait =>
        rw [hdelay] at h
        cases hcut : a.backoffCancelled with
        | true =>
          rw [hcut] at h
          exact Option.some.inj h
        | false =>
          rw [hcut] at h
          exact ih h
    unfold retryRun at h
    unfold streamWithRetry
    cases houtcome : a.outcome with
    | established | cancelled =>
      simp only [houtcome] at h
      exact Option.some.inj h
    | failed e =>
      simp only [houtcome] at h
      exact hfailed e h
    | timedOut =>
      cases htimeout : config.requestTimeout with
      | true =>
        simp only [houtcome, htimeout, if_true] at h
        exact hfailed .timeout h
      | false =>
        simp only [houtcome, htimeout, Bool.false_eq_true, if_false] at h
        exact Option.some.inj h

end Run

/-! ### What is due -/

/-- The wait that is due behind a failure. -/
def RetryDelays.due (delays : RetryDelays) (attempt : ℕ) (e : ProviderError) : ℕ :=
  min delays.max (e.retryAfter.getD (delays.base * 2 ^ attempt))

/-- There are no more attempts than the retries allow, one follows another only behind a failure
that is not permanent while nothing is cancelled, and after the wait that is due; and an answer
comes. -/
structure RetriesAsDue (config : LoopConfig) (delays : RetryDelays) (tokens : Tokens)
    (attempts : List Attempt) (run : RetryRun) : Prop where
  bounded : run.attempts ≤ config.maxRetries + 1
  stops : ∀ i, i + 1 < run.attempts → ∃ a ∈ attempts[i]?,
    (a.retriable? config tokens).isSome ∧ a.backoffCancelled = false
  waits : ∀ i, i + 1 < run.attempts → ∃ a ∈ attempts[i]?, ∃ e ∈ a.failure? config,
    run.waits[i]? = some (delays.due i e)
  returns : run.result.isSome

/-- The base delay can be doubled so often and is still a duration. -/
def RetryDelays.InRange (delays : RetryDelays) (attempt : ℕ) : Prop :=
  attempt < 1024 ∧ 2 ^ attempt * asSecsF64 delays.base < 2 ^ 64

/-- The base delay is close enough to a double to be doubled so often, as far as the cap lets it
show. -/
def RetryDelays.Accurate (delays : RetryDelays) (attempt : ℕ) : Prop :=
  min delays.max (nearestNanos (2 ^ attempt * asSecsF64 delays.base)) =
    min delays.max (delays.base * 2 ^ attempt)

/-- Three roundings cost less than two last digits. -/
theorem abs_asSecsF64_sub_le (duration : ℕ) :
    |asSecsF64 duration - duration / 10 ^ 9| ≤ (duration / 10 ^ 9 : ℚ) / 2 ^ 51 := by
  set secs : ℚ := ((duration / 10 ^ 9 : ℕ) : ℚ) with hsecs
  set sub : ℚ := ((duration % 10 ^ 9 : ℕ) : ℚ) / 10 ^ 9 with hsub
  have hsplit : (duration : ℚ) / 10 ^ 9 = secs + sub := by
    have hdiv := congrArg (Nat.cast (R := ℚ)) (Nat.div_add_mod duration (10 ^ 9))
    rw [Nat.cast_add, Nat.cast_mul, Nat.cast_pow, Nat.cast_ofNat] at hdiv
    rw [← hdiv, add_div, mul_div_cancel_left₀ _ (by norm_num)]
  have hsecs0 : 0 ≤ secs := Nat.cast_nonneg _
  have hsub0 : 0 ≤ sub := div_nonneg (Nat.cast_nonneg _) (by norm_num)
  have hround₁ := abs_le.mp (Binary64.abs_round_sub_le hsecs0)
  have hround₂ := abs_le.mp (Binary64.abs_round_sub_le hsub0)
  have hsum0 : 0 ≤ Binary64.round secs + Binary64.round sub := by linarith
  have hround := abs_le.mp (Binary64.abs_round_sub_le hsum0)
  show |Binary64.round (Binary64.round secs + Binary64.round sub) - _| ≤ _
  rw [hsplit, abs_le]
  constructor <;> linarith

/-- Below a cap of thirteen days the doubles never show. -/
theorem accurate_of_max_lt {delays : RetryDelays} (h : delays.max < 2 ^ 50) (attempt : ℕ) :
    delays.Accurate attempt := by
  have hmax : (delays.max : ℚ) < 2 ^ 50 := by exact_mod_cast h
  have hnear : |2 ^ attempt * asSecsF64 delays.base * 10 ^ 9 -
      ((delays.base * 2 ^ attempt : ℕ) : ℚ)| ≤ ((delays.base * 2 ^ attempt : ℕ) : ℚ) / 2 ^ 51 := by
    have hscale : (0 : ℚ) ≤ 2 ^ attempt * 10 ^ 9 := by positivity
    rw [Nat.cast_mul, Nat.cast_pow, Nat.cast_ofNat]
    calc |2 ^ attempt * asSecsF64 delays.base * 10 ^ 9 - delays.base * 2 ^ attempt|
        = |2 ^ attempt * 10 ^ 9 * (asSecsF64 delays.base - delays.base / 10 ^ 9)| := by
          congr 1
          ring
      _ = 2 ^ attempt * 10 ^ 9 * |asSecsF64 delays.base - delays.base / 10 ^ 9| := by
          rw [abs_mul, abs_of_nonneg hscale]
      _ ≤ 2 ^ attempt * 10 ^ 9 * (delays.base / 10 ^ 9 / 2 ^ 51) :=
          mul_le_mul_of_nonneg_left (abs_asSecsF64_sub_le _) hscale
      _ = delays.base * 2 ^ attempt / 2 ^ 51 := by ring
  unfold RetryDelays.Accurate nearestNanos
  rcases lt_or_ge (delays.base * 2 ^ attempt) delays.max with hlt | hge
  · have hlt' : ((delays.base * 2 ^ attempt : ℕ) : ℚ) < 2 ^ 50 := by
      exact (Nat.cast_lt.mpr hlt).trans hmax
    have heq := Binary64.nearest_eq (q := 2 ^ attempt * asSecsF64 delays.base * 10 ^ 9)
      (n := ((delays.base * 2 ^ attempt : ℕ) : ℤ))
      (by rw [Int.cast_natCast]; exact hnear.trans_lt (by linarith))
    rw [heq, Int.toNat_natCast]
  · have hge' : (delays.max : ℚ) ≤ (delays.base * 2 ^ attempt : ℕ) := Nat.cast_le.mpr hge
    have hle : (delays.max : ℤ) ≤
        Binary64.nearest (2 ^ attempt * asSecsF64 delays.base * 10 ^ 9) := by
      refine Binary64.le_nearest ?_
      have hlow := (abs_le.mp hnear).1
      rw [Int.cast_natCast]
      linarith
    rw [min_eq_left hge, min_eq_left (by omega)]

theorem bmod_attempt {attempt : ℕ} (h : attempt ≤ 1024) :
    Int.bmod attempt (2 ^ 32) = attempt := by
  refine Int.bmod_eq_of_le ?_ ?_ <;> omega

theorem backoff_eq {delays : RetryDelays} {attempt : ℕ} (h : delays.InRange attempt)
    (e : ProviderError) : delays.backoff attempt e = some (min delays.max
      (e.retryAfter.getD (nearestNanos (2 ^ attempt * asSecsF64 delays.base)))) := by
  have hpowi : powi (Int.bmod attempt (2 ^ 32)) = some (2 ^ attempt) := by
    rw [bmod_attempt h.1.le, powi, if_neg (by have := h.1; omega), if_neg (by omega), zpow_natCast]
  unfold RetryDelays.backoff mulF64
  rw [hpowi, Option.bind_some, if_pos h.2, Option.map_some, min_comm]

theorem backoff_eq_none {delays : RetryDelays} {attempt : ℕ} (hle : attempt ≤ 1024)
    (h : ¬ delays.InRange attempt) (e : ProviderError) : delays.backoff attempt e = none := by
  unfold RetryDelays.backoff mulF64
  rw [bmod_attempt hle]
  rcases hle.lt_or_eq with hlt | rfl
  · have hpowi : powi attempt = some (2 ^ attempt) := by
      rw [powi, if_neg (by omega), if_neg (by omega), zpow_natCast]
    rw [hpowi, Option.bind_some, if_neg fun hrange => h ⟨hlt, hrange⟩]
    rfl
  · rfl

/-- The run of the code. -/
def timedRun (config : LoopConfig) (delays : RetryDelays) (tokens : Tokens)
    (attempts : List Attempt) : RetryRun :=
  retryRun config delays.backoff 0 tokens attempts

theorem getElem?_le {α : Type*} {l : List α} {i j : ℕ} {x : α} (h : l[i]? = some x) (hle : j ≤ i) :
    ∃ y, l[j]? = some y := by
  have hlt := (List.getElem?_eq_some_iff.mp h).1
  exact ⟨l[j], List.getElem?_eq_getElem (hle.trans_lt hlt)⟩

theorem timedRun_returns_iff (config : LoopConfig) (delays : RetryDelays) (tokens : Tokens)
    (attempts : List Attempt) : (timedRun config delays tokens attempts).result.isSome ↔
      ∀ i e cut, (waitedFailures config tokens 0 attempts)[i]? = some (e, cut) →
        delays.InRange i := by
  rw [← Option.ne_none_iff_isSome, Ne, timedRun, retryRun_result_eq_none_iff]
  constructor
  · intro h i e cut hmem
    by_contra hrange
    -- the factor is infinite at attempt 1024, which comes before all later ones
    obtain ⟨j, hji, hj, hrange⟩ : ∃ j ≤ i, j ≤ 1024 ∧ ¬ delays.InRange j := by
      by_cases hi : i ≤ 1024
      · exact ⟨i, le_rfl, hi, hrange⟩
      · exact ⟨1024, by omega, le_rfl, fun h => absurd h.1 (lt_irrefl _)⟩
    obtain ⟨⟨e', cut'⟩, hmem'⟩ := getElem?_le hmem hji
    exact h ⟨j, e', cut', hmem', by rw [Nat.zero_add]; exact backoff_eq_none hj hrange e'⟩
  · rintro h ⟨i, e, cut, hmem, hnone⟩
    rw [Nat.zero_add, backoff_eq (h i e cut hmem)] at hnone
    cases hnone

/-- Retries go as they are due exactly when the base delay can be doubled as often as there are
failures to wait behind, and, where `Retry-After` is not given, the doubles do not show. -/
theorem retriesAsDue_iff (config : LoopConfig) (delays : RetryDelays) (tokens : Tokens)
    (attempts : List Attempt) :
    RetriesAsDue config delays tokens attempts (timedRun config delays tokens attempts) ↔
      ∀ i e cut, (waitedFailures config tokens 0 attempts)[i]? = some (e, cut) →
        delays.InRange i ∧ (cut = false → e.retryAfter = none → delays.Accurate i) := by
  constructor
  · intro h i e cut hmem
    have hrange := (timedRun_returns_iff config delays tokens attempts).mp h.returns
    refine ⟨hrange i e cut hmem, ?_⟩
    rintro rfl hnone
    have hnext := retryRun_goesOn hmem (Option.ne_none_iff_isSome.mpr h.returns)
    obtain ⟨a, e', wait, ha, hretriable, -, hmem', hdelay, hwait⟩ := retryRun_waits hnext
    obtain ⟨rfl, -⟩ := Prod.mk.inj (Option.some.inj (hmem.symm.trans hmem'))
    obtain ⟨b, hb, e', he', hdue⟩ := h.waits i hnext
    obtain rfl := Option.some.inj (ha.symm.trans hb)
    obtain rfl := Option.some.inj ((Attempt.failure_of_retriable hretriable).symm.trans he')
    rw [Nat.zero_add, backoff_eq (hrange i e false hmem), hnone] at hdelay
    have heq := Option.some.inj (hdelay.trans (hwait.symm.trans hdue))
    rw [RetryDelays.due, hnone] at heq
    exact heq
  · intro h
    have hrange := fun i e cut hmem => (h i e cut hmem).1
    refine ⟨?_, fun i hi => ?_, fun i hi => ?_,
      (timedRun_returns_iff config delays tokens attempts).mpr hrange⟩
    · have hle := @retryRun_attempts_le config delays.backoff 0 tokens attempts (Nat.zero_le _)
      rwa [Nat.zero_add] at hle
    · obtain ⟨a, e, wait, ha, hretriable, hcut, -⟩ := retryRun_waits hi
      exact ⟨a, ha, by rw [hretriable]; rfl, hcut⟩
    · obtain ⟨a, e, wait, ha, hretriable, -, hmem, hdelay, hwait⟩ := retryRun_waits hi
      refine ⟨a, ha, e, Attempt.failure_of_retriable hretriable, ?_⟩
      obtain ⟨hin, haccurate⟩ := h i e false hmem
      rw [Nat.zero_add, backoff_eq hin] at hdelay
      refine hwait.trans (hdelay.symm.trans (congrArg some ?_))
      cases hafter : e.retryAfter with
      | some after => rw [RetryDelays.due, hafter, Option.getD_some, Option.getD_some]
      | none =>
        rw [RetryDelays.due, hafter, Option.getD_none, Option.getD_none]
        exact haccurate rfl hafter

/-- With the usual delays the wait behind attempt 65 is computed as `2 ^ 64` seconds, though the
cap would have made it thirty. -/
theorem retriesAsDue_panicked :
    ¬ ∀ (config : LoopConfig) (delays : RetryDelays) (tokens : Tokens) (attempts : List Attempt),
      RetriesAsDue config delays tokens attempts (timedRun config delays tokens attempts) := by
  intro h
  have hreturns := (h { LoopConfig.default with maxRetries := 66 } .default ⟨false, false⟩
    (List.replicate 66 ⟨.failed (.network "refused"), false, false⟩)).returns
  have hinrange := (timedRun_returns_iff _ _ _ _).mp hreturns 65 (.network "refused") false
    (by decide +kernel)
  exact absurd hinrange.2 (by decide +kernel)

end Guigu
