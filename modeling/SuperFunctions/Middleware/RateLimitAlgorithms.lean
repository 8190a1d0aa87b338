import Mathlib.Data.Rat.Floor

/-!
# What a rate limiter keeps under a key

`evaluateState` for each of the three algorithms, over exact rationals. All times are
milliseconds.
-/
namespace SuperFunctions.Middleware.RateLimitAlgorithms

inductive RateLimitAlgorithm
  | slidingWindow
  | fixedWindow
  | tokenBucket

inductive RateLimitError
  | windowInvalid
  | limitInvalid
  | atomicContention

def RateLimitError.message : RateLimitError → String
  | .windowInvalid => "RATE_LIMIT_WINDOW_INVALID"
  | .limitInvalid => "RATE_LIMIT_LIMIT_INVALID"
  | .atomicContention => "RATE_LIMIT_ATOMIC_CONTENTION"

structure RateLimitResult where
  allowed : Bool
  remaining : Rat
  resetAt : Rat
  total : Rat

structure FixedWindowState where
  count : Nat
  windowStart : Rat
  expiresAt : Option Rat
deriving DecidableEq

structure SlidingWindowState where
  timestamps : List Rat
  expiresAt : Option Rat
deriving DecidableEq

structure TokenBucketState where
  tokens : Rat
  lastRefill : Rat
  expiresAt : Option Rat
deriving DecidableEq

/-- What an algorithm stores under a key. -/
@[reducible] def State : RateLimitAlgorithm → Type
  | .slidingWindow => SlidingWindowState
  | .fixedWindow => FixedWindowState
  | .tokenBucket => TokenBucketState

instance : (algorithm : RateLimitAlgorithm) → DecidableEq (State algorithm)
  | .slidingWindow => inferInstanceAs (DecidableEq SlidingWindowState)
  | .fixedWindow => inferInstanceAs (DecidableEq FixedWindowState)
  | .tokenBucket => inferInstanceAs (DecidableEq TokenBucketState)

/-- The result, and with `commit` the state to store and its `ttlMs`. -/
structure Evaluation (S : Type) where
  result : RateLimitResult
  next : Option (S × Rat)

section Algorithms

variable (now windowMs limit : Rat) (commit : Bool)

def evaluateSlidingWindow (stored : Option SlidingWindowState) : Evaluation SlidingWindowState :=
  let state := stored.getD { timestamps := [], expiresAt := none }
  let kept := state.timestamps.filter fun timestamp => timestamp > now - windowMs
  let allowed := decide ((kept.length : Rat) < limit)
  let timestamps := if allowed && commit then kept ++ [now] else kept
  let resetAt := timestamps.head?.getD now + windowMs
  { result := {
      allowed
      remaining := max 0 (limit - timestamps.length)
      resetAt
      total := limit }
    next := if commit then
      some ({ timestamps, expiresAt := some resetAt }, max 1 (resetAt - now)) else none }

def evaluateTokenBucket (stored : Option TokenBucketState) : Evaluation TokenBucketState :=
  if limit ≤ 0 then
    { result := { allowed := false, remaining := 0, resetAt := now + max 0 windowMs, total := limit }
      next := none }
  else
    let refillRatePerMs := limit / windowMs
    let state := stored.getD { tokens := limit, lastRefill := now, expiresAt := none }
    let elapsed := max 0 (now - state.lastRefill)
    let tokens := min limit (state.tokens + elapsed * refillRatePerMs)
    let allowed := decide (tokens ≥ 1)
    let nextTokens := if allowed && commit then tokens - 1 else tokens
    let msUntilNextToken : Rat :=
      if nextTokens ≥ 1 then 0 else ⌈(1 - nextTokens) / refillRatePerMs⌉
    let msUntilFull : Rat := ⌈(limit - nextTokens) / refillRatePerMs⌉
    { result := {
        allowed
        remaining := max 0 (⌊nextTokens⌋ : Rat)
        resetAt := now + msUntilNextToken
        total := limit }
      next := if commit then
        some ({ tokens := nextTokens, lastRefill := now,
                expiresAt := some (now + max 1 msUntilFull) }, max 1 msUntilFull) else none }

def evaluateFixedWindow (stored : Option FixedWindowState) : Evaluation FixedWindowState :=
  let state := stored.getD { count := 0, windowStart := now, expiresAt := none }
  let windowState : FixedWindowState :=
    if now ≥ state.windowStart + windowMs then
      { count := 0, windowStart := now, expiresAt := none } else state
  let allowed := decide ((windowState.count : Rat) < limit)
  let count := if allowed && commit then windowState.count + 1 else windowState.count
  let resetAt := windowState.windowStart + windowMs
  { result := {
      allowed
      remaining := max 0 (limit - count)
      resetAt
      total := limit }
    next := if commit then
      some ({ windowState with count, expiresAt := some resetAt }, max 1 (resetAt - now)) else none }

/-- The part of `evaluateState` after its checks. -/
def evaluate : (algorithm : RateLimitAlgorithm) → Option (State algorithm) →
    Evaluation (State algorithm)
  | .slidingWindow => evaluateSlidingWindow now windowMs limit commit
  | .fixedWindow => evaluateFixedWindow now windowMs limit commit
  | .tokenBucket => evaluateTokenBucket now windowMs limit commit

def evaluateState (algorithm : RateLimitAlgorithm) (stored : Option (State algorithm)) :
    Except RateLimitError (Evaluation (State algorithm)) :=
  if windowMs ≤ 0 then .error .windowInvalid
  else if limit < 0 then .error .limitInvalid
  else .ok (evaluate now windowMs limit commit algorithm stored)

end Algorithms

variable {algorithm : RateLimitAlgorithm} {windowMs limit now : Rat}
  {stored : Option (State algorithm)} {commit : Bool}

theorem evaluateState_ok {evaluation : Evaluation (State algorithm)}
    (h : evaluateState now windowMs limit commit algorithm stored = .ok evaluation) :
    0 < windowMs ∧ 0 ≤ limit ∧ evaluate now windowMs limit commit algorithm stored = evaluation := by
  simp only [evaluateState] at h
  split_ifs at h with hwindow hlimit
  cases h
  exact ⟨not_le.mp hwindow, not_lt.mp hlimit, rfl⟩

theorem evaluate_allowed (algorithm : RateLimitAlgorithm) (stored : Option (State algorithm))
    (now windowMs limit : Rat) (commit : Bool) :
    (evaluate now windowMs limit commit algorithm stored).result.allowed =
      (evaluate now windowMs limit true algorithm stored).result.allowed := by
  cases algorithm with
  | slidingWindow => rfl
  | fixedWindow => rfl
  | tokenBucket =>
    by_cases hlimit : limit ≤ 0
    · simp only [evaluate, evaluateTokenBucket, if_pos hlimit]
    · simp only [evaluate, evaluateTokenBucket, if_neg hlimit]

variable {state : State algorithm}

theorem evaluate_allowed_none
    (h : (evaluate now windowMs limit commit algorithm (some state)).result.allowed = true) :
    (evaluate now windowMs limit commit algorithm none).result.allowed = true := by
  cases algorithm with
  | slidingWindow =>
    have hkept := of_decide_eq_true h
    have hpos : (0 : Rat) < limit := lt_of_le_of_lt (Nat.cast_nonneg _) hkept
    simpa [evaluate, evaluateSlidingWindow] using hpos
  | fixedWindow =>
    have hcount := of_decide_eq_true h
    have hpos : (0 : Rat) < limit := lt_of_le_of_lt (Nat.cast_nonneg _) hcount
    simpa [evaluate, evaluateFixedWindow] using hpos
  | tokenBucket =>
    by_cases hlimit : limit ≤ 0
    · simp [evaluate, evaluateTokenBucket, hlimit] at h
    simp only [evaluate, evaluateTokenBucket, if_neg hlimit] at h ⊢
    have htokens := of_decide_eq_true h
    have hone : 1 ≤ limit := le_trans htokens (min_le_left _ _)
    simpa using hone

theorem evaluate_allowed_next
    (h : (evaluate now windowMs limit true algorithm stored).result.allowed = true) :
    ∃ next, (evaluate now windowMs limit true algorithm stored).next = some next := by
  cases algorithm with
  | slidingWindow | fixedWindow => exact ⟨_, rfl⟩
  | tokenBucket =>
    by_cases hlimit : limit ≤ 0
    · simp [evaluate, evaluateTokenBucket, hlimit] at h
    simp only [evaluate, evaluateTokenBucket, if_neg hlimit]
    exact ⟨_, rfl⟩

/-- A state that counts for nothing any more: its requests are a window old, its window is over,
or its bucket is full again. -/
def Spent (now windowMs limit : Rat) : (algorithm : RateLimitAlgorithm) → State algorithm → Prop
  | .slidingWindow, state => ∀ timestamp ∈ state.timestamps, timestamp ≤ now - windowMs
  | .fixedWindow, state => state.windowStart + windowMs ≤ now
  | .tokenBucket, state =>
      limit ≤ state.tokens + max 0 (now - state.lastRefill) * (limit / windowMs)

instance (now windowMs limit : Rat) : (algorithm : RateLimitAlgorithm) →
    (state : State algorithm) → Decidable (Spent now windowMs limit algorithm state)
  | .slidingWindow, state =>
      inferInstanceAs (Decidable (∀ timestamp ∈ state.timestamps, timestamp ≤ now - windowMs))
  | .fixedWindow, state => inferInstanceAs (Decidable (state.windowStart + windowMs ≤ now))
  | .tokenBucket, state => inferInstanceAs (Decidable
      (limit ≤ state.tokens + max 0 (now - state.lastRefill) * (limit / windowMs)))

theorem evaluate_spent (commit : Bool) (h : Spent now windowMs limit algorithm state) :
    evaluate now windowMs limit commit algorithm (some state) =
      evaluate now windowMs limit commit algorithm none := by
  cases algorithm with
  | slidingWindow =>
    have hkept : state.timestamps.filter (fun timestamp => timestamp > now - windowMs) = [] := by
      apply List.filter_eq_nil_iff.mpr
      intro timestamp hmem
      simpa using h timestamp hmem
    simp only [evaluate, evaluateSlidingWindow, Option.getD_some, hkept]
    rfl
  | fixedWindow =>
    have hover : now ≥ state.windowStart + windowMs := h
    simp only [evaluate, evaluateFixedWindow, Option.getD_some, if_pos hover]
    simp
  | tokenBucket =>
    have hfull : min limit (state.tokens + max 0 (now - state.lastRefill) * (limit / windowMs)) =
        limit := min_eq_left h
    simp only [evaluate, evaluateTokenBucket, Option.getD_some, hfull]
    simp

end SuperFunctions.Middleware.RateLimitAlgorithms
