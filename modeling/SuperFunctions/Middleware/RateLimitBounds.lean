import SuperFunctions.Middleware.RateLimitAlgorithms

/-!
# What the algorithms admit

The evaluations that were stored under one key, the latest first. Where each of them was made on
the state that the one before it had stored, with a clock that had not gone back behind it, the
number of requests admitted is bounded.
-/
namespace SuperFunctions.Middleware.RateLimitBounds

open RateLimitAlgorithms List Nat Bool

/-- An evaluation that was stored: the clock it used, what it stored, whether it admitted. -/
structure Admission (algorithm : RateLimitAlgorithm) where
  now : Rat
  next : State algorithm
  charged : Bool

/-- The clock of a later evaluation has not gone back behind what was stored. -/
def Timely : (algorithm : RateLimitAlgorithm) → Admission algorithm → Rat → Prop
  | .slidingWindow, last, now => last.now ≤ now
  | .fixedWindow, last, now => last.next.windowStart ≤ now
  | .tokenBucket, last, now => last.now ≤ now

instance : (algorithm : RateLimitAlgorithm) → (last : Admission algorithm) → (now : Rat) →
    Decidable (Timely algorithm last now)
  | .slidingWindow, last, now => inferInstanceAs (Decidable (last.now ≤ now))
  | .fixedWindow, last, now => inferInstanceAs (Decidable (last.next.windowStart ≤ now))
  | .tokenBucket, last, now => inferInstanceAs (Decidable (last.now ≤ now))

variable {algorithm : RateLimitAlgorithm}

/-- Every evaluation was made on what stood there. -/
def History (windowMs limit : Rat) : List (Admission algorithm) → Prop
  | [] => True
  | a :: rest =>
    ((evaluate a.now windowMs limit true algorithm (rest.head?.map (·.next))).result.allowed =
        a.charged ∧
      ∃ ttlMs, (evaluate a.now windowMs limit true algorithm (rest.head?.map (·.next))).next =
        some (a.next, ttlMs)) ∧
    (∀ last, rest.head? = some last → Timely algorithm last a.now) ∧
    History windowMs limit rest

/-- When requests were admitted. -/
def charges (history : List (Admission algorithm)) : List Rat :=
  (history.filter (·.charged)).map (·.now)

/-- How many requests were admitted at the moments that `during` holds of. -/
def admitted (history : List (Admission algorithm)) (during : Rat → Bool) : Nat :=
  (charges history).countP during

theorem charges_cons (a : Admission algorithm) (rest : List (Admission algorithm)) :
    charges (a :: rest) = if a.charged then a.now :: charges rest else charges rest := by
  cases h : a.charged with
  | true | false => simp [charges, h]

theorem admitted_cons (a : Admission algorithm) (rest : List (Admission algorithm))
    (during : Rat → Bool) :
    admitted (a :: rest) during =
      admitted rest during + if a.charged && during a.now then 1 else 0 := by
  simp only [admitted, charges_cons]
  cases a.charged with
  | true => simp [countP_cons]
  | false => simp

variable {history : List (Admission algorithm)}

theorem admitted_mono {p q : Rat → Bool} (h : ∀ t ∈ charges history, p t = true → q t = true) :
    admitted history p ≤ admitted history q :=
  countP_mono_left h

theorem admitted_zero {p : Rat → Bool} (h : ∀ t ∈ charges history, p t = false) :
    admitted history p = 0 := by
  apply countP_eq_zero.mpr
  intro t ht
  simp [h t ht]

/-- What an algorithm promises: `n` requests from a window's start to its end, `n` requests at
moments that are less than a window apart, or `n + n * d / w` requests in any length `d`. -/
def Bounded (windowMs limit : Rat) : (algorithm : RateLimitAlgorithm) →
    List (Admission algorithm) → Prop
  | .fixedWindow, history => ∀ a ∈ history, (admitted history fun t =>
      a.next.windowStart ≤ t ∧ t < a.next.windowStart + windowMs : Rat) ≤ limit
  | .slidingWindow, history => ∀ during : Rat → Bool,
      (∀ s t, during s = true → during t = true → t - s < windowMs) →
      (admitted history during : Rat) ≤ limit
  | .tokenBucket, history => ∀ start d : Rat, 0 ≤ d → (admitted history fun t =>
      start ≤ t ∧ t ≤ start + d : Rat) ≤ limit + limit * d / windowMs

/-- A whole number of requests. -/
def Whole (limit : Rat) : Prop := ∃ n : Nat, limit = n

variable {limit : Rat}

theorem Whole.succ_le (h : Whole limit) {n : Nat} (hlt : (n : Rat) < limit) :
    ((n + 1 : Nat) : Rat) ≤ limit := by
  obtain ⟨m, hm⟩ := h
  subst hm
  have hnat : n < m := cast_lt.mp hlt
  exact cast_le.mpr hnat

/-! ## Fixed windows -/

variable {windowMs now : Rat} {charged : Bool}

theorem fixedWindow_next {stored : Option FixedWindowState} {next : FixedWindowState}
    (hallowed : (evaluateFixedWindow now windowMs limit true stored).result.allowed = charged)
    (hnext : ∃ ttlMs, (evaluateFixedWindow now windowMs limit true stored).next =
      some (next, ttlMs)) :
    (∃ last, stored = some last ∧ now < last.windowStart + windowMs ∧
      next.windowStart = last.windowStart ∧
      next.count = last.count + (if charged then 1 else 0) ∧
      (charged = true → (last.count : Rat) < limit)) ∨
    (∀ last, stored = some last → last.windowStart + windowMs ≤ now) ∧
      next.windowStart = now ∧ next.count = (if charged then 1 else 0) ∧
      (charged = true → 0 < limit) := by
  obtain ⟨ttlMs, hnext⟩ := hnext
  cases stored with
  | none =>
    refine .inr ⟨nofun, ?_⟩
    subst hallowed
    simp only [evaluateFixedWindow] at hnext ⊢
    cases hnext
    simp
  | some last =>
    by_cases hopen : now ≥ last.windowStart + windowMs
    · refine .inr ⟨fun l hl => by cases hl; exact hopen, ?_⟩
      subst hallowed
      simp only [evaluateFixedWindow, Option.getD_some, if_pos hopen] at hnext ⊢
      cases hnext
      simp
    · refine .inl ⟨last, rfl, not_le.mp hopen, ?_⟩
      subst hallowed
      simp only [evaluateFixedWindow, Option.getD_some, if_neg hopen] at hnext ⊢
      cases hnext
      simp only [Bool.and_true, decide_eq_true_eq]
      refine ⟨trivial, ?_, fun h => h⟩
      split <;> rfl

/-- Where a fixed window stands after `last`: everything admitted lies before its end, the
windows do not overlap, and its count is that of the requests since its start. -/
structure FixedInv (windowMs limit : Rat) (last : Admission .fixedWindow)
    (history : List (Admission .fixedWindow)) : Prop where
  before : ∀ t ∈ charges history, t < last.next.windowStart + windowMs
  apart : ∀ a ∈ history, a.next.windowStart = last.next.windowStart ∨
    a.next.windowStart + windowMs ≤ last.next.windowStart
  count : admitted history (fun t => last.next.windowStart ≤ t) = last.next.count
  within : (last.next.count : Rat) ≤ limit
  bounded : Bounded windowMs limit .fixedWindow history

variable {rest : List (Admission .fixedWindow)} {a : Admission .fixedWindow}

theorem FixedInv.first (hpos : 0 < windowMs) (hlimit : 0 ≤ limit) (hwhole : Whole limit)
    (hstart : a.next.windowStart = a.now) (hcount : a.next.count = if a.charged then 1 else 0)
    (hcharged : a.charged = true → 0 < limit) (hbefore : ∀ t ∈ charges rest, t < a.now)
    (hapart : ∀ b ∈ rest, b.next.windowStart + windowMs ≤ a.now)
    (hbounded : Bounded windowMs limit .fixedWindow rest) :
    FixedInv windowMs limit a (a :: rest) := by
  have hnone : ∀ p : Rat → Bool, (∀ t, p t = true → a.now ≤ t) → admitted rest p = 0 := by
    intro p hp
    apply admitted_zero
    intro t ht
    rw [eq_false_iff]
    intro htrue
    exact absurd (hp t htrue) (not_le.mpr (hbefore t ht))
  have hwithin : (a.next.count : Rat) ≤ limit := by
    rw [hcount]
    cases hc : a.charged with
    | true => simpa using hwhole.succ_le (n := 0) (by simpa using hcharged hc)
    | false => simpa using hlimit
  have hcounted : admitted (a :: rest) (fun t => a.next.windowStart ≤ t) = a.next.count := by
    rw [admitted_cons, hnone _ fun t ht => by rw [← hstart]; exact of_decide_eq_true ht, hcount,
      hstart]
    simp
  refine ⟨fun t ht => ?_, fun b hb => ?_, hcounted, hwithin, fun b hb => ?_⟩
  · rw [hstart]
    rw [charges_cons] at ht
    split at ht
    · rcases mem_cons.mp ht with hnew | hold
      · linarith
      · linarith [hbefore t hold]
    · linarith [hbefore t ht]
  · rcases mem_cons.mp hb with hnew | hold
    · exact .inl (congrArg (·.next.windowStart) hnew)
    · exact .inr (hstart ▸ hapart b hold)
  rcases mem_cons.mp hb with hnew | hold
  · subst hnew
    refine le_trans (cast_le.mpr ?_) hwithin
    rw [← hcounted]
    apply admitted_mono
    intro t _ ht
    exact decide_eq_true (of_decide_eq_true ht).1
  · refine le_trans (cast_le.mpr ?_) (hbounded b hold)
    rw [admitted_cons, if_neg]
    · omega
    · intro hin
      have hwindow := of_decide_eq_true (and_eq_true_iff.mp hin).2
      have hend := hapart b hold
      linarith [hwindow.2]

theorem FixedInv.next {last : Admission .fixedWindow} (hwhole : Whole limit)
    (h : FixedInv windowMs limit last rest) (htimely : last.next.windowStart ≤ a.now)
    (hnow : a.now < last.next.windowStart + windowMs)
    (hstart : a.next.windowStart = last.next.windowStart)
    (hcount : a.next.count = last.next.count + (if a.charged then 1 else 0))
    (hcharged : a.charged = true → (last.next.count : Rat) < limit) :
    FixedInv windowMs limit a (a :: rest) := by
  have hwithin : (a.next.count : Rat) ≤ limit := by
    rw [hcount]
    cases hc : a.charged with
    | true => exact hwhole.succ_le (hcharged hc)
    | false => exact h.within
  have hcounted : admitted (a :: rest) (fun t => a.next.windowStart ≤ t) = a.next.count := by
    rw [admitted_cons, hstart, h.count, hcount]
    simp [htimely]
  refine ⟨fun t ht => ?_, fun b hb => ?_, hcounted, hwithin, fun b hb => ?_⟩
  · rw [hstart]
    rw [charges_cons] at ht
    split at ht
    · rcases mem_cons.mp ht with hnew | hold
      · exact hnew ▸ hnow
      · exact h.before t hold
    · exact h.before t ht
  · rw [hstart]
    rcases mem_cons.mp hb with hnew | hold
    · exact .inl (hnew ▸ hstart)
    · exact h.apart b hold
  · have hsame : ∀ b : Admission .fixedWindow, b.next.windowStart = last.next.windowStart →
        (admitted (a :: rest) (fun t => b.next.windowStart ≤ t ∧
          t < b.next.windowStart + windowMs) : Rat) ≤ limit := by
      intro b hb
      refine le_trans (cast_le.mpr ?_) hwithin
      rw [← hcounted]
      apply admitted_mono
      intro t _ ht
      rw [hstart, ← hb]
      exact decide_eq_true (of_decide_eq_true ht).1
    rcases mem_cons.mp hb with hnew | hold
    · exact hsame b (hnew ▸ hstart)
    rcases h.apart b hold with heq | hbefore
    · exact hsame b heq
    refine le_trans (cast_le.mpr ?_) (h.bounded b hold)
    rw [admitted_cons, if_neg]
    · omega
    · intro hin
      have hwindow := of_decide_eq_true (and_eq_true_iff.mp hin).2
      linarith [hwindow.2]

theorem fixedInv_of_history (hpos : 0 < windowMs) (hlimit : 0 ≤ limit) (hwhole : Whole limit)
    (h : History windowMs limit (a :: rest)) : FixedInv windowMs limit a (a :: rest) := by
  induction rest generalizing a with
  | nil =>
    obtain ⟨⟨hallowed, hnext⟩, -, -⟩ := h
    rcases fixedWindow_next hallowed hnext with ⟨last, hlast, -⟩ | ⟨-, hstart, hcount, hcharged⟩
    · cases hlast
    · exact FixedInv.first hpos hlimit hwhole hstart hcount hcharged
        (fun t ht => (not_mem_nil ht).elim) (fun b hb => (not_mem_nil hb).elim)
        fun b hb => (not_mem_nil hb).elim
  | cons last rest ih =>
    obtain ⟨⟨hallowed, hnext⟩, htimely, hrest⟩ := h
    have hinv := ih hrest
    rcases fixedWindow_next hallowed hnext with
      ⟨l, hlast, hnow, hstart, hcount, hcharged⟩ | ⟨hopen, hstart, hcount, hcharged⟩
    · cases hlast
      exact FixedInv.next hwhole hinv (htimely last rfl) hnow hstart hcount hcharged
    have hend := hopen last.next rfl
    apply FixedInv.first hpos hlimit hwhole hstart hcount hcharged
    · intro t ht
      exact lt_of_lt_of_le (hinv.before t ht) hend
    · intro b hb
      rcases hinv.apart b hb with heq | hbefore
      · rwa [heq]
      · linarith
    · exact hinv.bounded

/-! ## Sliding windows -/

theorem slidingWindow_next {stored : Option SlidingWindowState} {next : SlidingWindowState}
    (hallowed : (evaluateSlidingWindow now windowMs limit true stored).result.allowed = charged)
    (hnext : ∃ ttlMs, (evaluateSlidingWindow now windowMs limit true stored).next =
      some (next, ttlMs)) :
    ∃ kept, kept = ((stored.map (·.timestamps)).getD []).filter (fun t => t > now - windowMs) ∧
      next.timestamps = kept ++ (if charged then [now] else []) ∧
      (charged = true → (kept.length : Rat) < limit) := by
  obtain ⟨ttlMs, hnext⟩ := hnext
  refine ⟨_, rfl, ?_⟩
  subst hallowed
  simp only [evaluateSlidingWindow] at hnext ⊢
  cases hnext
  have hstored : (stored.getD { timestamps := [], expiresAt := none }).timestamps =
      (stored.map (·.timestamps)).getD [] := by
    cases stored with
    | none => rfl
    | some s => rfl
  rw [hstored]
  refine ⟨?_, fun h => of_decide_eq_true h⟩
  split <;> simp_all

/-- What a sliding window has kept after `last`: nothing lies ahead of its clock, and of what is
less than a window old at any later moment it has lost nothing. -/
structure SlidingInv (windowMs limit : Rat) (last : Admission .slidingWindow)
    (history : List (Admission .slidingWindow)) : Prop where
  before : ∀ t ∈ charges history, t ≤ last.now
  kept : ∀ now, last.now ≤ now → admitted history (fun t => t > now - windowMs) =
    last.next.timestamps.countP (fun t => t > now - windowMs)
  bounded : Bounded windowMs limit .slidingWindow history

variable {rest : List (Admission .slidingWindow)} {a : Admission .slidingWindow}

theorem SlidingInv.next {timestamps : List Rat} (hwhole : Whole limit)
    (hbefore : ∀ t ∈ charges rest, t ≤ a.now)
    (hkept : ∀ now, a.now ≤ now → admitted rest (fun t => t > now - windowMs) =
      timestamps.countP (fun t => t > now - windowMs))
    (hbounded : Bounded windowMs limit .slidingWindow rest) (hnext : a.next.timestamps =
      timestamps.filter (fun t => t > a.now - windowMs) ++ (if a.charged then [a.now] else []))
    (hcharged : a.charged = true →
      ((timestamps.filter (fun t => t > a.now - windowMs)).length : Rat) < limit) :
    SlidingInv windowMs limit a (a :: rest) := by
  refine ⟨fun t ht => ?_, fun now hnow => ?_, fun during hduring => ?_⟩
  · rw [charges_cons] at ht
    split at ht
    · rcases mem_cons.mp ht with hnew | hold
      · exact le_of_eq hnew
      · exact hbefore t hold
    · exact hbefore t ht
  · have hfilter : (timestamps.filter (fun t => decide (t > a.now - windowMs))).countP
        (fun t => decide (t > now - windowMs)) =
        timestamps.countP (fun t => decide (t > now - windowMs)) := by
      rw [countP_filter]
      apply countP_congr
      intro t _
      have hle : a.now - windowMs ≤ now - windowMs := by linarith
      simp only [and_eq_true, decide_eq_true_eq]
      exact ⟨fun h => h.1, fun h => ⟨h, lt_of_le_of_lt hle h⟩⟩
    rw [admitted_cons, hkept now hnow, hnext, countP_append, hfilter]
    cases a.charged with
    | true => simp [countP_cons]
    | false => simp
  · rw [admitted_cons]
    by_cases hin : (a.charged && during a.now) = true
    · rw [if_pos hin]
      obtain ⟨hc, hnow⟩ := and_eq_true_iff.mp hin
      -- whatever shares the interval with `now` is less than a window older
      have hcounted : admitted rest during ≤
          (timestamps.filter (fun t => t > a.now - windowMs)).length := by
        rw [← countP_eq_length_filter, ← hkept a.now le_rfl]
        apply admitted_mono
        intro t _ ht
        have hclose := hduring t a.now ht hnow
        exact decide_eq_true (by linarith)
      have hsucc := hwhole.succ_le (hcharged hc)
      exact le_trans (cast_le.mpr (succ_le_succ hcounted)) hsucc
    · rw [if_neg hin]
      exact hbounded during hduring

theorem slidingInv_of_history (hlimit : 0 ≤ limit) (hwhole : Whole limit)
    (h : History windowMs limit (a :: rest)) : SlidingInv windowMs limit a (a :: rest) := by
  induction rest generalizing a with
  | nil =>
    obtain ⟨⟨hallowed, hnext⟩, -, -⟩ := h
    obtain ⟨kept, hkept, htimestamps, hcharged⟩ := slidingWindow_next hallowed hnext
    subst hkept
    exact SlidingInv.next hwhole (fun t ht => (not_mem_nil ht).elim) (fun _ _ => rfl)
      (fun _ _ => hlimit) htimestamps hcharged
  | cons last rest ih =>
    obtain ⟨⟨hallowed, hnext⟩, htimely, hrest⟩ := h
    have hinv := ih hrest
    have hle : last.now ≤ a.now := htimely last rfl
    obtain ⟨kept, hkept, htimestamps, hcharged⟩ := slidingWindow_next hallowed hnext
    subst hkept
    apply SlidingInv.next hwhole _ _ hinv.bounded htimestamps hcharged
    · intro t ht
      exact le_trans (hinv.before t ht) hle
    · intro now hnow
      exact hinv.kept now (le_trans hle hnow)

/-! ## Token buckets -/

theorem tokenBucket_next {stored : Option TokenBucketState} {next : TokenBucketState}
    (hallowed : (evaluateTokenBucket now windowMs limit true stored).result.allowed = charged)
    (hnext : ∃ ttlMs, (evaluateTokenBucket now windowMs limit true stored).next =
      some (next, ttlMs)) :
    ∃ state, state = stored.getD { tokens := limit, lastRefill := now, expiresAt := none } ∧
      0 < limit ∧ (charged = true → 0 ≤ next.tokens) ∧
      next.tokens + (if charged then 1 else 0) =
        min limit (state.tokens + max 0 (now - state.lastRefill) * (limit / windowMs)) ∧
      next.lastRefill = now := by
  obtain ⟨ttlMs, hnext⟩ := hnext
  refine ⟨_, rfl, ?_⟩
  by_cases hlimit : limit ≤ 0
  · simp [evaluateTokenBucket, hlimit] at hnext
  simp only [evaluateTokenBucket, if_neg hlimit, if_true, Bool.and_true] at hallowed hnext
  generalize stored.getD { tokens := limit, lastRefill := now, expiresAt := none } = state at *
  obtain ⟨tokens, htokens⟩ : ∃ tokens, tokens = min limit
    (state.tokens + max 0 (now - state.lastRefill) * (limit / windowMs)) := ⟨_, rfl⟩
  rw [← htokens] at hallowed hnext ⊢
  rw [hallowed] at hnext
  cases hnext
  cases charged with
  | true =>
    have hone : 1 ≤ tokens := of_decide_eq_true hallowed
    simpa using ⟨not_le.mp hlimit, hone⟩
  | false => simpa using not_le.mp hlimit

/-- What a bucket still holds after `last` has not been handed out: from any start on, at most
what it could hold and what has flowed in since, less what it holds. -/
structure BucketInv (windowMs limit : Rat) (last : Admission .tokenBucket)
    (history : List (Admission .tokenBucket)) : Prop where
  refilled : last.next.lastRefill = last.now
  nonneg : 0 ≤ last.next.tokens
  before : ∀ t ∈ charges history, t ≤ last.now
  handed : ∀ start, start ≤ last.now → (admitted history (fun t => start ≤ t) : Rat) ≤
    limit + (last.now - start) * (limit / windowMs) - last.next.tokens
  bounded : Bounded windowMs limit .tokenBucket history

variable {rest : List (Admission .tokenBucket)} {a : Admission .tokenBucket}

theorem BucketInv.next (hrate : 0 ≤ limit / windowMs) (hbefore : ∀ t ∈ charges rest, t ≤ a.now)
    (hrefill : a.next.lastRefill = a.now) (hnonneg : 0 ≤ a.next.tokens)
    (hhanded : ∀ start, start ≤ a.now →
      (admitted rest (fun t => start ≤ t) : Rat) + (if a.charged then 1 else 0) ≤
        limit + (a.now - start) * (limit / windowMs) - a.next.tokens)
    (hbounded : Bounded windowMs limit .tokenBucket rest) :
    BucketInv windowMs limit a (a :: rest) := by
  have hall : ∀ start, start ≤ a.now → (admitted (a :: rest) (fun t => start ≤ t) : Rat) ≤
      limit + (a.now - start) * (limit / windowMs) - a.next.tokens := by
    intro start hstart
    have hcount : (admitted (a :: rest) (fun t => start ≤ t) : Rat) =
        admitted rest (fun t => start ≤ t) + if a.charged then 1 else 0 := by
      rw [admitted_cons]
      cases a.charged with
      | true => simp [hstart]
      | false => simp
    rw [hcount]
    exact hhanded start hstart
  refine ⟨hrefill, hnonneg, fun t ht => ?_, hall, fun start d hd => ?_⟩
  · rw [charges_cons] at ht
    split at ht
    · rcases mem_cons.mp ht with hnew | hold
      · exact le_of_eq hnew
      · exact hbefore t hold
    · exact hbefore t ht
  · by_cases hin : start ≤ a.now ∧ a.now ≤ start + d
    · have hmost := hall start hin.1
      have hle : admitted (a :: rest) (fun t => start ≤ t ∧ t ≤ start + d) ≤
          admitted (a :: rest) (fun t => start ≤ t) := by
        apply admitted_mono
        intro t _ ht
        exact decide_eq_true (of_decide_eq_true ht).1
      have hcast : (admitted (a :: rest) (fun t => start ≤ t ∧ t ≤ start + d) : Rat) ≤
          admitted (a :: rest) (fun t => start ≤ t) := cast_le.mpr hle
      have hflow : (a.now - start) * (limit / windowMs) ≤ d * (limit / windowMs) := by
        apply mul_le_mul_of_nonneg_right _ hrate
        linarith [hin.2]
      have hsplit : limit * d / windowMs = d * (limit / windowMs) := by ring
      linarith
    · refine le_trans (cast_le.mpr ?_) (hbounded start d hd)
      rw [admitted_cons, if_neg]
      · omega
      · intro hboth
        exact hin (of_decide_eq_true (and_eq_true_iff.mp hboth).2)

theorem bucketInv_of_history (hpos : 0 < windowMs) (hlimit : 0 ≤ limit)
    (h : History windowMs limit (a :: rest)) : BucketInv windowMs limit a (a :: rest) := by
  have hrate : 0 ≤ limit / windowMs := div_nonneg hlimit hpos.le
  have hflow : ∀ start now : Rat, start ≤ now → 0 ≤ (now - start) * (limit / windowMs) :=
    fun start now hle => mul_nonneg (by linarith) hrate
  induction rest generalizing a with
  | nil =>
    obtain ⟨⟨hallowed, hnext⟩, -, -⟩ := h
    obtain ⟨state, hstate, hlimit', hcharged, htokens, hrefill⟩ := tokenBucket_next hallowed hnext
    subst hstate
    have hfull : a.next.tokens + (if a.charged then 1 else 0) = limit := by simpa using htokens
    apply BucketInv.next hrate (fun t ht => (not_mem_nil ht).elim) hrefill
    · cases hc : a.charged with
      | true => exact hcharged hc
      | false =>
        rw [hc] at hfull
        simp only [false_eq_true, if_false, add_zero] at hfull
        linarith
    · intro start hstart
      have hmore := hflow start a.now hstart
      show ((0 : Nat) : Rat) + (if a.charged then 1 else 0) ≤ _
      linarith
    · intro start d hd
      have hmore : 0 ≤ limit * d / windowMs := div_nonneg (mul_nonneg hlimit hd) hpos.le
      show ((0 : Nat) : Rat) ≤ _
      linarith
  | cons last rest ih =>
    obtain ⟨⟨hallowed, hnext⟩, htimely, hrest⟩ := h
    have hinv := ih hrest
    have hle : last.now ≤ a.now := htimely last rfl
    obtain ⟨state, hstate, hlimit', hcharged, htokens, hrefill⟩ := tokenBucket_next hallowed hnext
    have hlast : state = last.next := hstate
    subst hlast
    rw [hinv.refilled, max_eq_right (by linarith)] at htokens
    have hfull := le_of_eq_of_le htokens (min_le_left _ _)
    have hpoured := le_of_eq_of_le htokens (min_le_right _ _)
    have hin := hflow last.now a.now hle
    apply BucketInv.next hrate _ hrefill _ _ hinv.bounded
    · intro t ht
      exact le_trans (hinv.before t ht) hle
    · cases hc : a.charged with
      | true => exact hcharged hc
      | false =>
        rw [hc] at htokens
        simp only [false_eq_true, if_false, add_zero] at htokens
        rw [htokens]
        exact le_min hlimit (add_nonneg hinv.nonneg hin)
    · intro start hstart
      by_cases hbefore : start ≤ last.now
      · have hearlier := hinv.handed start hbefore
        have hsplit : (a.now - start) * (limit / windowMs) =
            (a.now - last.now) * (limit / windowMs) +
              (last.now - start) * (limit / windowMs) := by ring
        rw [hsplit]
        linarith
      · have hnone : admitted (last :: rest) (fun t => start ≤ t) = 0 := by
          apply admitted_zero
          intro t ht
          exact decide_eq_false fun hge => hbefore (le_trans hge (hinv.before t ht))
        have hmore := hflow start a.now hstart
        rw [hnone, cast_zero]
        linarith

/-! ## All three -/

/-- Requests for which the bound is to hold: a whole limit, unless tokens are counted. -/
def Countable (algorithm : RateLimitAlgorithm) (limit : Rat) : Prop :=
  algorithm = .tokenBucket ∨ Whole limit

theorem bounded_of_history (hpos : 0 < windowMs) (hlimit : 0 ≤ limit)
    (hcountable : Countable algorithm limit) (h : History windowMs limit history) :
    Bounded windowMs limit algorithm history := by
  cases algorithm with
  | slidingWindow =>
    have hwhole := hcountable.resolve_left nofun
    cases history with
    | nil => exact fun _ _ => hlimit
    | cons a rest => exact (slidingInv_of_history hlimit hwhole h).bounded
  | fixedWindow =>
    have hwhole := hcountable.resolve_left nofun
    cases history with
    | nil => exact fun a ha => (not_mem_nil ha).elim
    | cons a rest => exact (fixedInv_of_history hpos hlimit hwhole h).bounded
  | tokenBucket =>
    cases history with
    | nil =>
      intro start d hd
      have hmore : 0 ≤ limit * d / windowMs := div_nonneg (mul_nonneg hlimit hd) hpos.le
      show ((0 : Nat) : Rat) ≤ _
      linarith
    | cons a rest => exact (bucketInv_of_history hpos hlimit h).bounded

end SuperFunctions.Middleware.RateLimitBounds
