import Mathlib.Data.Rat.Floor
import SuperFunctions.Lib.OrderedMap

/-!
# The in-process rate limiter

A check counts against the window it falls in, in the local table or in the atomic store. In both a
counter outlives its window, so the counts of one window are one, two and so on.
-/

namespace SuperFunctions.Authfn.RateLimit

open Lib.OrderedMap Lib.KeyedTables List Option OMap Function

structure RateLimitCheck (Scope : Type) where
  scope : Scope
  key : String
  limit : Nat

/-- What the text of a counter's key names: neither a scope nor a window id has a colon. -/
structure WindowKey (Scope : Type) where
  scope : Scope
  key : String
  windowId : Int
deriving DecidableEq

structure Counter where
  count : Nat
  expiresAt : ℚ

structure LocalRateLimitState (K : Type) where
  windows : OMap K Counter
  incrementCount : Nat

section Local

variable {K : Type}

def MAX_LOCAL_RATE_LIMIT_WINDOWS : Nat := 10000

def LOCAL_SWEEP_INTERVAL : Nat := 128

def sweepExpiredLocalWindows (state : LocalRateLimitState K) (now : ℚ) : LocalRateLimitState K :=
  { state with windows := state.windows.filterEntries fun e => now < e.2.expiresAt }

/-- The state that the branches of `incrementLocal` start from. -/
def counted (state : LocalRateLimitState K) (now : ℚ) : LocalRateLimitState K :=
  let state := { state with incrementCount := state.incrementCount + 1 }
  if state.incrementCount % LOCAL_SWEEP_INTERVAL = 0 then sweepExpiredLocalWindows state now
  else state

/-- Whether the table has no room for another window. -/
def full (state : LocalRateLimitState K) : Bool :=
  MAX_LOCAL_RATE_LIMIT_WINDOWS ≤ state.windows.entries.length

/-- The count; `none` is `Number.POSITIVE_INFINITY`. -/
def incrementLocal [DecidableEq K] (state : LocalRateLimitState K) (key : K)
    (windowSeconds now : ℚ) : LocalRateLimitState K × Option Nat :=
  let state := counted state now
  let start (state : LocalRateLimitState K) := ({ state with
    windows := state.windows.set key ⟨1, now + windowSeconds * 1000⟩ }, some 1)
  match state.windows.get key with
  | some existing =>
    if existing.expiresAt ≤ now then start state
    else ({ state with
        windows := state.windows.set key { existing with count := existing.count + 1 } },
      some (existing.count + 1))
  | none =>
    if full state then
      let state := sweepExpiredLocalWindows state now
      if full state then (state, none) else start state
    else start state

end Local

/-! ## Stores of counters -/

/-- Only expired counters have gone. -/
def Swept {K : Type} (now : ℚ) (before after : K → Option Counter) : Prop :=
  ∀ k, after k = before k ∨ after k = none ∧ ∀ c, before k = some c → c.expiresAt ≤ now

theorem Swept.trans {K : Type} {now : ℚ} {a b c : K → Option Counter} (h : Swept now a b)
    (h' : Swept now b c) : Swept now a c := by
  intro k
  rcases h' k with hsame | ⟨hnone, hexpired⟩
  · rw [hsame]
    exact h k
  · rcases h k with hold | ⟨-, hbefore⟩
    · exact .inr ⟨hnone, hold ▸ hexpired⟩
    · exact .inr ⟨hnone, hbefore⟩

/-- What counting under a key does to the counters: one of them goes on, or starts again with time
to live, or there is no room for it. -/
def Counts {K : Type} [DecidableEq K] (key : K) (ttlSeconds now : ℚ)
    (before after : K → Option Counter) (count : Option Nat) : Prop :=
  ∃ swept, Swept now before swept ∧
    ((∃ d, count = some d.count ∧ after = Function.update swept key (some d) ∧
      ((∃ c, swept key = some c ∧ d.count = c.count + 1 ∧ c.expiresAt ≤ d.expiresAt) ∨
        (∀ c, swept key = some c → c.expiresAt ≤ now) ∧ d.count = 1 ∧
          now + ttlSeconds * 1000 ≤ d.expiresAt)) ∨
    swept key = none ∧ count = none ∧ after = swept)

/-- What the limiter asks of `atomicKv`: an `incr` counts, and the time to live is kept. -/
structure Counters (K : Type) [DecidableEq K] where
  State : Type
  start : State
  incr : State → K → ℚ → ℚ → State × Option Nat
  /-- The counter the store holds under the key. -/
  counter : State → K → Option Counter
  start_empty : ∀ k, counter start k = none
  counts : ∀ s key ttlSeconds now, Counts key ttlSeconds now (counter s)
    (counter (incr s key ttlSeconds now).1) (incr s key ttlSeconds now).2

section Checks

variable {Scope : Type} [DecidableEq Scope] (windowSeconds : Scope → ℚ)
  (counters : Counters (WindowKey Scope))

/-- The window the check falls in. -/
def windowKey (check : RateLimitCheck Scope) (now : ℚ) : WindowKey Scope :=
  ⟨check.scope, check.key, ⌊now / (windowSeconds check.scope * 1000)⌋⟩

/-- `incrementCheck` in strict mode, with the store's `incr`, and in local mode. -/
def incrementCheck (s : counters.State) (check : RateLimitCheck Scope) (now : ℚ) :
    counters.State × Option Nat :=
  counters.incr s (windowKey windowSeconds check now) (windowSeconds check.scope) now

def admits (check : RateLimitCheck Scope) (count : Option Nat) : Bool := count.any (· ≤ check.limit)

/-- How many checks of the window with at most this limit are admitted. -/
def admitted (window : WindowKey Scope) (limit : Nat) :
    counters.State → List (RateLimitCheck Scope × ℚ) → Nat
  | _, [] => 0
  | s, (check, now) :: checks =>
    let result := incrementCheck windowSeconds counters s check now
    admitted window limit result.1 checks +
      if windowKey windowSeconds check now = window ∧ check.limit ≤ limit ∧
        admits check result.2 then 1 else 0

def checkAll (s : counters.State) (checks : List (RateLimitCheck Scope × ℚ)) : counters.State :=
  checks.foldl (fun s entry => (incrementCheck windowSeconds counters s entry.1 entry.2).1) s

/-- When a window ends. -/
def windowEnd (window : WindowKey Scope) : ℚ :=
  (window.windowId + 1) * (windowSeconds window.scope * 1000)

/-- While the window is open, its counter has reached `count` and outlives it. -/
def Held (window : WindowKey Scope) (cells : WindowKey Scope → Option Counter) (now : ℚ)
    (count : Nat) : Prop :=
  now < windowEnd windowSeconds window → match cells window with
    | none => count = 0
    | some c => count ≤ c.count ∧ windowEnd windowSeconds window ≤ c.expiresAt

variable {windowSeconds counters} (hpos : ∀ scope, 0 < windowSeconds scope)
  {window : WindowKey Scope} {s : counters.State} {now : ℚ} {count : Nat}
include hpos

omit [DecidableEq Scope] in
theorem lt_windowEnd (check : RateLimitCheck Scope) (now : ℚ) :
    now < windowEnd windowSeconds (windowKey windowSeconds check now) ∧
      windowEnd windowSeconds (windowKey windowSeconds check now) ≤
        now + windowSeconds check.scope * 1000 := by
  have hlong : 0 < windowSeconds check.scope * 1000 := by
    have := hpos check.scope
    linarith
  have hlow := Int.floor_le (now / (windowSeconds check.scope * 1000))
  have hhigh := Int.lt_floor_add_one (now / (windowSeconds check.scope * 1000))
  rw [div_lt_iff₀ hlong] at hhigh
  rw [le_div_iff₀ hlong] at hlow
  rw [windowEnd, windowKey]
  constructor
  · exact hhigh
  · show (_ + 1) * _ ≤ _
    linarith

/-- A check of the window gets a higher count, and any other result leaves the count. -/
theorem held_step (check : RateLimitCheck Scope)
    (h : Held windowSeconds window (counters.counter s) now count) :
    let result := incrementCheck windowSeconds counters s check now
    ∃ count', Held windowSeconds window (counters.counter result.1) now count' ∧
      (count' = count ∧ (windowKey windowSeconds check now = window → result.2 = none) ∨
        result.2 = some count' ∧ count < count') := by
  intro result
  obtain ⟨hlt, hlong⟩ := lt_windowEnd hpos check now
  by_cases hopen : now < windowEnd windowSeconds window
  case neg =>
    exact ⟨count, fun h => absurd h hopen, .inl ⟨rfl, fun hkey => absurd (hkey ▸ hlt) hopen⟩⟩
  obtain ⟨swept, hswept, hcase⟩ : Counts (windowKey windowSeconds check now)
      (windowSeconds check.scope) now (counters.counter s) (counters.counter result.1)
      result.2 := counters.counts s _ _ now
  have hheld : Held windowSeconds window swept now count := by
    intro _
    have hcell := h hopen
    rcases hswept window with hsame | ⟨hnone, hexpired⟩
    · rwa [hsame]
    · rw [hnone]
      cases hget : counters.counter s window with
      | none => rwa [hget] at hcell
      | some c =>
        rw [hget] at hcell
        exact absurd (hopen.trans_le hcell.2) (not_lt.mpr (hexpired c hget))
  by_cases hkey : windowKey windowSeconds check now = window
  · rw [hkey] at hcase hlong
    have hcell := hheld hopen
    rcases hcase with ⟨d, hcount, hafter, hfrom⟩ | ⟨-, hcount, hafter⟩
    case inr => exact ⟨count, by rwa [hafter], .inl ⟨rfl, fun _ => hcount⟩⟩
    suffices hd : windowEnd windowSeconds window ≤ d.expiresAt ∧ count < d.count by
      refine ⟨d.count, fun _ => ?_, .inr ⟨hcount, hd.2⟩⟩
      rw [hafter, update_self]
      exact ⟨le_rfl, hd.1⟩
    rcases hfrom with ⟨c, hget, hnext, he⟩ | ⟨hold, hone, he⟩
    · rw [hget] at hcell
      exact ⟨hcell.2.trans he, by omega⟩
    · refine ⟨hlong.trans he, ?_⟩
      cases hget : swept window with
      | none =>
        rw [hget] at hcell
        omega
      | some c =>
        rw [hget] at hcell
        exact absurd (hopen.trans_le hcell.2) (not_lt.mpr (hold c hget))
  · refine ⟨count, fun _ => ?_, .inl ⟨rfl, fun h => absurd h hkey⟩⟩
    have hsame : counters.counter result.1 window = swept window := by
      rcases hcase with ⟨_, -, hafter, -⟩ | ⟨-, -, hafter⟩
      · exact (congrFun hafter window).trans (update_of_ne (Ne.symm hkey) _ _)
      · exact congrFun hafter window
    rw [hsame]
    exact hheld hopen

theorem admitted_le (limit : Nat) (checks : List (RateLimitCheck Scope × ℚ))
    (hclock : (now :: checks.map (·.2)).Pairwise (· ≤ ·))
    (h : Held windowSeconds window (counters.counter s) now count) :
    admitted windowSeconds counters window limit s checks ≤ limit - count := by
  induction checks generalizing s now count with
  | nil => exact Nat.zero_le _
  | cons entry checks ih =>
    obtain ⟨check, later⟩ := entry
    obtain ⟨hle, hrest⟩ := pairwise_cons.mp hclock
    have hlater : Held windowSeconds window (counters.counter s) later count :=
      fun hopen => h ((hle later (by simp)).trans_lt hopen)
    obtain ⟨count', hheld, hcase⟩ := held_step hpos check hlater
    have hle := ih hrest hheld
    rw [admitted]
    rcases hcase with ⟨rfl, hrefused⟩ | ⟨hsome, hlt⟩
    · rw [if_neg fun hadmitted => by simp [hrefused hadmitted.1, admits] at hadmitted]
      exact hle
    · split
      · next hadmitted =>
        have : count' ≤ check.limit := by simpa [hsome, admits] using hadmitted.2.2
        omega
      · omega

omit hpos in
/-- A counter that does not expire during the checks is there after them, and has not gone back. -/
theorem counter_kept (counters : Counters (WindowKey Scope)) {s : counters.State} {c : Counter}
    (checks : List (RateLimitCheck Scope × ℚ)) (hget : counters.counter s window = some c)
    (hlive : ∀ entry ∈ checks, entry.2 < c.expiresAt) :
    ∃ c', counters.counter (checkAll windowSeconds counters s checks) window = some c' ∧
      c.count ≤ c'.count ∧ c.expiresAt ≤ c'.expiresAt := by
  induction checks generalizing s c with
  | nil => exact ⟨c, hget, Nat.le_refl _, le_rfl⟩
  | cons entry checks ih =>
    obtain ⟨hnow, hrest⟩ := forall_mem_cons.mp hlive
    obtain ⟨swept, hswept, hcase⟩ := counters.counts s (windowKey windowSeconds entry.1 entry.2)
      (windowSeconds entry.1.scope) entry.2
    have hkept : swept window = some c := by
      rcases hswept window with hsame | ⟨-, hexpired⟩
      · rw [hsame, hget]
      · exact absurd hnow (not_lt.mpr (hexpired c hget))
    have hnext : ∃ d,
        counters.counter (incrementCheck windowSeconds counters s entry.1 entry.2).1 window =
          some d ∧ c.count ≤ d.count ∧ c.expiresAt ≤ d.expiresAt := by
      rw [incrementCheck]
      rcases hcase with ⟨d, -, hafter, hfrom⟩ | ⟨-, -, hafter⟩
      · rw [hafter, update_apply]
        split
        · next hkey =>
          rw [← hkey, hkept] at hfrom
          rcases hfrom with ⟨_, ⟨⟩, hnext, he⟩ | ⟨hold, -⟩
          · exact ⟨d, rfl, by omega, he⟩
          · exact absurd hnow (not_lt.mpr (hold c rfl))
        · exact ⟨c, hkept, le_rfl, le_rfl⟩
      · exact ⟨c, by rw [hafter, hkept], le_rfl, le_rfl⟩
    obtain ⟨d, hd, hcount, hexpires⟩ := hnext
    obtain ⟨c', hc', hcount', hexpires'⟩ := ih hd fun entry h => (hrest entry h).trans_le hexpires
    exact ⟨c', hc', hcount.trans hcount', hexpires.trans hexpires'⟩

end Checks

/-! ## The local table is such a store -/

section LocalMode

variable {K : Type} [DecidableEq K]

theorem swept_sweep (state : LocalRateLimitState K) (now : ℚ) :
    Swept now state.windows.get (sweepExpiredLocalWindows state now).windows.get := by
  intro k
  have hget := get_filterEntries (fun c : Counter => decide (now < c.expiresAt)) state.windows k
  rw [sweepExpiredLocalWindows, hget]
  cases state.windows.get k with
  | none => exact .inl rfl
  | some c =>
    by_cases hlive : now < c.expiresAt
    · exact .inl (by simp [hlive])
    · exact .inr (by simpa [hlive] using not_lt.mp hlive)

theorem swept_counted (state : LocalRateLimitState K) (now : ℚ) :
    Swept now state.windows.get (counted state now).windows.get := by
  rw [counted]
  split
  · exact swept_sweep _ now
  · exact fun _ => .inl rfl

theorem get_set_eq (m : OMap K Counter) (key : K) (c : Counter) :
    (m.set key c).get = Function.update m.get key (some c) := by
  funext k
  rw [get_set, update_apply]

/-- Starting a counter where there is none alive. -/
theorem starts_counts {before : K → Option Counter} {key : K} {windowSeconds now : ℚ}
    (m : OMap K Counter) (hswept : Swept now before m.get)
    (hold : ∀ c, m.get key = some c → c.expiresAt ≤ now) :
    Counts key windowSeconds now before (m.set key ⟨1, now + windowSeconds * 1000⟩).get (some 1) :=
  ⟨m.get, hswept, .inl ⟨_, rfl, get_set_eq .., .inr ⟨hold, rfl, le_rfl⟩⟩⟩

theorem incrementLocal_counts (state : LocalRateLimitState K) (key : K) (windowSeconds now : ℚ) :
    Counts key windowSeconds now state.windows.get
      (incrementLocal state key windowSeconds now).1.windows.get
      (incrementLocal state key windowSeconds now).2 := by
  have hswept := swept_counted state now
  rw [incrementLocal]
  generalize counted state now = counted at hswept
  cases hget : counted.windows.get key with
  | some c =>
    by_cases hexpired : c.expiresAt ≤ now
    · simp only [hexpired, if_true]
      refine starts_counts _ hswept fun d hd => ?_
      rwa [← some.inj (hget.symm.trans hd)]
    · simp only [hexpired, if_false]
      exact ⟨_, hswept, .inl ⟨_, rfl, get_set_eq .., .inl ⟨c, hget, rfl, le_rfl⟩⟩⟩
  | none =>
    have hagain := hswept.trans (swept_sweep counted now)
    have hgone : (sweepExpiredLocalWindows counted now).windows.get key = none :=
      (swept_sweep counted now key).elim (·.trans hget) (·.1)
    by_cases hfull : full counted
    · simp only [hfull, if_true]
      split
      · exact ⟨_, hagain, .inr ⟨hgone, rfl, rfl⟩⟩
      · exact starts_counts _ hagain (by simp [hgone])
    · simp only [hfull]
      exact starts_counts _ hswept (by simp [hget])

/-- Local mode. -/
def localCounters : Counters K where
  State := LocalRateLimitState K
  start := ⟨.empty, 0⟩
  incr := incrementLocal
  counter state := state.windows.get
  start_empty _ := rfl
  counts := incrementLocal_counts

/-- A full table of live counters refuses a new key and stays as it is. -/
theorem incrementLocal_full {state : LocalRateLimitState K} {key : K} {now : ℚ} (windowSeconds : ℚ)
    (hlive : ∀ k c, state.windows.get k = some c → now < c.expiresAt) (hfull : full state)
    (hnew : state.windows.get key = none) :
    (incrementLocal state key windowSeconds now).2 = none ∧
      (incrementLocal state key windowSeconds now).1.windows = state.windows := by
  have hsweep (s : LocalRateLimitState K) (h : s.windows = state.windows) :
      (sweepExpiredLocalWindows s now).windows = state.windows := by
    apply OMap.ext
    rw [sweepExpiredLocalWindows, h]
    exact filter_eq_self.mpr fun e he =>
      decide_eq_true (hlive e.1 e.2 ((mem_entries_iff_get _ _ _).mp he))
  have hcounted : (counted state now).windows = state.windows := by
    rw [counted]
    split
    · exact hsweep _ rfl
    · rfl
  have hroom : ∀ s : LocalRateLimitState K, s.windows = state.windows → full s := by
    intro s h
    rwa [full, h]
  rw [incrementLocal, hcounted, hnew]
  simp only [hroom _ hcounted, hroom _ (hsweep _ hcounted), if_true]
  exact ⟨trivial, hsweep _ hcounted⟩

end LocalMode

end SuperFunctions.Authfn.RateLimit
