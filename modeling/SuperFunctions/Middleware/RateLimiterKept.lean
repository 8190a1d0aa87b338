import SuperFunctions.Middleware.RateLimiterRuns

/-!
# The bounds of a rate limiter

What holds of the calls of every run whose writes are sound, and a run of the default store in
which a sliding window forgets requests that still count.
-/
namespace SuperFunctions.Middleware.RateLimiterKept

open Lib.LockQueues (exists_ahead)
open Lib.Processes
open Lib.Transition (Guarded guarded_run_invariant)
open RateLimitAlgorithms RateLimitBounds RateLimiter RateLimiterLocks RateLimiterRuns List

variable {config : RateLimitConfig} {windowMs : Rat} {limits : String → Rat}

/-! ## The invariant -/

structure SysInv (windowMs : Rat) (limits : String → Rat) (s : Limiters config) : Prop where
  locks : LocksInv s
  uniform : Each (fun _ _ t => Uniform windowMs limits t.job) s
  calls : Each (fun σ i t => CallInv σ i t) s
  known : ∀ m ∈ s.shared.log, m.task < s.procs.length
  /-- The state under a key is the one that was stored there last. -/
  stored : ∀ place, (s.shared.store.get place).map (·.value) =
    (storedAt s.shared.log place).head?.map (·.next)
  history : ∀ place, History windowMs (limits place.2) (storedAt s.shared.log place)

theorem sysInv_start (clock : Rat) : SysInv windowMs limits (start config clock) where
  locks := locksInv_start clock
  uniform := each_nil _ _
  calls := each_nil _ _
  known := fun _ h => (not_mem_nil h).elim
  stored := fun _ => rfl
  history := fun _ => trivial

variable {s : Limiters config}

theorem sysInv_spawn (h : SysInv windowMs limits s) {call : Call}
    (huniform : Uniform windowMs limits (call.job config))
    (hlocks : LocksInv ⟨s.shared, s.procs ++ [call.caller config]⟩) :
    SysInv windowMs limits ⟨s.shared, s.procs ++ [call.caller config]⟩ := { h with
  locks := hlocks
  uniform := each_spawn h.uniform huniform
  calls := by
    apply each_spawn h.calls
    intro j target htarget
    apply countP_eq_zero.mpr
    intro m hm htrue
    have htask := of_decide_eq_true htrue
    have hlt := h.known m hm
    omega
  known m hm := by
    have hlt := h.known m hm
    rw [length_append]
    omega }

theorem storedAt_record_self (σ : Shared config.algorithm) (i : Nat) (place : Place)
    (currentTime : Rat) (value : Stored config) (charged : Bool) (ttlMs : Rat) :
    storedAt (record config σ i place currentTime value charged ttlMs).log place =
      ⟨currentTime, value, charged⟩ :: storedAt σ.log place := by
  simp [storedAt, record]

theorem storedAt_record_other (σ : Shared config.algorithm) (i : Nat) {place other : Place}
    (currentTime : Rat) (value : Stored config) (charged : Bool) (ttlMs : Rat)
    (h : other ≠ place) :
    storedAt (record config σ i place currentTime value charged ttlMs).log other =
      storedAt σ.log other := by
  simp [storedAt, record, Ne.symm h]

variable {job : Job}

theorem job_place_eq_lock (hatomic : config.atomic = false) (key : String) :
    job.place config key = job.lock key := by
  simp [Job.place, Job.lock, hatomic]

section Move

variable {s : Limiters config} (h : SysInv windowMs limits s) {i : Nat}
  {t t' : Caller (Stored config)} {σ' : Shared config.algorithm} {elapsed : Rat}
  (ht : s.procs[i]? = some t) (hstep : CallStep (s.shared.wait elapsed) i t σ' t')

include h hstep

theorem stored_move (place : Place) : (σ'.store.get place).map (·.value) =
    (storedAt σ'.log place).head?.map (·.next) := by
  cases hstep.effect with
  | quiet hstore hlog =>
    rw [hstore, hlog]
    exact h.stored place
  | stored target currentTime result value ttlMs hmem hworking hσ' hevaluated htimely =>
    rw [hσ']
    by_cases hplace : place = t.job.place config target.namespacedKey
    · subst hplace
      rw [storedAt_record_self]
      exact get_writeKey_self value ttlMs
    · rw [storedAt_record_other _ _ _ _ _ _ hplace]
      have hsame : (writeKey (s.shared.wait elapsed).clock s.shared.store
          (t.job.place config target.namespacedKey) value ttlMs).get place =
            s.shared.store.get place := get_writeKey_other value ttlMs hplace
      exact (congrArg (Option.map (·.value)) hsame).trans (h.stored place)

include ht

theorem history_move (place : Place) :
    History windowMs (limits place.2) (storedAt σ'.log place) := by
  cases hstep.effect with
  | quiet hstore hlog =>
    rw [hlog]
    exact h.history place
  | stored target currentTime result value ttlMs hmem hworking hσ' hevaluated htimely =>
    rw [hσ']
    by_cases hplace : place = t.job.place config target.namespacedKey
    · subst hplace
      obtain ⟨hwindow, hlimit⟩ : Uniform windowMs limits t.job := h.uniform i t ht
      have hstored := h.stored (t.job.place config target.namespacedKey)
      have heval : evaluate currentTime windowMs (limits target.namespacedKey) true
          config.algorithm ((storedAt s.shared.log
            (t.job.place config target.namespacedKey)).head?.map (·.next)) =
          ⟨result, some (value, ttlMs)⟩ := by
        rwa [← hstored, ← hwindow, ← hlimit target hmem]
      rw [storedAt_record_self]
      refine ⟨?_, fun last hlast => ?_, h.history _⟩
      · exact ⟨congrArg (·.result.allowed) heval, ttlMs, congrArg (·.next) heval⟩
      have hlast' : (storedAt s.shared.log
          (t.job.place config target.namespacedKey)).head? = some last := hlast
      rw [hlast'] at hstored
      obtain ⟨entry, hentry, -⟩ := Option.map_eq_some_iff.mp hstored
      exact htimely entry hentry last hlast'
    · rw [storedAt_record_other _ _ _ _ _ _ hplace]
      exact h.history place

theorem known_move : ∀ m ∈ σ'.log, m.task < (s.procs.set i t').length := by
  intro m hm
  rw [length_set]
  have hi : i < s.procs.length := (List.getElem?_eq_some_iff.mp ht).1
  cases hstep.effect with
  | quiet hstore hlog =>
    rw [hlog] at hm
    exact h.known m hm
  | stored target currentTime result value ttlMs hmem hworking hσ' hevaluated htimely =>
    rw [hσ'] at hm
    rcases mem_cons.mp hm with hnew | hold
    · subst hnew
      exact hi
    · exact h.known m hold

theorem others_move {j : Nat} {u : Caller (Stored config)} (hne : j ≠ i)
    (hu : s.procs[j]? = some u) : CallInv σ' j u := by
  have hold : CallInv s.shared j u := h.calls j u hu
  have hclock : s.shared.clock ≤ σ'.clock := by
    rw [hstep.clock]
    show s.shared.clock ≤ s.shared.clock + max 0 elapsed
    linarith [le_max_left 0 elapsed]
  cases hstep.effect with
  | quiet hstore hlog =>
    apply CallInv.frame hclock _ _ hold
    · intro place
      rw [hlog]
      rfl
    · intro _ _ target _
      rw [hstore]
      rfl
  | stored target currentTime result value ttlMs hmem hworking hσ' hevaluated htimely =>
    apply CallInv.frame hclock _ _ hold
    · intro place
      rw [hσ']
      exact chargesBy_record_other (s.shared.wait elapsed) _ place currentTime value result.allowed
        ttlMs hne
    · intro hatomic huworking other hother
      rw [hσ']
      apply get_writeKey_other
      intro heq
      rw [job_place_eq_lock hatomic, job_place_eq_lock hatomic] at heq
      apply hne
      apply held_exclusive h.locks hu ht _ _ heq
      · rw [(held_of_working huworking).1]
        exact mem_sortedKeys.mpr ⟨other, hother, rfl⟩
      · rw [(held_of_working hworking).1]
        exact mem_sortedKeys.mpr ⟨target, hmem, rfl⟩

end Move

variable {t : Caller (Stored config)} {i : Nat} {σ : Shared config.algorithm}

theorem callInv_wait (elapsed : Rat) (h : CallInv σ i t) : CallInv (σ.wait elapsed) i t := by
  have hclock : σ.clock ≤ (σ.wait elapsed).clock := by
    show σ.clock ≤ σ.clock + max 0 elapsed
    linarith [le_max_left 0 elapsed]
  exact CallInv.frame (σ := σ) hclock (fun _ => rfl) (fun _ _ _ _ => rfl) h

theorem sysInv_step (s : Limiters config) (a : Act Call Choice) (s' : Limiters config)
    (h : SysInv windowMs limits s) (hsound : soundly config windowMs limits s a)
    (hstep : step config s a = some s') : SysInv windowMs limits s' := by
  have hlocks := locksInv_step h.locks hstep
  rcases act_cases hstep with ⟨call, ha, hs'⟩ | ⟨i, c, t, σ', t', ha, ht, hnext, hs'⟩
  · subst hs' ha
    exact sysInv_spawn h hsound hlocks
  subst hs' ha
  have htsound : sound config (s.shared.wait c.elapsed) t = true := by
    have hall : (s.procs[i]?).all
        (fun t => sound config (s.shared.wait c.elapsed) t) = true := hsound
    rwa [ht] at hall
  have hcall := call_step (callInv_wait c.elapsed (h.calls i t ht)) htsound hnext
  constructor
  · exact hlocks
  · apply each_move
    · show Uniform windowMs limits t'.job
      rw [hcall.job]
      exact h.uniform i t ht
    · exact fun j u _ hu => h.uniform j u hu
  · exact each_move hcall.own fun j u hne hu => others_move h ht hcall hne hu
  · exact known_move h ht hcall
  · exact stored_move h hcall
  · exact history_move h ht hcall

/-! ## No call goes on for ever -/

/-- A bound on the steps that a call has left. -/
def remaining {S : Type} (t : Caller S) : Nat :=
  let k := t.job.targets.length
  match t.phase with
  | .entering => 64 * k + 3 * k + 44
  | .locking _ todo => 64 * k + k + 43 + 2 * todo.length
  | .waiting _ _ todo => 64 * k + k + 44 + 2 * todo.length
  | .timing => 64 * k + k + 42
  | .preflight _ results => 64 * k + 41 + results.countP (·.isNone)
  | .committing _ _ committed attempt => 64 * (k - committed.length) + 2 + (32 - 2 * attempt)
  | .writing _ _ committed attempt _ _ _ _ _ =>
      64 * (k - committed.length) + 1 + (32 - 2 * attempt)
  | .unlocking _ => 1
  | .done _ => 0

theorem sortedKeys_length (job : Job) : job.sortedKeys.length = job.targets.length := by
  simp [Job.sortedKeys, length_insertionSort]

theorem countP_isNone_set {l : List (Option RateLimitResult)} {result : RateLimitResult}
    (h : l[i]? = some none) : (l.set i (some result)).countP (·.isNone) < l.countP (·.isNone) := by
  induction l generalizing i with
  | nil => simp at h
  | cons a l ih =>
    cases i with
    | zero =>
      have ha : a = none := by simpa using h
      subst ha
      simp
    | succ i =>
      have hrest : l[i]? = some none := by simpa using h
      have hlt := ih hrest
      simp only [set_cons_succ, countP_cons]
      omega

theorem settle_remaining {S : Type} (t : Caller S) (currentTime : Rat)
    (preflight committed : List RateLimitResult) (result : RateLimitResult)
    (hlt : committed.length < t.job.targets.length) :
    remaining (t.to (settle t currentTime preflight committed result)) <
      64 * (t.job.targets.length - committed.length) + 1 := by
  simp only [settle]
  split_ifs
  · simp only [remaining, Caller.to_phase]
    omega
  · simp only [remaining, Caller.to_phase]
    omega
  · simp only [remaining, Caller.to_phase, Caller.to_job, length_append, length_singleton]
    omega

theorem evaluateKey_remaining (σ : Shared config.algorithm) (t : Caller (Stored config))
    (currentTime : Rat) (preflight committed : List RateLimitResult) (attempt : Nat)
    (target : Target) (hlt : committed.length < t.job.targets.length) :
    remaining (t.to (evaluateKey config σ t currentTime preflight committed attempt target)) <
      64 * (t.job.targets.length - committed.length) + 2 + (32 - 2 * attempt) := by
  simp only [evaluateKey]
  split
  · simp only [remaining, Caller.to_phase]
    omega
  split
  · have hsettle := settle_remaining t currentTime preflight committed
    rename_i evaluation _ _ _
    have h := hsettle evaluation.result hlt
    omega
  · simp only [remaining, Caller.to_phase, Caller.to_job]
    omega

theorem remaining_lt {index : Nat} {r : Shared config.algorithm × Caller (Stored config)}
    (h : CallInv σ i t) (hstep : advance config σ i t index = some r) :
    remaining r.2 < remaining t := by
  simp only [advance] at hstep
  split at hstep
  case h_1 hphase =>
    cases hstep
    have hlength := sortedKeys_length t.job
    split_ifs
    · simp only [remaining, hphase, Caller.to_phase]
      omega
    · simp only [remaining, hphase, Caller.to_phase, Caller.to_job, hlength]
      omega
  case h_2 acquired hphase =>
    cases hstep
    simp only [remaining, hphase, Caller.to_phase, Caller.to_job, length_nil]
    omega
  case h_3 acquired key todo hphase =>
    cases hstep
    simp only [remaining, hphase, Caller.to_phase, Caller.to_job, length_cons]
    omega
  case h_4 acquired key todo hphase =>
    split_ifs at hstep
    cases hstep
    simp only [remaining, hphase, Caller.to_phase, Caller.to_job]
    omega
  case h_5 hphase =>
    cases hstep
    split_ifs
    · have hcount : (t.job.targets.map fun _ => (none : Option RateLimitResult)).countP
          (·.isNone) ≤ t.job.targets.length := by
        have hle := countP_le_length (p := Option.isNone)
          (l := t.job.targets.map fun _ => (none : Option RateLimitResult))
        rwa [length_map] at hle
      simp only [remaining, hphase, Caller.to_phase, Caller.to_job]
      omega
    · simp only [remaining, hphase, Caller.to_phase, Caller.to_job, length_nil]
      omega
  case h_6 currentTime results hphase =>
    by_cases hall : results.all Option.isSome = true
    · rw [if_pos hall] at hstep
      cases hstep
      split_ifs
      · simp only [remaining, hphase, Caller.to_phase, Caller.to_job, length_nil]
        omega
      · simp only [remaining, hphase, Caller.to_phase]
        omega
    · rw [if_neg hall] at hstep
      split at hstep
      · rename_i target htarget hresult
        split at hstep
        · cases hstep
          simp only [remaining, hphase, Caller.to_phase]
          omega
        · rename_i evaluation hevaluation
          cases hstep
          have hlt : (results.set index (some evaluation.result)).countP (·.isNone) <
              results.countP (·.isNone) := countP_isNone_set hresult
          simp only [remaining, hphase, Caller.to_phase, Caller.to_job]
          omega
      · cases hstep
  case h_7 currentTime preflight committed attempt hphase =>
    split at hstep
    · cases hstep
      simp only [remaining, hphase, Caller.to_phase]
      omega
    rename_i target htarget
    cases hstep
    have hlt := (List.getElem?_eq_some_iff.mp htarget).1
    have hless := evaluateKey_remaining σ t currentTime preflight committed attempt target hlt
    have hfrom : remaining t =
        64 * (t.job.targets.length - committed.length) + 2 + (32 - 2 * attempt) := by
      simp only [remaining, hphase]
    rwa [hfrom]
  case h_8 currentTime preflight committed attempt target expected result value ttlMs hphase =>
    have hwriting :
        Writing σ i t.job currentTime committed attempt target expected result value ttlMs := by
      simpa only [CallInv, hphase] using h
    have hlt := (List.getElem?_eq_some_iff.mp hwriting.here).1
    have hfrom : remaining t =
        64 * (t.job.targets.length - committed.length) + 1 + (32 - 2 * attempt) := by
      simp only [remaining, hphase]
    split_ifs at hstep with hthrough hattempt
    · cases hstep
      have hless := settle_remaining t currentTime preflight committed result hlt
      show remaining (t.to (settle t currentTime preflight committed result)) < remaining t
      omega
    · cases hstep
      rw [hfrom]
      simp only [remaining, Caller.to_phase, Caller.to_job]
      omega
    · cases hstep
      rw [hfrom]
      simp only [remaining, Caller.to_phase]
      omega
  case h_9 outcome hphase =>
    cases hstep
    simp only [remaining, hphase, Caller.to_phase]
    omega
  case h_10 => cases hstep

/-- A call that has not answered waits for a lock behind another, or can go on. -/
theorem goes_on (h : SysInv windowMs limits s) (ht : s.procs[i]? = some t) :
    (∃ outcome, t.phase = .done outcome) ∨ (∃ j, WaitsFor s i j) ∨
      ∃ c r, next config s.shared i t c = some r := by
  have hlock : LockInv s.shared.locks i t := h.locks.each i t ht
  have hcall := callInv_wait 0 (h.calls i t ht)
  have hgo : ∀ index, (advance config (s.shared.wait 0) i t index).isSome = true →
      ∃ c r, next config s.shared i t c = some r := by
    intro index hsome
    obtain ⟨r, hr⟩ := Option.isSome_iff_exists.mp hsome
    exact ⟨⟨0, index⟩, r, hr⟩
  cases hphase : t.phase with
  | done outcome => exact .inl ⟨outcome, rfl⟩
  | waiting acquired key todo =>
    by_cases hholder : Lib.LockQueues.holder s.shared.locks (t.job.lock key) = some i
    · refine .inr (.inr (hgo 0 ?_))
      have hheld : Lib.LockQueues.holder (s.shared.wait 0).locks (t.job.lock key) = some i :=
        hholder
      simp [advance, hphase, hheld]
    · have hasked : (t.job.lock key, i) ∈ s.shared.locks := by
        rw [hlock.asked]
        exact ⟨key, by simp [asked, hphase], rfl⟩
      obtain ⟨j, hahead⟩ := exists_ahead hasked hholder
      exact .inr (.inl ⟨j, t, acquired, key, todo, ht, hphase, hahead⟩)
  | entering | timing => exact .inr (.inr (hgo 0 (by simp only [advance, hphase]; rfl)))
  | locking acquired todo =>
    cases todo with
    | nil | cons key todo => exact .inr (.inr (hgo 0 (by simp only [advance, hphase]; rfl)))
  | preflight currentTime results =>
    refine .inr (.inr ?_)
    simp only [CallInv, hphase] at hcall
    by_cases hall : results.all Option.isSome = true
    · exact hgo 0 (by simp only [advance, hphase, if_pos hall]; rfl)
    -- some read is still pending, and it can be answered
    have hpending : ∃ j : Nat, results[j]? = some none := by
      by_contra hnone
      apply hall
      apply all_eq_true.mpr
      intro a ha
      obtain ⟨j, hj⟩ := mem_iff_getElem?.mp ha
      cases a with
      | none => exact absurd ⟨j, hj⟩ hnone
      | some result => rfl
    obtain ⟨j, hj⟩ := hpending
    have hlt := (List.getElem?_eq_some_iff.mp hj).1
    rw [hcall.2.1] at hlt
    have htarget := getElem?_eq_getElem hlt
    cases heval : evaluateState currentTime t.job.windowMs t.job.targets[j].limit false
        config.algorithm (readKey config.atomic (s.shared.wait 0).clock (s.shared.wait 0).store
          (t.job.place config t.job.targets[j].namespacedKey)) with
    | error e | ok evaluation =>
      exact hgo j (by simp only [advance, hphase, if_neg hall, htarget, hj, heval]; rfl)
  | committing currentTime preflight committed attempt =>
    refine .inr (.inr ?_)
    cases htarget : t.job.targets[committed.length]? with
    | none | some target => exact hgo 0 (by simp only [advance, hphase, htarget]; rfl)
  | writing currentTime preflight committed attempt target expected result value ttlMs =>
    refine .inr (.inr ?_)
    by_cases hthrough : goesThrough config (s.shared.wait 0)
        (t.job.place config target.namespacedKey) expected = true
    · exact hgo 0 (by simp only [advance, hphase, if_pos hthrough]; rfl)
    by_cases hattempt : attempt + 1 < 16
    · exact hgo 0 (by
        simp only [advance, hphase, if_neg hthrough, if_pos hattempt]; rfl)
    · exact hgo 0 (by
        simp only [advance, hphase, if_neg hthrough, if_neg hattempt]; rfl)
  | unlocking outcome => exact .inr (.inr (hgo 0 (by simp only [advance, hphase]; rfl)))

/-! ## What a rate limiter promises -/

structure Kept (windowMs : Rat) (limits : String → Rat) (s : Limiters config) : Prop where
  bounded : ∀ place, Bounded windowMs (limits place.2) config.algorithm
    (storedAt s.shared.log place)
  /-- A `checkMany` that is allowed has charged every key once. -/
  allowed : ∀ (i : Nat) (t : Caller (Stored config)) (result : RateLimitManyResult),
    s.procs[i]? = some t → t.phase = .done (.many result) → result.allowed = true →
    ∀ target ∈ t.job.targets, chargesBy s.shared.log i (t.job.place config target.namespacedKey) = 1
  /-- One that is denied over a store of its own has charged none. -/
  denied : config.atomic = false →
    ∀ (i : Nat) (t : Caller (Stored config)) (result : RateLimitManyResult),
    s.procs[i]? = some t → t.phase = .done (.many result) → result.allowed = false →
    ∀ target ∈ t.job.targets, chargesBy s.shared.log i (t.job.place config target.namespacedKey) = 0
  /-- A `check` charges its key where it is allowed. -/
  checked : ∀ (i : Nat) (t : Caller (Stored config)) (result : RateLimitResult),
    s.procs[i]? = some t → t.phase = .done (.single result) → ∀ target ∈ t.job.targets,
      chargesBy s.shared.log i (t.job.place config target.namespacedKey) =
        if result.allowed then 1 else 0
  /-- No set of calls waits only for each other. -/
  unblocked : ∀ S : Set Nat, (∀ i ∈ S, ∃ j ∈ S, WaitsFor s i j) → S = ∅
  going : ∀ (i : Nat) (t : Caller (Stored config)), s.procs[i]? = some t →
    (∃ outcome, t.phase = .done outcome) ∨ (∃ j, WaitsFor s i j) ∨
      ∃ c r, next config s.shared i t c = some r
  ending : ∀ (i : Nat) (t : Caller (Stored config)), s.procs[i]? = some t →
    ∀ c r, next config s.shared i t c = some r → remaining r.2 < remaining t

theorem done_told (h : SysInv windowMs limits s) {outcome : Outcome} (ht : s.procs[i]? = some t)
    (hphase : t.phase = .done outcome) : Told s.shared.log i t.job outcome := by
  have hcall : CallInv s.shared i t := h.calls i t ht
  simpa only [CallInv, hphase] using hcall

variable {log : List (Mark config.algorithm)}

theorem Counts.all (h : Counts log i job job.targets.length) :
    ∀ target ∈ job.targets, chargesBy log i (job.place config target.namespacedKey) = 1 := by
  intro target hmem
  obtain ⟨j, hj⟩ := mem_iff_getElem?.mp hmem
  have hcount := h j target hj
  rwa [if_pos (List.getElem?_eq_some_iff.mp hj).1] at hcount

theorem Counts.zero (h : Counts log i job 0) :
    ∀ target ∈ job.targets, chargesBy log i (job.place config target.namespacedKey) = 0 := by
  intro target hmem
  obtain ⟨j, hj⟩ := mem_iff_getElem?.mp hmem
  have hcount := h j target hj
  rwa [if_neg (by omega)] at hcount

theorem Counts.only {allowed : Bool} (h : Counts log i job (if allowed then 1 else 0))
    (hone : job.targets.length = 1) :
    ∀ target ∈ job.targets, chargesBy log i (job.place config target.namespacedKey) =
      if allowed then 1 else 0 := by
  cases allowed with
  | false => exact Counts.zero h
  | true =>
    apply Counts.all
    rwa [hone]

/-- Every run whose writes are sound keeps the bounds, charges as it answers and never stands
still. -/
theorem kept_of_sound (config : RateLimitConfig) (windowMs : Rat) (limits : String → Rat)
    (clock : Rat) (acts : List (Act Call Choice)) (s : Limiters config) (hwindow : 0 < windowMs)
    (hlimits : ∀ key, 0 ≤ limits key ∧ Countable config.algorithm (limits key))
    (hsound : Guarded (step config) (soundly config windowMs limits) (start config clock) acts)
    (hrun : Lib.Transition.run (step config) (start config clock) acts = some s) :
    Kept windowMs limits s := by
  have h : SysInv windowMs limits s :=
    guarded_run_invariant (step config) sysInv_step (sysInv_start clock) hsound hrun
  constructor
  · intro place
    obtain ⟨hlimit, hcountable⟩ := hlimits place.2
    exact bounded_of_history hwindow hlimit hcountable (h.history place)
  · intro i t result ht hphase hallowed
    have htold : Told s.shared.log i t.job (.many result) := done_told h ht hphase
    exact Counts.all (htold.1 hallowed)
  · intro hatomic i t result ht hphase hdenied
    have htold : Told s.shared.log i t.job (.many result) := done_told h ht hphase
    exact Counts.zero (htold.2 hatomic hdenied)
  · intro i t result ht hphase target hmem
    have htold : Told s.shared.log i t.job (.single result) := done_told h ht hphase
    exact Counts.only htold.2 (t.job.one htold.1) target hmem
  · intro S hclosed
    exact no_waiting_calls h.locks hclosed
  · intro i t ht
    exact goes_on h ht
  · intro i t ht c r hnext
    exact remaining_lt (callInv_wait c.elapsed (h.calls i t ht)) hnext

/-! ## Two runs -/

/-- Two requests every ten seconds, over the default store. -/
def twoInTenSeconds : RateLimitConfig where
  windowMs := 10000
  maxRequests := 2
  keyPrefix := "ratelimit:"
  algorithm := .slidingWindow
  atomic := false

/-- A whole `check`, called `elapsed` after the last. -/
def request (i : Nat) (elapsed : Rat) : List (Act Call Choice) :=
  [.spawn (.check 0 ⟨"user", none, none⟩), .move i ⟨elapsed, 0⟩, .move i ⟨0, 0⟩, .move i ⟨0, 0⟩,
    .move i ⟨0, 0⟩, .move i ⟨0, 0⟩, .move i ⟨0, 0⟩, .move i ⟨0, 0⟩, .move i ⟨0, 0⟩]

/-- Two requests, and one more when the first is past its window. -/
def spaced : List (Act Call Choice) := request 0 0 ++ request 1 1000 ++ request 2 20000

def allowedAt (s : Limiters twoInTenSeconds) : List (Option Bool) :=
  s.procs.map fun t => match t.phase with
    | .done (.single result) => some result.allowed
    | _ => none

theorem spaced_ends :
    (Lib.Transition.run (step twoInTenSeconds) (start twoInTenSeconds 0) spaced).any
      (fun s => allowedAt s = [some true, some true, some true]) = true := by
  decide +kernel

theorem kept_of_sound_spaced :
    ∃ s, Lib.Transition.run (step twoInTenSeconds) (start twoInTenSeconds 0) spaced = some s ∧
      allowedAt s = [some true, some true, some true] ∧ Kept 10000 (fun _ => 2) s := by
  obtain ⟨s, hrun, hallowed⟩ := (Option.any_eq_true _ _).mp spaced_ends
  exact ⟨s, hrun, of_decide_eq_true hallowed,
    kept_of_sound twoInTenSeconds 10000 (fun _ => 2) 0 spaced s (by norm_num)
      (fun _ => ⟨by norm_num, .inr ⟨2, by norm_num⟩⟩) (by decide +kernel) hrun⟩

/-- Requests after 0, 9, 10.001 and 10.002 seconds. The entry that holds the second one expires
with the first, so the third finds nothing. -/
def forgotten : List (Act Call Choice) :=
  request 0 0 ++ request 1 9000 ++ request 2 1001 ++ request 3 1

theorem forgotten_charges :
    (Lib.Transition.run (step twoInTenSeconds) (start twoInTenSeconds 0) forgotten).map
      (fun s => charges (storedAt s.shared.log (0, "ratelimit:user"))) =
      some [10002, 10001, 9000, 0] := by
  decide +kernel

theorem not_kept_uniformly :
    ¬∀ (acts : List (Act Call Choice)) (s : Limiters twoInTenSeconds),
      Guarded (step twoInTenSeconds) (uniformly twoInTenSeconds 10000 fun _ => 2)
        (start twoInTenSeconds 0) acts →
      Lib.Transition.run (step twoInTenSeconds) (start twoInTenSeconds 0) acts = some s →
      Kept 10000 (fun _ => 2) s := by
  intro hall
  obtain ⟨s, hrun, hcharges⟩ := Option.map_eq_some_iff.mp forgotten_charges
  have hkept := hall forgotten s (by decide +kernel) hrun
  have hclose : ∀ a b : Rat, decide (9000 ≤ a ∧ a < 19000) = true →
      decide (9000 ≤ b ∧ b < 19000) = true → b - a < 10000 := by
    intro a b ha hb
    have hfrom := of_decide_eq_true ha
    have hto := of_decide_eq_true hb
    linarith [hfrom.1, hto.2]
  have hbounded : ((admitted (storedAt s.shared.log (0, "ratelimit:user"))
      (fun t => decide (9000 ≤ t ∧ t < 19000)) : Nat) : Rat) ≤ 2 :=
    hkept.bounded (0, "ratelimit:user") (fun t => decide (9000 ≤ t ∧ t < 19000)) hclose
  have hthree : admitted (storedAt s.shared.log (0, "ratelimit:user"))
      (fun t => decide (9000 ≤ t ∧ t < 19000)) = 3 := by
    rw [admitted, hcharges]
    decide +kernel
  rw [hthree] at hbounded
  norm_num at hbounded

end SuperFunctions.Middleware.RateLimiterKept
