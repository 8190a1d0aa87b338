import SuperFunctions.Middleware.RateLimiterLocks

/-!
# What every run of a rate limiter keeps

The state under a key is always the one its last evaluation stored, and every evaluation was made
on the state before it, as long as nothing that still counts expires and no call writes with a
clock reading that has been overtaken.
-/
namespace SuperFunctions.Middleware.RateLimiterRuns

open Lib.OrderedMap.OMap Lib.Processes
open RateLimitAlgorithms RateLimitBounds RateLimiter RateLimiterLocks List Option

/-! ## The condition -/

section Condition

variable (config : RateLimitConfig)

/-- Where the write of a call goes through: an entry that the call took for expired is spent at
the time the call had read, and that time has not been overtaken. -/
def sound (σ : Shared config.algorithm) (t : Caller (Stored config)) : Bool :=
  match t.phase with
  | .writing currentTime _ _ _ target expected _ _ _ =>
    let place := t.job.place config target.namespacedKey
    !goesThrough config σ place expected ||
      (σ.store.get place).all fun entry =>
        (expected.isSome ||
          decide (Spent currentTime t.job.windowMs target.limit config.algorithm entry.value)) &&
        (storedAt σ.log place).head?.all fun last =>
          decide (Timely config.algorithm last currentTime)
  | _ => true

/-- One window for every call, and one limit for each key. -/
def Uniform (windowMs : Rat) (limits : String → Rat) (job : Job) : Prop :=
  job.windowMs = windowMs ∧ ∀ target ∈ job.targets, target.limit = limits target.namespacedKey

instance (windowMs : Rat) (limits : String → Rat) (job : Job) :
    Decidable (Uniform windowMs limits job) :=
  inferInstanceAs (Decidable (_ ∧ _))

/-- The calls that are made, without a condition on how they go. -/
def uniformly (windowMs : Rat) (limits : String → Rat) (_ : Limiters config) :
    Act Call Choice → Prop
  | .spawn call => Uniform windowMs limits (call.job config)
  | .move _ _ => True

/-- The calls that are made, each of whose writes is sound. -/
def soundly (windowMs : Rat) (limits : String → Rat) (s : Limiters config) : Act Call Choice → Prop
  | .spawn call => Uniform windowMs limits (call.job config)
  | .move i c =>
      (s.procs[i]?).all (fun t => sound config (s.shared.wait c.elapsed) t) = true

instance (windowMs : Rat) (limits : String → Rat) (s : Limiters config) :
    (a : Act Call Choice) → Decidable (soundly config windowMs limits s a)
  | .spawn call => inferInstanceAs (Decidable (Uniform windowMs limits (call.job config)))
  | .move i c => inferInstanceAs (Decidable
      ((s.procs[i]?).all (fun t => sound config (s.shared.wait c.elapsed) t) = true))

instance (windowMs : Rat) (limits : String → Rat) (s : Limiters config) :
    (a : Act Call Choice) → Decidable (uniformly config windowMs limits s a)
  | .spawn call => inferInstanceAs (Decidable (Uniform windowMs limits (call.job config)))
  | .move _ _ => .isTrue trivial

end Condition

/-! ## The store -/

section Store

variable {S : Type} {atomic : Bool} {clock later : Rat} {store : Store S} {place other : Place}

theorem expired_later {entry : Entry S} (hle : clock ≤ later)
    (h : entry.expired atomic clock = true) : entry.expired atomic later = true := by
  obtain ⟨t, ht, hexpired⟩ := (any_eq_true _ _).mp h
  refine (any_eq_true _ _).mpr ⟨t, ht, ?_⟩
  cases atomic with
  | true =>
    have hat : t ≤ clock := by simpa using hexpired
    simpa using le_trans hat hle
  | false =>
    have hpast : t ≠ 0 ∧ clock > t := by simpa using hexpired
    simpa using ⟨hpast.1, lt_of_lt_of_le hpast.2 hle⟩

theorem readKey_later (hle : clock ≤ later) :
    readKey atomic later store place = readKey atomic clock store place ∨
      readKey atomic later store place = none := by
  cases hentry : store.get place with
  | none => exact .inl (by simp [readKey, hentry])
  | some entry =>
    by_cases hlater : entry.expired atomic later = true
    · exact .inr (by simp [readKey, hentry, hlater])
    · have hnow : ¬entry.expired atomic clock = true := fun h => hlater (expired_later hle h)
      exact .inl (by simp [readKey, hentry, hlater, hnow])

theorem readKey_some {s : S} (h : readKey atomic clock store place = some s) :
    ∃ entry, store.get place = some entry ∧ entry.value = s := by
  obtain ⟨entry, hentry, hvalue⟩ := bind_eq_some_iff.mp h
  split_ifs at hvalue
  exact ⟨entry, hentry, some.inj hvalue⟩

theorem readKey_congr {store' : Store S} (h : store'.get place = store.get place) :
    readKey atomic clock store' place = readKey atomic clock store place := by
  simp only [readKey, h]

theorem get_writeKey_self (value : S) (ttlMs : Rat) :
    ((writeKey clock store place value ttlMs).get place).map (·.value) = some value := by
  simp [writeKey, get_set]

theorem get_writeKey_other (value : S) (ttlMs : Rat) (h : other ≠ place) :
    (writeKey clock store place value ttlMs).get other = store.get other := by
  simp [writeKey, get_set, h]

end Store

/-! ## One call -/

variable {config : RateLimitConfig}

/-- The first `k` keys of a call have been charged once, the others not. -/
def Counts (log : List (Mark config.algorithm)) (i : Nat) (job : Job) (k : Nat) : Prop :=
  ∀ j target, job.targets[j]? = some target →
    chargesBy log i (job.place config target.namespacedKey) = if j < k then 1 else 0

/-- With a store of its own the key will be admitted whenever it is evaluated. -/
def Admitted (σ : Shared config.algorithm) (job : Job) (currentTime : Rat) (target : Target) :
    Prop :=
  config.atomic = false → ∀ clock, σ.clock ≤ clock →
    (evaluate currentTime job.windowMs target.limit true config.algorithm
      (readKey config.atomic clock σ.store (job.place config target.namespacedKey))).result.allowed =
        true

def Ready (σ : Shared config.algorithm) (job : Job) (currentTime : Rat) (k : Nat) : Prop :=
  job.many = true → ∀ j target, k ≤ j → job.targets[j]? = some target →
    Admitted σ job currentTime target

/-- What a call has charged when it answers. -/
def Told (log : List (Mark config.algorithm)) (i : Nat) (job : Job) : Outcome → Prop
  | .single result => job.many = false ∧ Counts log i job (if result.allowed then 1 else 0)
  | .many result => (result.allowed = true → Counts log i job job.targets.length) ∧
      (config.atomic = false → result.allowed = false → Counts log i job 0)
  | .failed _ => True

structure Committing (σ : Shared config.algorithm) (i : Nat) (job : Job) (currentTime : Rat)
    (committed : List RateLimitResult) (attempt : Nat) : Prop where
  counts : Counts σ.log i job committed.length
  attempt : attempt < 16
  single : job.many = false → committed = []
  ready : Ready σ job currentTime committed.length

structure Writing (σ : Shared config.algorithm) (i : Nat) (job : Job) (currentTime : Rat)
    (committed : List RateLimitResult) (attempt : Nat) (target : Target)
    (expected : Option (Stored config)) (result : RateLimitResult) (value : Stored config)
    (ttlMs : Rat) : Prop extends Committing σ i job currentTime committed attempt where
  here : job.targets[committed.length]? = some target
  allowed : config.atomic = false → job.many = true → result.allowed = true
  evaluated : evaluate currentTime job.windowMs target.limit true config.algorithm expected =
    ⟨result, some (value, ttlMs)⟩
  stands : config.atomic = false → ∀ state, expected = some state →
    ∃ entry, σ.store.get (job.place config target.namespacedKey) = some entry ∧ entry.value = state

def CallInv (σ : Shared config.algorithm) (i : Nat) (t : Caller (Stored config)) : Prop :=
  match t.phase with
  | .preflight currentTime results => Counts σ.log i t.job 0 ∧
      results.length = t.job.targets.length ∧
      ∀ (j : Nat) (target : Target) (result : RateLimitResult),
        t.job.targets[j]? = some target → results[j]? = some (some result) →
        result.allowed = true → Admitted σ t.job currentTime target
  | .committing currentTime _ committed attempt =>
      Committing σ i t.job currentTime committed attempt
  | .writing currentTime _ committed attempt target expected result value ttlMs =>
      Writing σ i t.job currentTime committed attempt target expected result value ttlMs
  | .unlocking outcome => Told σ.log i t.job outcome
  | .done outcome => Told σ.log i t.job outcome
  | _ => Counts σ.log i t.job 0

/-! ### What the others do -/

variable {currentTime : Rat} {k attempt : Nat} {committed : List RateLimitResult}

section Frame

variable {σ σ' : Shared config.algorithm} {i : Nat} {job : Job}
  (hclock : σ.clock ≤ σ'.clock)
  (hcounts : ∀ place, chargesBy σ'.log i place = chargesBy σ.log i place)
  (hstore : config.atomic = false → ∀ target ∈ job.targets,
    σ'.store.get (job.place config target.namespacedKey) =
      σ.store.get (job.place config target.namespacedKey))

include hcounts in
theorem Counts.frame (h : Counts σ.log i job k) : Counts σ'.log i job k := by
  intro j target htarget
  rw [hcounts]
  exact h j target htarget

include hclock hstore in
theorem Admitted.frame {target : Target} (hmem : target ∈ job.targets)
    (h : Admitted σ job currentTime target) : Admitted σ' job currentTime target := by
  intro hatomic clock hle
  rw [readKey_congr (hstore hatomic target hmem)]
  exact h hatomic clock (le_trans hclock hle)

include hclock hstore in
theorem Ready.frame (h : Ready σ job currentTime k) : Ready σ' job currentTime k :=
  fun hmany j target hj htarget =>
    (h hmany j target hj htarget).frame hclock hstore (mem_of_getElem? htarget)

include hcounts in
theorem Told.frame {outcome : Outcome} (h : Told σ.log i job outcome) :
    Told σ'.log i job outcome := by
  cases outcome with
  | single result => exact ⟨h.1, Counts.frame hcounts h.2⟩
  | many result =>
    exact ⟨fun hr => (h.1 hr).frame hcounts, fun ha hr => (h.2 ha hr).frame hcounts⟩
  | failed error => trivial

include hclock hcounts hstore in
theorem Committing.frame (h : Committing σ i job currentTime committed attempt) :
    Committing σ' i job currentTime committed attempt := { h with
  counts := h.counts.frame hcounts
  ready := h.ready.frame hclock hstore }

end Frame

/-- A call keeps what holds of it while time passes, no one else charges in its name and, with a
store of its own, no one writes the keys whose locks it holds. -/
theorem CallInv.frame {σ σ' : Shared config.algorithm} {i : Nat} {t : Caller (Stored config)}
    (hclock : σ.clock ≤ σ'.clock)
    (hcounts : ∀ place, chargesBy σ'.log i place = chargesBy σ.log i place)
    (hstore : config.atomic = false → Working t.phase → ∀ target ∈ t.job.targets,
      σ'.store.get (t.job.place config target.namespacedKey) =
        σ.store.get (t.job.place config target.namespacedKey))
    (h : CallInv σ i t) : CallInv σ' i t := by
  obtain ⟨job, phase⟩ := t
  cases phase with
  | entering => exact Counts.frame hcounts h
  | locking acquired todo | waiting acquired key todo | timing => exact Counts.frame hcounts h
  | preflight currentTime results =>
    refine ⟨h.1.frame hcounts, h.2.1, fun j target result htarget hresult hallowed => ?_⟩
    exact (h.2.2 j target result htarget hresult hallowed).frame hclock
      (fun ha => hstore ha trivial) (mem_of_getElem? htarget)
  | committing currentTime preflight committed attempt =>
    exact Committing.frame hclock hcounts (fun ha => hstore ha trivial) h
  | writing currentTime preflight committed attempt target expected result value ttlMs =>
    have hold : Writing σ i job currentTime committed attempt target expected result value ttlMs :=
      h
    have hsame := fun ha => hstore ha trivial
    refine { hold.toCommitting.frame hclock hcounts hsame with
      here := hold.here
      allowed := hold.allowed
      evaluated := hold.evaluated
      stands := fun ha state hstate => ?_ }
    rw [hsame ha target (mem_of_getElem? hold.here)]
    exact hold.stands ha state hstate
  | unlocking outcome | done outcome => exact Told.frame hcounts h

/-! ### What its own step does -/

/-- What a step of a call stores, if it stores anything. -/
inductive Effect (σ : Shared config.algorithm) (i : Nat) (t : Caller (Stored config))
    (σ' : Shared config.algorithm) : Prop
  | quiet (hstore : σ'.store = σ.store) (hlog : σ'.log = σ.log)
  | stored (target : Target) (currentTime : Rat) (result : RateLimitResult)
      (value : Stored config) (ttlMs : Rat) (hmem : target ∈ t.job.targets)
      (hworking : Working t.phase)
      (hσ' : σ' = record config σ i (t.job.place config target.namespacedKey) currentTime value
        result.allowed ttlMs)
      (hevaluated : evaluate currentTime t.job.windowMs target.limit true config.algorithm
        ((σ.store.get (t.job.place config target.namespacedKey)).map (·.value)) =
          ⟨result, some (value, ttlMs)⟩)
      (htimely : ∀ entry, σ.store.get (t.job.place config target.namespacedKey) = some entry →
        ∀ last, (storedAt σ.log (t.job.place config target.namespacedKey)).head? = some last →
          Timely config.algorithm last currentTime)

structure CallStep (σ : Shared config.algorithm) (i : Nat) (t : Caller (Stored config))
    (σ' : Shared config.algorithm) (t' : Caller (Stored config)) : Prop where
  clock : σ'.clock = σ.clock
  job : t'.job = t.job
  own : CallInv σ' i t'
  effect : Effect σ i t σ'

section Step

variable {σ : Shared config.algorithm} {i : Nat} {t : Caller (Stored config)}
  {phase : Phase (Stored config)}

theorem CallStep.quiet (h : CallInv σ i (t.to phase)) : CallStep σ i t σ (t.to phase) :=
  ⟨rfl, rfl, h, .quiet rfl rfl⟩

theorem CallStep.locks {locks : List (Place × Nat)} (h : CallInv σ i (t.to phase)) :
    CallStep σ i t { σ with locks := locks } (t.to phase) := by
  refine ⟨rfl, rfl, ?_, .quiet rfl rfl⟩
  exact CallInv.frame (σ := σ) le_rfl (fun _ => rfl) (fun _ _ _ _ => rfl) h

theorem place_injective {job : Job} {j : Nat} {target other : Target}
    (hj : job.targets[j]? = some target) (hk : job.targets[k]? = some other)
    (h : job.place config target.namespacedKey = job.place config other.namespacedKey) : j = k := by
  have hkey : target.namespacedKey = other.namespacedKey := congrArg Prod.snd h
  obtain ⟨hjlt, hjeq⟩ := List.getElem?_eq_some_iff.mp hj
  obtain ⟨hklt, hkeq⟩ := List.getElem?_eq_some_iff.mp hk
  have hnodup := job.nodup
  rw [nodup_iff_injective_getElem] at hnodup
  have hfin := @hnodup ⟨j, by simpa using hjlt⟩ ⟨k, by simpa using hklt⟩
    (by simp [hjeq, hkeq, hkey])
  exact congrArg Fin.val hfin

theorem admitted_of_preflight {target : Target} {commit : Bool}
    (h : (evaluate currentTime t.job.windowMs target.limit commit config.algorithm
      (readKey config.atomic σ.clock σ.store (t.job.place config target.namespacedKey))).result.allowed
        = true) : Admitted σ t.job currentTime target := by
  intro _ clock hle
  rw [evaluate_allowed] at h
  have hlater : readKey config.atomic clock σ.store (t.job.place config target.namespacedKey) =
      readKey config.atomic σ.clock σ.store (t.job.place config target.namespacedKey) ∨
      readKey config.atomic clock σ.store (t.job.place config target.namespacedKey) = none :=
    readKey_later hle
  rcases hlater with hsame | hnone
  · rwa [hsame]
  rw [hnone]
  cases hread : readKey config.atomic σ.clock σ.store (t.job.place config target.namespacedKey) with
  | none =>
    rwa [hread] at h
  | some state =>
    rw [hread] at h
    exact evaluate_allowed_none h

variable {preflight : List RateLimitResult} {result : RateLimitResult}

theorem settle_inv
    (hcounts : Counts σ.log i t.job (committed.length + if result.allowed then 1 else 0))
    (hsingle : t.job.many = false → committed = [])
    (hallowed : config.atomic = false → t.job.many = true → result.allowed = true)
    (hready : Ready σ t.job currentTime (committed.length + 1)) :
    CallInv σ i (t.to (settle t currentTime preflight committed result)) := by
  cases hmany : t.job.many with
  | false =>
    have hsettle : settle t currentTime preflight committed result =
        .unlocking (.single result) := by simp [settle, hmany]
    rw [hsettle]
    rw [hsingle hmany, length_nil, Nat.zero_add] at hcounts
    exact ⟨hmany, hcounts⟩
  | true =>
    cases hresult : result.allowed with
    | false =>
      have hsettle : settle t currentTime preflight committed result =
          .unlocking (.many (manyResult t.job (committed ++ [result] ++
            preflight.drop (committed ++ [result]).length) false)) := by
        simp [settle, hmany, hresult]
      rw [hsettle]
      refine ⟨fun h => (by cases h), fun hatomic _ => ?_⟩
      have htrue := hallowed hatomic hmany
      rw [hresult] at htrue
      cases htrue
    | true =>
      have hsettle : settle t currentTime preflight committed result =
          .committing currentTime preflight (committed ++ [result]) 0 := by
        simp [settle, hmany, hresult]
      rw [hsettle]
      have hlength : (committed ++ [result]).length = committed.length + 1 := by simp
      rw [hresult] at hcounts
      refine ⟨?_, by decide, fun hnot => ?_, ?_⟩
      · rwa [hlength]
      · have hcontra := hmany.symm.trans hnot
        cases hcontra
      · rwa [hlength]

theorem evaluateKey_inv {target : Target} (h : Committing σ i t.job currentTime committed attempt)
    (htarget : t.job.targets[committed.length]? = some target) :
    CallInv σ i (t.to (evaluateKey config σ t currentTime preflight committed attempt target)) := by
  have hready : Ready σ t.job currentTime (committed.length + 1) :=
    fun hmany j other hj hother => h.ready hmany j other (by omega) hother
  simp only [evaluateKey]
  split
  · trivial
  rename_i evaluation hevaluation
  obtain ⟨-, -, hevaluate⟩ := evaluateState_ok hevaluation
  have hallowed : config.atomic = false → t.job.many = true → evaluation.result.allowed = true := by
    intro hatomic hmany
    rw [← hevaluate]
    exact h.ready hmany _ target le_rfl htarget hatomic σ.clock le_rfl
  split
  · rename_i hnext
    -- nothing is stored, so nothing was admitted
    have hdenied : evaluation.result.allowed = false := by
      rw [Bool.eq_false_iff]
      intro htrue
      rw [← hevaluate] at htrue hnext
      obtain ⟨next, hsome⟩ := evaluate_allowed_next htrue
      rw [hsome] at hnext
      cases hnext
    apply settle_inv _ h.single hallowed hready
    rw [hdenied]
    exact h.counts
  · rename_i value ttlMs hnext
    refine { h with
      here := htarget
      allowed := hallowed
      evaluated := ?_
      stands := fun _ state hstate => readKey_some hstate }
    rw [Caller.to_job, hevaluate]
    obtain ⟨result, next⟩ := evaluation
    cases hnext
    rfl

theorem chargesBy_record (σ : Shared config.algorithm) (i : Nat) (place other : Place)
    (currentTime : Rat) (value : Stored config) (charged : Bool) (ttlMs : Rat) :
    chargesBy (record config σ i place currentTime value charged ttlMs).log i other =
      chargesBy σ.log i other + if place = other ∧ charged = true then 1 else 0 := by
  simp only [chargesBy, record, countP_cons]
  simp

theorem chargesBy_record_other (σ : Shared config.algorithm) {i j : Nat} (place other : Place)
    (currentTime : Rat) (value : Stored config) (charged : Bool) (ttlMs : Rat) (hne : j ≠ i) :
    chargesBy (record config σ i place currentTime value charged ttlMs).log j other =
      chargesBy σ.log j other := by
  simp only [chargesBy, record, countP_cons]
  simp [Ne.symm hne]

variable {expected : Option (Stored config)} {value : Stored config} {ttlMs : Rat}

theorem evaluated_on_stored {target : Target}
    (h : Writing σ i t.job currentTime committed attempt target expected result value ttlMs)
    (hthrough : goesThrough config σ (t.job.place config target.namespacedKey) expected = true)
    (hspent : ∀ entry, σ.store.get (t.job.place config target.namespacedKey) = some entry →
      expected = none →
        Spent currentTime t.job.windowMs target.limit config.algorithm entry.value) :
    evaluate currentTime t.job.windowMs target.limit true config.algorithm
      ((σ.store.get (t.job.place config target.namespacedKey)).map (·.value)) =
        ⟨result, some (value, ttlMs)⟩ := by
  rw [← h.evaluated]
  cases hexpected : expected with
  | some state =>
    have hstands : ∃ entry, σ.store.get (t.job.place config target.namespacedKey) = some entry ∧
        entry.value = state := by
      cases hatomic : config.atomic with
      | false => exact h.stands hatomic state hexpected
      | true =>
        simp only [goesThrough, hatomic, Bool.not_true, Bool.false_or, decide_eq_true_eq]
          at hthrough
        exact readKey_some (hthrough.trans hexpected)
    obtain ⟨entry, hentry, hvalue⟩ := hstands
    rw [hentry, Option.map_some, hvalue]
  | none =>
    cases hentry : σ.store.get (t.job.place config target.namespacedKey) with
    | none => rfl
    | some entry => exact evaluate_spent true (hspent entry hentry hexpected)

theorem sound_writing {target : Target} (hphase : t.phase =
      .writing currentTime preflight committed attempt target expected result value ttlMs)
    (hsound : sound config σ t = true)
    (hthrough : goesThrough config σ (t.job.place config target.namespacedKey) expected = true)
    {entry : Entry (Stored config)}
    (hentry : σ.store.get (t.job.place config target.namespacedKey) = some entry) :
    (expected = none → Spent currentTime t.job.windowMs target.limit config.algorithm entry.value) ∧
    ∀ last, (storedAt σ.log (t.job.place config target.namespacedKey)).head? = some last →
      Timely config.algorithm last currentTime := by
  simp only [sound, hphase, hthrough, Bool.not_true, Bool.false_or, hentry, Option.all_some,
    Bool.and_eq_true, Bool.or_eq_true, decide_eq_true_eq] at hsound
  refine ⟨fun hnone => hsound.1.resolve_left (by simp [hnone]), fun last hlast => ?_⟩
  have hall := hsound.2
  rw [hlast] at hall
  exact of_decide_eq_true hall

theorem call_step {index : Nat} {r : Shared config.algorithm × Caller (Stored config)}
    (h : CallInv σ i t) (hsound : sound config σ t = true)
    (hstep : advance config σ i t index = some r) : CallStep σ i t r.1 r.2 := by
  simp only [advance] at hstep
  split at hstep
  case h_1 hphase =>
    cases hstep
    simp only [CallInv, hphase] at h
    apply CallStep.quiet
    split_ifs with hempty
    · refine ⟨fun _ j target htarget => ?_, fun _ h => by cases h⟩
      rw [Caller.to_job, hempty] at htarget
      cases htarget
    · exact h
  case h_2 acquired hphase =>
    cases hstep
    simp only [CallInv, hphase] at h
    exact CallStep.quiet h
  case h_3 acquired key todo hphase =>
    cases hstep
    simp only [CallInv, hphase] at h
    exact CallStep.locks h
  case h_4 acquired key todo hphase =>
    split_ifs at hstep
    cases hstep
    simp only [CallInv, hphase] at h
    exact CallStep.quiet h
  case h_5 hphase =>
    cases hstep
    simp only [CallInv, hphase] at h
    apply CallStep.quiet
    split_ifs with hmany
    · refine ⟨h, by simp, fun j target result _ hresult _ => ?_⟩
      rw [getElem?_map] at hresult
      obtain ⟨-, -, hnone⟩ := Option.map_eq_some_iff.mp hresult
      cases hnone
    · exact ⟨h, by decide, fun _ => rfl, fun htrue => absurd htrue hmany⟩
  case h_6 currentTime results hphase =>
    simp only [CallInv, hphase] at h
    obtain ⟨hcounts, hlength, hadmitted⟩ := h
    by_cases hall : results.all Option.isSome = true
    · rw [if_pos hall] at hstep
      cases hstep
      apply CallStep.quiet
      split_ifs with hallowed
      · refine ⟨hcounts, by decide, fun _ => rfl, fun _ j target _ htarget => ?_⟩
        have hlt : j < results.length := by
          rw [hlength]
          exact (List.getElem?_eq_some_iff.mp htarget).1
        have hmem : results[j] ∈ results := getElem_mem hlt
        obtain ⟨result, hresult⟩ := Option.isSome_iff_exists.mp (all_eq_true.mp hall _ hmem)
        have hin : result ∈ results.filterMap id := by
          rw [mem_filterMap]
          exact ⟨_, hmem, hresult⟩
        exact hadmitted j target result htarget
          (by rw [getElem?_eq_getElem hlt, hresult]) (all_eq_true.mp hallowed _ hin)
      · exact ⟨fun h => (by cases h), fun _ _ => hcounts⟩
    · rw [if_neg hall] at hstep
      split at hstep
      · rename_i target htarget hresult
        split at hstep
        · cases hstep
          exact CallStep.quiet trivial
        rename_i evaluation hevaluation
        cases hstep
        obtain ⟨-, -, hevaluate⟩ := evaluateState_ok hevaluation
        apply CallStep.quiet
        refine ⟨hcounts, by simpa using hlength, fun j other result hother hj hallowed => ?_⟩
        by_cases hindex : index = j
        · subst hindex
          have hsame : target = other := Option.some.inj (htarget.symm.trans hother)
          subst hsame
          have hlt := (List.getElem?_eq_some_iff.mp hresult).1
          rw [getElem?_set_self hlt] at hj
          cases hj
          rw [← hevaluate] at hallowed
          exact admitted_of_preflight hallowed
        · rw [getElem?_set_ne hindex] at hj
          exact hadmitted j other result hother hj hallowed
      · cases hstep
  case h_7 currentTime preflight committed attempt hphase =>
    simp only [CallInv, hphase] at h
    split at hstep
    · rename_i hend
      cases hstep
      apply CallStep.quiet
      refine ⟨fun _ j target htarget => ?_, fun _ h => by cases h⟩
      have hlt := (List.getElem?_eq_some_iff.mp htarget).1
      have hle := getElem?_eq_none_iff.mp hend
      have hcount := h.counts j target htarget
      have hin : t.job.targets.length = (t.to (.unlocking (.many
          (manyResult t.job committed true))) : Caller (Stored config)).job.targets.length := rfl
      rw [if_pos (by omega)] at hcount
      rwa [if_pos (by omega)]
    · rename_i target htarget
      cases hstep
      exact CallStep.quiet (evaluateKey_inv h htarget)
  case h_8 currentTime preflight committed attempt target expected result value ttlMs hphase =>
    have hwriting :
        Writing σ i t.job currentTime committed attempt target expected result value ttlMs := by
      simpa only [CallInv, hphase] using h
    split_ifs at hstep with hthrough hattempt
    · cases hstep
      have hfacts := fun entry
          (hentry : σ.store.get (t.job.place config target.namespacedKey) = some entry) =>
        sound_writing hphase hsound hthrough hentry
      refine ⟨rfl, rfl, ?_, ?_⟩
      · apply settle_inv _ hwriting.single hwriting.allowed
        · intro hmany j other hj hother
          have hadmit := hwriting.ready hmany j other (by omega) hother
          have hne : t.job.place config other.namespacedKey ≠
              t.job.place config target.namespacedKey := by
            intro heq
            have hsame := place_injective hother hwriting.here heq
            omega
          intro hatomic clock hclock
          have hkept : (record config σ i (t.job.place config target.namespacedKey) currentTime
              value result.allowed ttlMs).store.get (t.job.place config other.namespacedKey) =
                σ.store.get (t.job.place config other.namespacedKey) :=
            get_writeKey_other value ttlMs hne
          rw [readKey_congr hkept]
          exact hadmit hatomic clock hclock
        · intro j other hother
          rw [chargesBy_record, hwriting.counts j other hother]
          by_cases hj : j = committed.length
          · subst hj
            have hsame : target = other := Option.some.inj (hwriting.here.symm.trans hother)
            subst hsame
            cases result.allowed with
            | true => simp
            | false => simp
          · have hne : t.job.place config target.namespacedKey ≠
                t.job.place config other.namespacedKey := by
              intro heq
              exact hj (place_injective hwriting.here hother heq).symm
            have hadd : (if t.job.place config target.namespacedKey =
                t.job.place config other.namespacedKey ∧ result.allowed = true then 1 else 0) =
                  0 := if_neg fun hboth => hne hboth.1
            rw [hadd, Nat.add_zero]
            have hiff : j < committed.length ↔
                j < committed.length + if result.allowed = true then 1 else 0 := by
              split_ifs
              all_goals omega
            simp only [← hiff]
      · refine .stored target currentTime result value ttlMs (mem_of_getElem? hwriting.here)
          (by rw [hphase]; trivial) rfl ?_ fun entry hentry => (hfacts entry hentry).2
        exact evaluated_on_stored hwriting hthrough fun entry hentry => (hfacts entry hentry).1
    · cases hstep
      apply CallStep.quiet
      refine ⟨hwriting.counts, hattempt, hwriting.single, fun _ j other _ _ hatomic => ?_⟩
      -- only a shared store refuses a write
      simp [goesThrough, hatomic] at hthrough
    · cases hstep
      exact CallStep.quiet trivial
  case h_9 outcome hphase =>
    cases hstep
    simp only [CallInv, hphase] at h
    exact CallStep.locks h
  case h_10 => cases hstep

end Step

end SuperFunctions.Middleware.RateLimiterRuns
