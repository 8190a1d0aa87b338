import SuperFunctions.Middleware.RateLimiter

/-!
# The locks of a rate limiter

A call asks for its locks in the order of their keys and holds them until it has settled. So no
two calls of a process work on one key at once, and no calls wait only for each other.
-/
namespace SuperFunctions.Middleware.RateLimiterLocks

open Lib.LockQueues Lib.Processes RateLimitAlgorithms RateLimiter List

variable {config : RateLimitConfig}

/-- The keys whose locks a call holds. -/
def held {S : Type} (t : Caller S) : List String :=
  match t.phase with
  | .entering => []
  | .locking acquired _ => acquired
  | .waiting acquired _ _ => acquired
  | .done _ => []
  | _ => t.job.sortedKeys

/-- The keys whose locks a call has asked for. -/
def asked {S : Type} (t : Caller S) : List String :=
  match t.phase with
  | .waiting acquired key _ => acquired ++ [key]
  | _ => held t

/-- What a call has acquired, and what it has still to ask for. -/
def Ordered {S : Type} (t : Caller S) : Prop :=
  match t.phase with
  | .locking acquired todo => acquired ++ todo = t.job.sortedKeys
  | .waiting acquired key todo => acquired ++ key :: todo = t.job.sortedKeys
  | _ => True

structure LockInv {S : Type} (locks : List (Place × Nat)) (i : Nat) (t : Caller S) : Prop where
  ordered : Ordered t
  asked : ∀ place, (place, i) ∈ locks ↔ ∃ key ∈ asked t, place = t.job.lock key
  held : ∀ key ∈ held t, holder locks (t.job.lock key) = some i

/-- What a step of call `i` does to the locks. -/
structure LockStep {S : Type} (locks : List (Place × Nat)) (i : Nat) (locks' : List (Place × Nat))
    (t' : Caller S) : Prop where
  nodup : locks'.Nodup
  own : LockInv locks' i t'
  others : ∀ place j, j ≠ i → ((place, j) ∈ locks' ↔ (place, j) ∈ locks)
  holders : ∀ place j, j ≠ i → holder locks place = some j → holder locks' place = some j

variable {key : String}

section Step

variable {S : Type} {locks : List (Place × Nat)} {i : Nat} {t : Caller S}

theorem LockStep.stay {t' : Caller S} (hnodup : locks.Nodup) (h : LockInv locks i t)
    (hjob : t'.job = t.job) (hordered : Ordered t') (hasked : RateLimiterLocks.asked t' =
      RateLimiterLocks.asked t) (hheld : RateLimiterLocks.held t' = RateLimiterLocks.held t) :
    LockStep locks i locks t' := by
  refine ⟨hnodup, ⟨hordered, ?_, ?_⟩, fun _ _ _ => Iff.rfl, fun _ _ _ => id⟩
  · intro place
    rw [hasked, hjob]
    exact h.asked place
  · intro key hkey
    rw [hheld] at hkey
    rw [hjob]
    exact h.held key hkey

theorem sortedKeys_nodup (job : Job) : job.sortedKeys.Nodup :=
  (perm_insertionSort _ _).nodup_iff.mpr job.nodup

theorem mem_sortedKeys {job : Job} :
    key ∈ job.sortedKeys ↔ ∃ target ∈ job.targets, target.namespacedKey = key := by
  simp [Job.sortedKeys, mem_insertionSort]

theorem lock_injective (job : Job) : Function.Injective job.lock :=
  fun _ _ h => congrArg Prod.snd h

theorem LockStep.ask {acquired todo : List String} (hnodup : locks.Nodup) (h : LockInv locks i t)
    (hphase : t.phase = .locking acquired (key :: todo)) :
    LockStep locks i (enqueue locks (t.job.lock key) i) (t.to (.waiting acquired key todo)) := by
  have hordered : acquired ++ key :: todo = t.job.sortedKeys := by
    have h := h.ordered
    simpa only [Ordered, hphase] using h
  have hheld : held t = acquired := by simp only [RateLimiterLocks.held, hphase]
  have hasked : asked t = acquired := by simp only [RateLimiterLocks.asked, hphase, hheld]
  have hnew : (t.job.lock key, i) ∉ locks := by
    intro hmem
    obtain ⟨other, hother, heq⟩ := (h.asked _).mp hmem
    rw [hasked] at hother
    have hsame := lock_injective _ heq
    subst hsame
    have hkeys := sortedKeys_nodup t.job
    rw [← hordered] at hkeys
    exact (nodup_append.mp hkeys).2.2 _ hother _ mem_cons_self rfl
  refine ⟨?_, ⟨hordered, fun place => ?_, fun other hother => ?_⟩, fun place j hj => ?_,
    fun place j hj hold => holder_enqueue hold⟩
  · apply nodup_append.mpr
    refine ⟨hnodup, nodup_singleton _, fun a ha b hb heq => ?_⟩
    rw [mem_singleton] at hb
    exact hnew (hb ▸ heq ▸ ha)
  · show (place, i) ∈ enqueue locks (t.job.lock key) i ↔ ∃ k ∈ acquired ++ [key], place = t.job.lock k
    rw [mem_enqueue, h.asked, hasked]
    simp only [mem_append, mem_singleton]
    constructor
    · rintro (⟨k, hk, heq⟩ | ⟨heq, -⟩)
      · exact ⟨k, .inl hk, heq⟩
      · exact ⟨key, .inr rfl, heq⟩
    · rintro ⟨k, hk | hk, heq⟩
      · exact .inl ⟨k, hk, heq⟩
      · exact .inr ⟨hk ▸ heq, trivial⟩
  · exact holder_enqueue (h.held other (by rw [hheld]; exact hother))
  rw [mem_enqueue]
  constructor
  · rintro (hold | ⟨-, hij⟩)
    · exact hold
    · exact absurd hij hj
  · exact .inl

theorem LockStep.acquire {acquired todo : List String} (hnodup : locks.Nodup)
    (h : LockInv locks i t) (hphase : t.phase = .waiting acquired key todo)
    (hholder : holder locks (t.job.lock key) = some i) :
    LockStep locks i locks (t.to (.locking (acquired ++ [key]) todo)) := by
  have hordered : acquired ++ key :: todo = t.job.sortedKeys := by
    have h := h.ordered
    simpa only [Ordered, hphase] using h
  have hheld : held t = acquired := by simp only [RateLimiterLocks.held, hphase]
  have hasked : asked t = acquired ++ [key] := by simp only [RateLimiterLocks.asked, hphase]
  refine ⟨hnodup, ⟨?_, fun place => ?_, fun other hother => ?_⟩, fun _ _ _ => Iff.rfl,
    fun _ _ _ => id⟩
  · show (acquired ++ [key]) ++ todo = t.job.sortedKeys
    rwa [append_assoc]
  · rw [h.asked, hasked]
    rfl
  have hmem : other ∈ acquired ++ [key] := hother
  rcases mem_append.mp hmem with hbefore | hlast
  · exact h.held other (by rw [hheld]; exact hbefore)
  · rw [mem_singleton] at hlast
    subst hlast
    exact hholder

theorem LockStep.release {outcome : Outcome} (hnodup : locks.Nodup) :
    LockStep locks i (leave locks i) (t.to (.done outcome)) := by
  refine ⟨hnodup.filter _, ⟨trivial, fun place => ?_, fun key hkey => ?_⟩, fun place j hj => ?_,
    fun place j hj hold => holder_leave hold hj⟩
  · show (place, i) ∈ leave locks i ↔ ∃ key ∈ ([] : List String), place = t.job.lock key
    rw [mem_leave]
    simp
  · exact (not_mem_nil hkey).elim
  · rw [mem_leave]
    exact ⟨fun h => h.1, fun h => ⟨h, hj⟩⟩

end Step

/-- A phase in which a call has all its locks. -/
def Working {S : Type} : Phase S → Prop
  | .timing => True
  | .preflight _ _ => True
  | .committing _ _ _ _ => True
  | .writing _ _ _ _ _ _ _ _ _ => True
  | .unlocking _ => True
  | _ => False

theorem held_of_working {S : Type} {t : Caller S} (h : Working t.phase) :
    held t = t.job.sortedKeys ∧ asked t = t.job.sortedKeys ∧ Ordered t := by
  obtain ⟨job, phase⟩ := t
  cases phase with
  | entering => cases h
  | locking acquired todo => cases h
  | waiting acquired key todo => cases h
  | done outcome => cases h
  | timing => exact ⟨rfl, rfl, trivial⟩
  | preflight now results | committing now preflight committed attempt => exact ⟨rfl, rfl, trivial⟩
  | writing | unlocking outcome => exact ⟨rfl, rfl, trivial⟩

variable {i : Nat} {locks : List (Place × Nat)}

theorem LockStep.work {S : Type} {t : Caller S} {phase : Phase S} (hnodup : locks.Nodup)
    (h : LockInv locks i t) (hfrom : Working t.phase) (hto : Working phase) :
    LockStep locks i locks (t.to phase) := by
  obtain ⟨hheld, hasked, -⟩ := held_of_working hfrom
  obtain ⟨hheld', hasked', hordered'⟩ := held_of_working (t := t.to phase) hto
  exact LockStep.stay hnodup h rfl hordered' (hasked'.trans hasked.symm) (hheld'.trans hheld.symm)

theorem settle_working {S : Type} (t : Caller S) (currentTime : Rat)
    (preflight committed : List RateLimitResult) (result : RateLimitResult) :
    Working (settle t currentTime preflight committed result) := by
  simp only [settle]
  split_ifs
  · trivial
  · trivial
  · trivial

theorem evaluateKey_working (σ : Shared config.algorithm) (t : Caller (Stored config))
    (currentTime : Rat) (preflight committed : List RateLimitResult) (attempt : Nat)
    (target : Target) :
    Working (evaluateKey config σ t currentTime preflight committed attempt target) := by
  simp only [evaluateKey]
  split
  · trivial
  · split
    · exact settle_working t currentTime preflight committed _
    · trivial

variable {t : Caller (Stored config)}

theorem lock_step {σ : Shared config.algorithm} {index : Nat}
    {r : Shared config.algorithm × Caller (Stored config)} (hnodup : σ.locks.Nodup)
    (h : LockInv σ.locks i t) (hstep : advance config σ i t index = some r) :
    LockStep σ.locks i r.1.locks r.2 := by
  simp only [advance] at hstep
  split at hstep
  case h_1 hphase =>
    cases hstep
    have hnone : held t = [] := by simp only [held, hphase]
    have hnothing : asked t = [] := by simp only [asked, hphase, hnone]
    split_ifs
    · exact LockStep.stay hnodup h rfl trivial hnothing.symm hnone.symm
    · exact LockStep.stay hnodup h rfl rfl hnothing.symm hnone.symm
  case h_2 acquired hphase =>
    cases hstep
    have hordered : acquired ++ [] = t.job.sortedKeys := by
      have h := h.ordered
      simpa only [Ordered, hphase] using h
    rw [append_nil] at hordered
    have hheld : held t = t.job.sortedKeys := by simp only [held, hphase, hordered]
    have hasked : asked t = t.job.sortedKeys := by simp only [asked, hphase, hheld]
    exact LockStep.stay hnodup h rfl trivial hasked.symm hheld.symm
  case h_3 acquired key todo hphase =>
    cases hstep
    exact LockStep.ask hnodup h hphase
  case h_4 acquired key todo hphase =>
    split_ifs at hstep with hholder
    cases hstep
    exact LockStep.acquire hnodup h hphase hholder
  case h_5 hphase =>
    cases hstep
    apply LockStep.work hnodup h (by rw [hphase]; trivial)
    split_ifs
    · trivial
    · trivial
  case h_6 currentTime results hphase =>
    have hworking : Working t.phase := by rw [hphase]; trivial
    by_cases hall : results.all Option.isSome = true
    · rw [if_pos hall] at hstep
      cases hstep
      apply LockStep.work hnodup h hworking
      split_ifs
      · trivial
      · trivial
    · rw [if_neg hall] at hstep
      split at hstep
      · split at hstep
        · cases hstep
          exact LockStep.work hnodup h hworking trivial
        · cases hstep
          exact LockStep.work hnodup h hworking trivial
      · cases hstep
  case h_7 currentTime preflight committed attempt hphase =>
    have hworking : Working t.phase := by rw [hphase]; trivial
    split at hstep
    · cases hstep
      exact LockStep.work hnodup h hworking trivial
    · cases hstep
      exact LockStep.work hnodup h hworking
        (evaluateKey_working σ t currentTime preflight committed attempt _)
  case h_8 currentTime preflight committed attempt target expected result value ttlMs hphase =>
    have hworking : Working t.phase := by rw [hphase]; trivial
    split_ifs at hstep
    · cases hstep
      exact LockStep.work hnodup h hworking
        (settle_working t currentTime preflight committed result)
    · cases hstep
      exact LockStep.work hnodup h hworking trivial
    · cases hstep
      exact LockStep.work hnodup h hworking trivial
  case h_9 outcome hphase =>
    cases hstep
    exact LockStep.release hnodup
  case h_10 => cases hstep

/-! ## Every run -/

structure LocksInv (s : Limiters config) : Prop where
  nodup : s.shared.locks.Nodup
  each : Each (fun σ i t => LockInv σ.locks i t) s
  /-- Only calls that were made have asked for locks. -/
  known : ∀ place i, (place, i) ∈ s.shared.locks → i < s.procs.length

theorem locksInv_start (clock : Rat) : LocksInv (start config clock) where
  nodup := nodup_nil
  each := each_nil _ _
  known := fun _ _ h => (not_mem_nil h).elim

theorem locksInv_step {s s' : Limiters config} {a : Act Call Choice} (h : LocksInv s)
    (hstep : step config s a = some s') : LocksInv s' := by
  rcases act_cases hstep with ⟨call, -, hs'⟩ | ⟨i, c, t, σ', t', -, ht, hnext, hs'⟩
  · subst hs'
    refine ⟨h.nodup, each_spawn h.each ?_, fun place i hmem => ?_⟩
    · refine ⟨trivial, fun place => ⟨fun hmem => ?_, ?_⟩, fun key hkey => ?_⟩
      · have hlt := h.known place _ hmem
        omega
      · rintro ⟨key, hkey, -⟩
        exact (not_mem_nil hkey).elim
      · exact (not_mem_nil hkey).elim
    · have hlt := h.known place i hmem
      rw [length_append]
      omega
  · subst hs'
    have hown : LockInv s.shared.locks i t := h.each i t ht
    have hlock := lock_step (σ := s.shared.wait c.elapsed) h.nodup hown hnext
    refine ⟨hlock.nodup, each_move hlock.own fun j u hne hu => ?_, fun place j hmem => ?_⟩
    · have hold : LockInv s.shared.locks j u := h.each j u hu
      refine ⟨hold.ordered, fun place => ?_, fun key hkey => ?_⟩
      · rw [hlock.others place j hne]
        exact hold.asked place
      · exact hlock.holders _ j hne (hold.held key hkey)
    · rw [length_set]
      by_cases hj : j = i
      · subst hj
        exact (List.getElem?_eq_some_iff.mp ht).1
      · exact h.known place j ((hlock.others place j hj).mp hmem)

theorem held_exclusive {s : Limiters config} (h : LocksInv s) {j : Nat} {u : Caller (Stored config)}
    (ht : s.procs[i]? = some t) (hu : s.procs[j]? = some u) {key' : String} (hkey : key ∈ held t)
    (hkey' : key' ∈ held u) (hlock : t.job.lock key = u.job.lock key') : i = j := by
  have hi := (h.each i t ht).held key hkey
  have hj := (h.each j u hu).held key' hkey'
  rw [hlock] at hi
  exact Option.some.inj (hi.symm.trans hj)

/-! ## Waiting -/

/-- Call `i` is queued behind call `j` for the lock it waits for. -/
def WaitsFor (s : Limiters config) (i j : Nat) : Prop :=
  ∃ t acquired key todo, s.procs[i]? = some t ∧ t.phase = .waiting acquired key todo ∧
    Ahead s.shared.locks (t.job.lock key) j i

/-- The lock that a call waits for. -/
def waitingFor (s : Limiters config) (i : Nat) : Option Place :=
  (s.procs[i]?).bind fun t => match t.phase with
    | .waiting _ key _ => some (t.job.lock key)
    | _ => none

theorem waitingFor_spec {s : Limiters config} {place : Place} (h : waitingFor s i = some place) :
    ∃ t acquired key todo, s.procs[i]? = some t ∧
      t.phase = .waiting acquired key todo ∧ place = t.job.lock key := by
  obtain ⟨t, ht, hrest⟩ := Option.bind_eq_some_iff.mp h
  split at hrest
  · rename_i acquired key todo hphase
    exact ⟨t, acquired, key, todo, ht, hphase, (Option.some.inj hrest).symm⟩
  · cases hrest

theorem waiting_last (h : LockInv locks i t) {acquired todo : List String}
    (hphase : t.phase = .waiting acquired key todo) {place : Place} (hmem : (place, i) ∈ locks) :
    toLex place ≤ toLex (t.job.lock key) := by
  have hordered : acquired ++ key :: todo = t.job.sortedKeys := by
    have h := h.ordered
    simpa only [Ordered, hphase] using h
  have hsorted : t.job.sortedKeys.Pairwise (· ≤ ·) := pairwise_insertionSort _ _
  obtain ⟨other, hother, hplace⟩ := (h.asked place).mp hmem
  subst hplace
  apply Prod.Lex.le_iff.mpr
  refine .inr ⟨rfl, ?_⟩
  have hasked : asked t = acquired ++ [key] := by simp only [asked, hphase]
  rw [hasked] at hother
  rcases mem_append.mp hother with hbefore | hlast
  · rw [← hordered] at hsorted
    exact (pairwise_append.mp hsorted).2.2 _ hbefore _ mem_cons_self
  · rw [mem_singleton] at hlast
    exact le_of_eq hlast

/-- No set of calls waits only for each other. -/
theorem no_waiting_calls {s : Limiters config} (h : LocksInv s) {S : Set Nat}
    (hclosed : ∀ i ∈ S, ∃ j ∈ S, WaitsFor s i j) : S = ∅ := by
  apply no_waiting_set toLex (fun _ _ => id) h.nodup (waitingFor s)
  · intro i place place' hwaits hmem
    obtain ⟨t, acquired, key, todo, ht, hphase, hplace⟩ := waitingFor_spec hwaits
    subst hplace
    exact waiting_last (h.each i t ht) hphase hmem
  · intro i hi
    obtain ⟨j, hj, t, acquired, key, todo, ht, hphase, hahead⟩ := hclosed i hi
    refine ⟨t.job.lock key, j, ?_, hj, hahead⟩
    simp [waitingFor, ht, hphase]

end SuperFunctions.Middleware.RateLimiterLocks
