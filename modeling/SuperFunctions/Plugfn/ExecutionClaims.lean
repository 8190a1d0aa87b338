import Mathlib.Algebra.Order.Ring.Unbundled.Rat
import SuperFunctions.Lib.OrderedMap
import SuperFunctions.Lib.Processes

/-!
# What becomes of an execution claim

The events on the claims of a store, the latest first, what they leave under a key, and which of
them may follow which. A claim is told apart by its token.
-/
namespace SuperFunctions.Plugfn.ExecutionClaims

open List

open Option

inductive ClaimState
  | idle
  | running
  | uncertain
deriving DecidableEq

structure Claim where
  state : ClaimState
  token : Nat
  expiresAt : Rat
deriving DecidableEq

/-- `{ ...claim, state }` -/
def Claim.withState (claim : Claim) (state : ClaimState) : Claim := { claim with state := state }

variable {claim : Claim}

theorem Claim.withState_self {state : ClaimState} (h : claim.state = state) :
    claim.withState state = claim := by
  subst h
  rfl

/-- A claim was taken and its work started, its own run set it idle or in doubt, a reconciliation
set it idle, or a run was refused because its lease had run out. -/
inductive Event
  | started (key : String) (claim : Claim)
  | released (key : String) (claim : Claim)
  | doubted (key : String) (claim : Claim)
  | reconciled (key : String) (claim : Claim) (now : Rat)
  | lapsed (key : String) (claim : Claim) (now : Rat)
deriving DecidableEq

/-- What an event writes. -/
def Event.written : Event → Option (String × Claim)
  | .started key claim => some (key, claim)
  | .released key claim => some (key, claim.withState .idle)
  | .doubted key claim => some (key, claim.withState .uncertain)
  | .reconciled key claim _ => some (key, claim.withState .idle)
  | .lapsed _ _ _ => none

/-- The claim that stands under a key. -/
def claimOn : List Event → String → Option Claim
  | [], _ => none
  | e :: log, key =>
    match e.written with
    | some (k, claim) => if k = key then some claim else claimOn log key
    | none => claimOn log key

/-- A claim that may be set idle by hand: its work is in doubt, or still running past its lease. -/
def Claim.Reconcilable (claim : Claim) (now : Rat) : Prop :=
  claim.state ≠ .idle ∧ (claim.state = .running → claim.expiresAt ≤ now)

/-- When an event may happen. -/
def Event.Legal (log : List Event) : Event → Prop
  | .started key claim => (∀ held, claimOn log key = some held → held.state = .idle) ∧
      claim.state = .running ∧ ∀ k c, Event.started k c ∈ log → c.token ≠ claim.token
  | .released key claim => claimOn log key = some claim ∧ claim.state = .running
  | .doubted key claim => claimOn log key = some claim ∧ claim.state = .running
  | .reconciled key claim now => claimOn log key = some claim ∧ claim.Reconcilable now
  | .lapsed key claim now =>
      claimOn log key = some claim ∧ claim.state = .running ∧ claim.expiresAt ≤ now

/-- Every event of the log was legal when it happened. -/
def LegalLog : List Event → Prop
  | [] => True
  | e :: log => e.Legal log ∧ LegalLog log

variable {e : Event}

theorem legal_split {later earlier : List Event} (h : LegalLog (later ++ e :: earlier)) :
    e.Legal earlier ∧ LegalLog earlier := by
  induction later with
  | nil => exact h
  | cons a later ih => exact ih h.2

variable {log : List Event}

theorem claimOn_cons {key : String} (h : claimOn (e :: log) key = some claim) :
    e.written = some (key, claim) ∨ claimOn log key = some claim := by
  simp only [claimOn] at h
  split at h
  · rename_i k c hwritten
    split_ifs at h with hkey
    · subst hkey
      cases h
      exact .inl hwritten
    · exact .inr h
  · exact .inr h

section

variable (h : LegalLog log)
include h

theorem started_running {key : String} (hmem : Event.started key claim ∈ log) :
    claim.state = .running := by
  obtain ⟨later, earlier, hlog⟩ := append_of_mem hmem
  subst hlog
  exact (legal_split h).1.2.1

theorem claimOn_started {key : String} (hclaim : claimOn log key = some claim) :
    Event.started key (claim.withState .running) ∈ log := by
  induction log generalizing claim with
  | nil => cases hclaim
  | cons e log ih =>
    obtain ⟨hlegal, hrest⟩ := h
    rcases claimOn_cons hclaim with hwritten | hold
    · cases e with
      | started k c =>
        cases hwritten
        rw [Claim.withState_self hlegal.2.1]
        exact mem_cons_self
      | released k c | doubted k c | reconciled k c now =>
        cases hwritten
        have hstarted := ih hrest hlegal.1
        exact mem_cons_of_mem _ hstarted
      | lapsed k c now => cases hwritten
    · exact mem_cons_of_mem _ (ih hrest hold)

theorem started_unique {k k' : String} {c c' : Claim} (hleft : Event.started k c ∈ log)
    (hright : Event.started k' c' ∈ log) (htoken : c.token = c'.token) : k = k' ∧ c = c' := by
  induction log with
  | nil => cases hleft
  | cons e log ih =>
    obtain ⟨hlegal, hrest⟩ := h
    rcases mem_cons.mp hleft with hnew | hold
    · subst hnew
      rcases mem_cons.mp hright with hsame | hbefore
      · cases hsame
        exact ⟨rfl, rfl⟩
      · exact absurd htoken.symm (hlegal.2.2 k' c' hbefore)
    · rcases mem_cons.mp hright with hnew | hbefore
      · subst hnew
        exact absurd htoken (hlegal.2.2 k c hold)
      · exact ih hrest hold hbefore

theorem claimOn_unique {k k' : String} {c c' : Claim} (hleft : claimOn log k = some c)
    (hright : claimOn log k' = some c') (htoken : c.token = c'.token) : k = k' := by
  have hstarted := claimOn_started h hleft
  have hother := claimOn_started h hright
  exact (started_unique h hstarted hother htoken).1

end

/-- The claim that an event takes out of the running ones. -/
def Event.ends : Event → Option (String × Claim)
  | .released key claim => some (key, claim)
  | .doubted key claim => some (key, claim)
  | .reconciled key claim _ => some (key, claim)
  | _ => none

theorem ends_held {key : String} (h : e.Legal log) (hends : e.ends = some (key, claim)) :
    claimOn log key = some claim := by
  cases e with
  | released k c | doubted k c | reconciled k c now => cases hends; exact h.1
  | started k c => cases hends
  | lapsed k c now => cases hends

theorem ends_mem_started (h : LegalLog log) {key : String} (hmem : e ∈ log)
    (hends : e.ends = some (key, claim)) : Event.started key (claim.withState .running) ∈ log := by
  obtain ⟨later, earlier, hlog⟩ := append_of_mem hmem
  subst hlog
  obtain ⟨hlegal, hrest⟩ := legal_split h
  have hstarted := claimOn_started hrest (ends_held hlegal hends)
  exact mem_append_right _ (mem_cons_of_mem _ hstarted)

theorem ends_written {key : String} (hends : e.ends = some (key, claim)) :
    ∃ state, state ≠ ClaimState.running ∧ e.written = some (key, claim.withState state) := by
  cases e with
  | released k c | reconciled k c now =>
    cases hends
    exact ⟨.idle, by decide, rfl⟩
  | doubted k c =>
    cases hends
    exact ⟨.uncertain, by decide, rfl⟩
  | started k c => cases hends
  | lapsed k c now => cases hends

theorem ended_not_running (h : LegalLog log) {key key' : String} {held : Claim} (hmem : e ∈ log)
    (hends : e.ends = some (key, claim)) (hheld : claimOn log key' = some held)
    (htoken : held.token = claim.token) : held.state ≠ .running := by
  induction log generalizing held key' with
  | nil => cases hmem
  | cons a log ih =>
    obtain ⟨hlegal, hrest⟩ := h
    rcases claimOn_cons hheld with hwritten | hold
    · cases a with
      | started k c =>
        cases hwritten
        rcases mem_cons.mp hmem with hnew | hbefore
        · subst hnew
          cases hends
        · have hstarted := ends_mem_started hrest hbefore hends
          exact absurd htoken.symm (hlegal.2.2 _ (claim.withState .running) hstarted)
      | released k c | doubted k c | reconciled k c now =>
        cases hwritten
        exact nofun
      | lapsed k c now => cases hwritten
    · rcases mem_cons.mp hmem with hnew | hbefore
      · subst hnew
        have hwas := ends_held hlegal hends
        have hkey := claimOn_unique hrest hold hwas htoken
        subst hkey
        -- the event has written under this very key, so nothing older stands there
        obtain ⟨state, hstate, hwritten⟩ := ends_written hends
        simp only [claimOn, hwritten, if_true] at hheld
        cases hheld
        exact hstate
      · exact ih hrest hbefore hold htoken

theorem reconciled_idle (h : LegalLog log) {key key' : String} {held : Claim} {now : Rat}
    (hmem : Event.reconciled key claim now ∈ log) (hheld : claimOn log key' = some held)
    (htoken : held.token = claim.token) : held.state = .idle := by
  induction log generalizing held key' with
  | nil => cases hmem
  | cons a log ih =>
    obtain ⟨hlegal, hrest⟩ := h
    rcases mem_cons.mp hmem with hnew | hbefore
    · subst hnew
      rcases claimOn_cons hheld with hwritten | hold
      · cases hwritten
        rfl
      have hkey := claimOn_unique hrest hold hlegal.1 htoken
      subst hkey
      simp only [claimOn, Event.written, if_true] at hheld
      cases hheld
      rfl
    · rcases claimOn_cons hheld with hwritten | hold
      · cases a with
        | started k c =>
          cases hwritten
          have hstarted := ends_mem_started hrest hbefore rfl
          exact absurd htoken.symm (hlegal.2.2 _ (claim.withState .running) hstarted)
        | released k c | reconciled k c n =>
          cases hwritten
          rfl
        | doubted k c =>
          cases hwritten
          -- a reconciled claim does not run, so its work can no longer be put in doubt
          have hidle := ih hrest hbefore hlegal.1 htoken
          exact absurd (hidle.symm.trans hlegal.2) (by decide)
        | lapsed k c n => cases hwritten
      · exact ih hrest hbefore hold htoken

def Event.reconciles (token : Nat) : Event → Bool
  | .reconciled _ claim _ => claim.token = token
  | _ => false

theorem exists_of_reconciles {token : Nat} (h : e.reconciles token = true) :
    ∃ key claim now, e = .reconciled key claim now ∧ claim.token = token := by
  cases e with
  | reconciled key claim now => exact ⟨key, claim, now, rfl, of_decide_eq_true h⟩
  | started _ _ => cases h
  | released _ _ => cases h
  | doubted _ _ => cases h
  | lapsed _ _ _ => cases h

/-- A token of which a claim still stands that is not idle has never been reconciled. -/
theorem not_reconciled (h : LegalLog log) {key : String} (hheld : claimOn log key = some claim)
    (hstate : claim.state ≠ .idle) : ∀ e ∈ log, e.reconciles claim.token = false := by
  intro e he
  rw [Bool.eq_false_iff]
  intro htrue
  obtain ⟨k, c, now, hevent, htoken⟩ := exists_of_reconciles htrue
  subst hevent
  exact hstate (reconciled_idle h he hheld htoken.symm)

theorem reconciled_once (h : LegalLog log) (token : Nat) :
    (log.filter (Event.reconciles token)).length ≤ 1 := by
  induction log with
  | nil => exact Nat.zero_le 1
  | cons e log ih =>
    obtain ⟨hlegal, hrest⟩ := h
    by_cases he : e.reconciles token = true
    · obtain ⟨key, claim, now, hevent, htoken⟩ := exists_of_reconciles he
      subst hevent htoken
      have hnone := not_reconciled hrest hlegal.1 hlegal.2.1
      have hempty : log.filter (Event.reconciles claim.token) = [] := by
        apply filter_eq_nil_iff.mpr
        intro a ha
        simp [hnone a ha]
      rw [filter_cons_of_pos he, hempty]
      exact le_rfl
    · rw [filter_cons_of_neg he]
      exact ih hrest

/-- What may have become of a claim whose work was started. -/
inductive Fate (log : List Event) (key : String) (claim : Claim) : Prop
  | held (h : claimOn log key = some claim)
  | released (h : Event.released key claim ∈ log)
  | inDoubt (h : Event.doubted key claim ∈ log)
      (hheld : claimOn log key = some (claim.withState .uncertain))
  | settled (h : Event.doubted key claim ∈ log) (now : Rat)
      (hmem : Event.reconciled key (claim.withState .uncertain) now ∈ log)
  | expired (now : Rat) (hmem : Event.reconciled key claim now ∈ log)
      (hlease : claim.expiresAt ≤ now)

theorem Fate.keep {key : String} (h : Fate log key claim)
    (hkeep : claimOn (e :: log) key = claimOn log key) : Fate (e :: log) key claim := by
  cases h with
  | held h => exact .held (hkeep.trans h)
  | released h => exact .released (mem_cons_of_mem _ h)
  | inDoubt h hheld => exact .inDoubt (mem_cons_of_mem _ h) (hkeep.trans hheld)
  | settled h now hmem =>
    exact .settled (mem_cons_of_mem _ h) now (mem_cons_of_mem _ hmem)
  | expired now hmem hlease => exact .expired now (mem_cons_of_mem _ hmem) hlease

theorem claimOn_other {key : String} (h : ∀ k c, e.written = some (k, c) → k ≠ key) :
    claimOn (e :: log) key = claimOn log key := by
  simp only [claimOn]
  split
  · rename_i k c hwritten
    rw [if_neg (h k c hwritten)]
  · rfl

theorem Fate.next {key : String} (hrunning : claim.state = .running) (hlegal : e.Legal log)
    (h : Fate log key claim) : Fate (e :: log) key claim := by
  cases h with
  | released h => exact .released (mem_cons_of_mem _ h)
  | settled h now hmem =>
    exact .settled (mem_cons_of_mem _ h) now (mem_cons_of_mem _ hmem)
  | expired now hmem hlease => exact .expired now (mem_cons_of_mem _ hmem) hlease
  | held h =>
    by_cases hkeep : ∀ k c, e.written = some (k, c) → k ≠ key
    · exact Fate.keep (.held h) (claimOn_other hkeep)
    push Not at hkeep
    obtain ⟨k, c, hwritten, hkey⟩ := hkeep
    subst hkey
    cases e with
    | started k c =>
      cases hwritten
      exact absurd ((hlegal.1 _ h).symm.trans hrunning) (by decide)
    | released k c =>
      cases hwritten
      cases some.inj (hlegal.1.symm.trans h)
      exact .released mem_cons_self
    | doubted k c =>
      cases hwritten
      cases some.inj (hlegal.1.symm.trans h)
      exact .inDoubt mem_cons_self (by simp [claimOn, Event.written])
    | reconciled k c now =>
      cases hwritten
      cases some.inj (hlegal.1.symm.trans h)
      exact .expired now mem_cons_self (hlegal.2.2 hrunning)
    | lapsed k c now => cases hwritten
  | inDoubt h hheld =>
    by_cases hkeep : ∀ k c, e.written = some (k, c) → k ≠ key
    · exact Fate.keep (.inDoubt h hheld) (claimOn_other hkeep)
    push Not at hkeep
    obtain ⟨k, c, hwritten, hkey⟩ := hkeep
    subst hkey
    cases e with
    | started k c =>
      cases hwritten
      exact absurd (hlegal.1 _ hheld) nofun
    | released k c | doubted k c =>
      cases hwritten
      cases some.inj (hlegal.1.symm.trans hheld)
      exact absurd hlegal.2 nofun
    | reconciled k c now =>
      cases hwritten
      cases some.inj (hlegal.1.symm.trans hheld)
      exact .settled (mem_cons_of_mem _ h) now mem_cons_self
    | lapsed k c now => cases hwritten

theorem fate (h : LegalLog log) {key : String} (hmem : Event.started key claim ∈ log) :
    Fate log key claim := by
  have hrunning := started_running h hmem
  induction log with
  | nil => cases hmem
  | cons e log ih =>
    rcases mem_cons.mp hmem with hnew | hbefore
    · subst hnew
      exact .held (by simp [claimOn, Event.written])
    · exact Fate.next hrunning h.1 (ih h.2 hbefore)

/-- Work is started under a key again only after every earlier claim of it was released by its
own run or reconciled; and one that its run never ended was reconciled past its lease. -/
theorem fate_of_restart {later earlier : List Event} {key : String} {next : Claim}
    (h : LegalLog (later ++ .started key next :: earlier))
    (hmem : Event.started key claim ∈ earlier) :
    Event.released key claim ∈ earlier ∨
    (Event.doubted key claim ∈ earlier ∧
      ∃ now, Event.reconciled key (claim.withState .uncertain) now ∈ earlier) ∨
    ∃ now, Event.reconciled key claim now ∈ earlier ∧ claim.expiresAt ≤ now := by
  obtain ⟨hlegal, hrest⟩ := legal_split h
  have hrunning := started_running hrest hmem
  cases fate hrest hmem with
  | held hheld => exact absurd ((hlegal.1 _ hheld).symm.trans hrunning) (by decide)
  | released hreleased => exact .inl hreleased
  | inDoubt _ hheld => exact absurd (hlegal.1 _ hheld) nofun
  | settled hdoubted now hreconciled => exact .inr (.inl ⟨hdoubted, now, hreconciled⟩)
  | expired now hreconciled hlease => exact .inr (.inr ⟨now, hreconciled, hlease⟩)

theorem not_released_of_doubted (h : LegalLog log) {key : String}
    (hdoubted : Event.doubted key claim ∈ log) : Event.released key claim ∉ log := by
  induction log with
  | nil => cases hdoubted
  | cons e log ih =>
    obtain ⟨hlegal, hrest⟩ := h
    intro hreleased
    rcases mem_cons.mp hdoubted with hnew | hbefore
    · subst hnew
      rcases mem_cons.mp hreleased with hsame | hold
      · cases hsame
      · exact ended_not_running hrest hold rfl hlegal.1 rfl hlegal.2
    · rcases mem_cons.mp hreleased with hnew | hold
      · subst hnew
        exact ended_not_running hrest hbefore rfl hlegal.1 rfl hlegal.2
      · exact ih hrest hbefore hold

theorem ordered_events {a b : Event} (ha : a ∈ log) (hb : b ∈ log) (hne : a ≠ b) :
    (∃ later earlier, log = later ++ b :: earlier ∧ a ∈ earlier) ∨
    ∃ later earlier, log = later ++ a :: earlier ∧ b ∈ earlier := by
  induction log with
  | nil => cases ha
  | cons e log ih =>
    rcases mem_cons.mp ha with hnew | hold
    · subst hnew
      have hrest : b ∈ log := (mem_cons.mp hb).resolve_left (Ne.symm hne)
      exact .inr ⟨[], log, rfl, hrest⟩
    · rcases mem_cons.mp hb with hnew | hbefore
      · subst hnew
        exact .inl ⟨[], log, rfl, hold⟩
      · rcases ih hold hbefore with ⟨later, earlier, hlog, hmem⟩ | ⟨later, earlier, hlog, hmem⟩
        · exact .inl ⟨e :: later, earlier, by rw [hlog]; rfl, hmem⟩
        · exact .inr ⟨e :: later, earlier, by rw [hlog]; rfl, hmem⟩

end SuperFunctions.Plugfn.ExecutionClaims

/-!
# Shared admission control

`run` and `reconcile` of any number of workers over one store with compare-and-set. A worker is
a process that reads the store, swaps a claim and works, one step at a time; one that is never
moved again has crashed. Every reading of a clock is a choice of the step that makes it.
-/
namespace SuperFunctions.Plugfn.ExecutionCoordinator

open Lib.OrderedMap (OMap)
open Lib.Processes ExecutionClaims

inductive Error
  | invalidLease
  | keyRequired
  | inProgress
  | outcomeUncertain
  | ownershipLost
  | reconciliationConflict
  | work
deriving DecidableEq

/-- The message; the error of the work itself is handed on as it is. -/
def Error.message : Error → Option String
  | .invalidLease => some "EXECUTION_INVALID_LEASE"
  | .keyRequired => some "EXECUTION_KEY_REQUIRED"
  | .inProgress => some "EXECUTION_IN_PROGRESS"
  | .outcomeUncertain => some "EXECUTION_OUTCOME_UNCERTAIN"
  | .ownershipLost => some "EXECUTION_OWNERSHIP_LOST"
  | .reconciliationConflict => some "EXECUTION_RECONCILIATION_CONFLICT"
  | .work => none

structure Coordinator where
  keyPrefix : String
  leaseMs : Rat
  leaseMs_pos : 0 < leaseMs

/-- `new ExecutionCoordinator(store, options)`, with its defaults. -/
def Coordinator.new (keyPrefix : Option String) (leaseMs : Option Rat) : Except Error Coordinator :=
  if h : 0 < leaseMs.getD 60000 then
    .ok ⟨keyPrefix.getD "plugfn:execution:", leaseMs.getD 60000, h⟩
  else .error .invalidLease

def Coordinator.key (coordinator : Coordinator) (value : String) : Except Error String :=
  if value = "" then .error .keyRequired else .ok (coordinator.keyPrefix ++ value)

variable {coordinator : Coordinator}

theorem key_ok {value storageKey : String} (h : coordinator.key value = .ok storageKey) :
    storageKey = coordinator.keyPrefix ++ value := by
  simp only [Coordinator.key] at h
  split_ifs at h
  cases h
  rfl

abbrev Store := OMap String Claim

/-- The swap, where the store still holds what was expected. -/
def compareAndSet (store : Store) (key : String) (expected : Option Claim) (value : Claim) :
    Option Store :=
  if store.get key = expected then some (store.set key value) else none

theorem compareAndSet_some {store store' : Store} {key : String} {expected : Option Claim}
    {value : Claim} (h : compareAndSet store key expected value = some store') :
    store.get key = expected ∧ store' = store.set key value := by
  simp only [compareAndSet] at h
  split_ifs at h with heq
  exact ⟨heq, (Option.some.inj h).symm⟩

/-- What `run` makes of the claim it reads: a refusal, or the claim it will try to take. A token
is drawn once for each run, so the number of the run stands for it. -/
def admission (coordinator : Coordinator) (token : Nat) (claim : Option Claim)
    (now later : Rat) : Except Error Claim :=
  if claim.any fun c => c.state = .running ∧ c.expiresAt > now then .error .inProgress
  else if claim.any fun c => c.state ≠ .idle then .error .outcomeUncertain
  else .ok { state := .running, token, expiresAt := later + coordinator.leaseMs }

variable {claim : Option Claim}

theorem admission_ok {token : Nat} {now later : Rat} {owned : Claim}
    (h : admission coordinator token claim now later = .ok owned) :
    owned.token = token ∧ owned.state = .running ∧
      ∀ held, claim = some held → held.state = .idle := by
  simp only [admission] at h
  split_ifs at h with hbusy hstate
  cases h
  refine ⟨rfl, rfl, fun held hheld => ?_⟩
  subst hheld
  by_contra hne
  exact hstate (by simpa using hne)

/-- The checks of `reconcile` on the claim it reads. -/
def checkReconcilable (expectedToken : Nat) (now : Rat) : Option Claim → Except Error Claim
  | none => .error .reconciliationConflict
  | some claim =>
    if claim.token ≠ expectedToken ∨ claim.state = .idle ∨
        claim.state = .running ∧ claim.expiresAt > now then .error .reconciliationConflict
    else .ok claim

theorem checkReconcilable_ok {expectedToken : Nat} {now : Rat} {value : Claim}
    (h : checkReconcilable expectedToken now claim = .ok value) : value.Reconcilable now := by
  cases claim with
  | none => cases h
  | some claim =>
    simp only [checkReconcilable] at h
    split_ifs at h with hconflict
    cases h
    push Not at hconflict
    exact ⟨hconflict.2.1, hconflict.2.2⟩

inductive Phase
  | reading
  | acquiring (previous : Option Claim) (owned : Claim)
  | working (owned : Claim)
  | releasing (owned : Claim)
  | transitioning (owned : Claim) (known : Bool) (error : Error)
  | returned (owned : Claim)
  | checking (expectedToken : Nat)
  | swapping (value : Claim) (now : Rat)
  | reconciled
  | rejected (error : Error)
deriving DecidableEq

structure Task where
  coordinator : Coordinator
  key : String
  phase : Phase

inductive Call
  | run (coordinator : Coordinator) (key : String)
  | reconcile (coordinator : Coordinator) (key : String) (expectedToken : Nat)

def Call.task : Call → Task
  | .run coordinator key => ⟨coordinator, key, .reading⟩
  | .reconcile coordinator key expectedToken => ⟨coordinator, key, .checking expectedToken⟩

/-- What a step finds outside: two readings of the clock, whether the work succeeded, and
whether `classifyFailure` calls a failure known. -/
structure Choice where
  now : Rat
  later : Rat
  succeeded : Bool
  known : Bool

/-- The store, and what happened to its claims. -/
structure Shared where
  store : Store
  log : List Event

def Task.storageKey (t : Task) : String := t.coordinator.keyPrefix ++ t.key

def Task.to (t : Task) (phase : Phase) : Task := { t with phase := phase }

/-- A lease that a run finds to have run out. -/
def lapses (key : String) (now : Rat) : Option Claim → List Event
  | some claim =>
    if claim.state = .running ∧ claim.expiresAt ≤ now then [.lapsed key claim now] else []
  | none => []

/-- The read of `run` and its checks. -/
def readClaim (σ : Shared) (i : Nat) (t : Task) (c : Choice) : Shared × Task :=
  match t.coordinator.key t.key with
  | .error e => (σ, t.to (.rejected e))
  | .ok storageKey =>
    let previous := σ.store.get storageKey
    let seen : Shared := { σ with log := lapses storageKey c.now previous ++ σ.log }
    match admission t.coordinator i previous c.now c.later with
    | .error e => (seen, t.to (.rejected e))
    | .ok owned => (seen, t.to (.acquiring previous owned))

/-- A swap by task `t` that leaves `event` in the log, and where the task goes on either way. -/
def swap (σ : Shared) (t : Task) (expected : Option Claim) (value : Claim) (event : Event)
    (done failed : Phase) : Shared × Task :=
  match compareAndSet σ.store t.storageKey expected value with
  | some store => (⟨store, event :: σ.log⟩, t.to done)
  | none => (σ, t.to failed)

/-- The next step of a call. -/
def next (σ : Shared) (i : Nat) (t : Task) (c : Choice) : Option (Shared × Task) :=
  match t.phase with
  | .reading => some (readClaim σ i t c)
  | .acquiring previous owned =>
    some (swap σ t previous owned (.started t.storageKey owned) (.working owned)
      (.rejected .inProgress))
  | .working owned =>
    some (σ, t.to (if c.succeeded then .releasing owned else .transitioning owned c.known .work))
  | .releasing owned =>
    -- a release that finds another claim throws inside the `try` and is caught below it
    some (swap σ t (some owned) (owned.withState .idle) (.released t.storageKey owned)
      (.returned owned) (.transitioning owned c.known .ownershipLost))
  | .transitioning owned known error =>
    some (swap σ t (some owned) (owned.withState (if known then .idle else .uncertain))
      (if known then .released t.storageKey owned else .doubted t.storageKey owned)
      (.rejected error) (.rejected .ownershipLost))
  | .checking expectedToken =>
    match t.coordinator.key t.key with
    | .error e => some (σ, t.to (.rejected e))
    | .ok storageKey =>
      match checkReconcilable expectedToken c.now (σ.store.get storageKey) with
      | .error e => some (σ, t.to (.rejected e))
      | .ok value => some (σ, t.to (.swapping value c.now))
  | .swapping value now =>
    some (swap σ t (some value) (value.withState .idle) (.reconciled t.storageKey value now)
      .reconciled (.rejected .reconciliationConflict))
  | .returned _ => none
  | .reconciled => none
  | .rejected _ => none

abbrev Workers := System Shared Task

def start : Workers := ⟨⟨OMap.empty, []⟩, []⟩

/-- The workers after an interleaving of their calls and steps. -/
def interleave (acts : List (Act Call Choice)) : Option Workers :=
  Lib.Transition.run (act Call.task next) start acts

end SuperFunctions.Plugfn.ExecutionCoordinator
