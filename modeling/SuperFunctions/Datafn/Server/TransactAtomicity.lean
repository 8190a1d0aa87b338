import SuperFunctions.Datafn.Server.Transact

/-!
# Transactions are all or nothing

What an atomic transaction promises, and the deployments that keep it: a store inside of the
transaction, an adapter that runs the callback once, no error taken for missing support, and no
lost idempotency write.
-/
namespace SuperFunctions.Datafn.Server.TransactAtomicity

open Lib.OrderedMap Datafn.Core Idempotency PlainResource Transact List

universe u

variable {σ : Type u}

/-! ## The promise -/

/-- Every step returns and no mutation fails. -/
def executed (kind : StoreKind) (answers : Answers σ) :
    Nat → List Step → World σ → Option (World σ × List StepResult)
  | _, [], w => some (w, [])
  | i, step :: steps, w =>
    match executeStep kind answers i step w with
    | .threw _ _ => none
    | .returned w' result =>
      if result.mutationFailed then none
      else (executed kind answers (i + 1) steps w').map fun done => (done.1, result :: done.2)

/-- What the callback and the steps after it get from the database. -/
def Attempts.answers : Attempts σ → List (Answers σ)
  | .refuse _ => []
  | .rerun answers rest => answers :: Attempts.answers rest
  | .last answers _ => [answers]

/-- Success means one result for each step, all steps executed in order on the database, and a
stored result for each mutation; failure leaves the database and every lasting result alone. -/
def AllOrNothing (kind : StoreKind) (steps : List Step) (given : List (Answers σ))
    (before : World σ) (outcome : TransactResult × World σ) : Prop :=
  if outcome.1.ok = true then
    outcome.1.results.length = steps.length ∧
    (∃ answers ∈ given, ∃ w results, executed kind answers 0 steps before = some (w, results) ∧
      outcome.2.db = w.db) ∧
    ∀ mutation, .mutation mutation ∈ steps → ∀ key ∈ mutationKey mutation,
      ∃ result, outcome.2.cachedResult kind key = some result ∧ result.ok = true
  else
    outcome.2.db = before.db ∧
    ∀ key result, outcome.2.cachedResult kind key = some result →
      isRetryableMutationResult (some result) = false → before.cachedResult kind key = some result

variable {kind : StoreKind} {steps : List Step} {outcome : TransactResult × World σ}
  {given : List (Answers σ)} {before : World σ}

section

variable (h : AllOrNothing kind steps given before outcome)
include h

theorem AllOrNothing.of_ok (hok : outcome.1.ok = true) :
    outcome.1.results.length = steps.length ∧
    (∃ answers ∈ given, ∃ w results, executed kind answers 0 steps before = some (w, results) ∧
      outcome.2.db = w.db) ∧
    ∀ mutation, .mutation mutation ∈ steps → ∀ key ∈ mutationKey mutation,
      ∃ result, outcome.2.cachedResult kind key = some result ∧ result.ok = true := by
  unfold AllOrNothing at h
  rwa [if_pos hok] at h

theorem AllOrNothing.of_failed (hfailed : outcome.1.ok = false) :
    outcome.2.db = before.db ∧
    ∀ key result, outcome.2.cachedResult kind key = some result →
      isRetryableMutationResult (some result) = false →
        before.cachedResult kind key = some result := by
  unfold AllOrNothing at h
  rwa [if_neg (by rw [hfailed]; decide)] at h

end

/-! ## Deployments -/

/-- The idempotency store and what may happen: the adapter runs the callback again, an error of
`transaction()` has the words for missing support, an idempotency write is lost. -/
structure Deployment where
  kind : StoreKind
  reruns : Bool
  unsupported : Bool
  lostWrites : Bool

/-- No error thrown by a step has the words for missing support. -/
structure Supported (answers : Answers σ) : Prop where
  query : ∀ text db error, answers.executeQuery text db = .error error →
    unsupported error.message = false
  operation : ∀ mutation db db' error, answers.executeOperation mutation db = .threw db' error →
    unsupported error.message = false
  idempotencyGet : ∀ i error, answers.idempotencyGetError i = some error →
    unsupported error.message = false

/-- No idempotency write of the steps fails, and none collides with another key's row. -/
def KeepsWrites (kind : StoreKind) (answers : Answers σ) : Nat → List Step → World σ → Prop
  | _, [], _ => True
  | i, step :: steps, w =>
    (∀ mutation, step = .mutation mutation → ∀ key ∈ mutationKey mutation,
      answers.idempotencySetFails i = false ∧ RowIdFree w.rows key) ∧
    ∀ w' result, executeStep kind answers i step w = .returned w' result →
      KeepsWrites kind answers (i + 1) steps w'

namespace Deployment

variable (d : Deployment)

def AllowsRun (steps : List Step) (answers : Answers σ) (w : World σ) : Prop :=
  (d.unsupported = false → Supported answers) ∧
  (d.lostWrites = false → KeepsWrites d.kind answers 0 steps w)

def AllowsError (error : Thrown) : Prop :=
  d.unsupported = false → Transact.unsupported error.message = false

/-- What the adapter does is possible in the deployment. -/
def Allows (steps : List Step) (w : World σ) : Attempts σ → Prop
  | .refuse error => d.AllowsError error
  | .rerun answers rest =>
    d.reruns = true ∧ d.AllowsRun steps answers w ∧
      Allows steps ((callback d.kind answers 0 steps w []).world.rollback w) rest
  | .last answers commitError =>
    d.AllowsRun steps answers w ∧ ∀ error ∈ commitError, d.AllowsError error

/-- Every atomic request to an adapter with transactions is all or nothing. -/
def Atomic : Prop :=
  ∀ (σ : Type) (atomic : Option Bool) (steps : List Step) (attempts : Attempts σ)
    (answers : Answers σ) (before : World σ), atomic ≠ some false →
    d.Allows steps before attempts →
      AllOrNothing d.kind steps (answers :: Attempts.answers attempts) before
        (executeTransaction d.kind atomic steps (some attempts) answers before)

end Deployment

/-! ## The callback -/

variable {w : World σ} {i : Nat} {answers : Answers σ} {results : List StepResult}

theorem callback_completed (h : (callback kind answers i steps w results).ending = .completed) :
    ∃ done, executed kind answers i steps w =
        some ((callback kind answers i steps w results).world, done) ∧
      (callback kind answers i steps w results).results = results ++ done ∧
      done.length = steps.length := by
  induction steps generalizing i w results with
  | nil => exact ⟨[], rfl, by simp [callback], rfl⟩
  | cons step steps ih =>
    cases hstep : executeStep kind answers i step w with
    | threw w' error => simp [callback, hstep] at h
    | returned w' result =>
      by_cases hfailed : result.mutationFailed = true
      · simp [callback, hstep, hfailed] at h
      simp only [callback, hstep, hfailed] at h ⊢
      obtain ⟨done, hdone, hresults, hlength⟩ := ih h
      refine ⟨result :: done, ?_, ?_, ?_⟩
      · simp [executed, hstep, hfailed, hdone]
      · rw [if_neg (by simp), hresults]
        simp
      · simp [hlength]

variable {w' : World σ} {mutation : Mutation} {error : Thrown}

section

variable (hs : Supported answers)
include hs

theorem executeMutation_threw (h : executeMutation kind answers i mutation w = .threw w' error) :
    unsupported error.message = false := by
  unfold executeMutation at h
  split at h
  case h_1 e he =>
    cases h
    obtain ⟨key, _, hget⟩ := Option.bind_eq_some_iff.mp he
    exact hs.idempotencyGet i _ hget
  case h_2 =>
    simp only at h
    split at h
    case h_1 => cases h
    split at h
    case h_1 db e hop =>
      cases h
      exact hs.operation _ _ _ _ hop
    case h_2 => cases h

theorem executeStep_threw {step : Step} (h : executeStep kind answers i step w = .threw w' error) :
    unsupported error.message = false := by
  cases step with
  | query text =>
    simp only [executeStep] at h
    cases hquery : answers.executeQuery text w.db with
    | ok result =>
      rw [hquery] at h
      cases h
    | error e =>
      rw [hquery] at h
      cases h
      exact hs.query _ _ _ hquery
  | mutation mutation =>
    exact executeMutation_threw hs h

/-- A supported run throws no error that is taken for missing support. -/
theorem callback_threw (h : (callback kind answers i steps w results).ending = .threw error) :
    unsupported error.message = false := by
  induction steps generalizing i w results with
  | nil => simp [callback] at h
  | cons step steps ih =>
    cases hstep : executeStep kind answers i step w with
    | threw w' e =>
      simp only [callback, hstep, CallbackEnd.threw.injEq] at h
      rw [← h]
      exact executeStep_threw hs hstep
    | returned w' result =>
      by_cases hfailed : result.mutationFailed = true
      · simp [callback, hstep, hfailed] at h
      · simp only [callback, hstep, hfailed] at h
        exact ih h

end

/-! ## The durable store -/

variable {result : StepResult}

theorem executeMutation_returned
    (h : executeMutation .durable answers i mutation w = .returned w' result) :
    (∃ cached, dedupedResult .durable w mutation = some cached ∧ w' = w ∧
        result = .mutation cached) ∨
      ∃ db r, dedupedResult .durable w mutation = none ∧
        w' = recordResult .durable answers i mutation r { w with db := db } ∧
        result = .mutation r := by
  have hlooked : afterLookup .durable w mutation = w := by
    unfold afterLookup
    split <;> rfl
  unfold executeMutation at h
  split at h
  case h_1 => cases h
  rw [hlooked] at h
  simp only at h
  split at h
  case h_1 cached hdeduped =>
    cases h
    exact .inl ⟨cached, hdeduped, rfl, rfl⟩
  case h_2 hdeduped =>
    split at h
    case h_1 => cases h
    case h_2 db r hop =>
      cases h
      exact .inr ⟨db, r, hdeduped, rfl, rfl⟩

variable {key : MutationKey}

theorem unanswered_of_dedupedResult (hkey : mutationKey mutation = some key)
    (h : dedupedResult .durable w mutation = none) : Unanswered w.rows key := by
  intro row hrow
  unfold dedupedResult at h
  rw [hkey] at h
  simp only [World.cachedResult, Idempotency.get, hrow, Option.map_some] at h
  split at h
  case isTrue hretry => exact hretry
  case isFalse => cases h

theorem lasting_of_lasting {step : Step} (hkey : Lasting w.rows key)
    (h : executeStep .durable answers i step w = .returned w' result) : Lasting w'.rows key := by
  cases step with
  | query text =>
    simp only [executeStep] at h
    split at h
    case h_1 =>
      cases h
      exact hkey
    case h_2 => cases h
  | mutation mutation =>
    obtain ⟨cached, _, rfl, _⟩ | ⟨db, r, hdeduped, rfl, _⟩ := executeMutation_returned h
    · exact hkey
    unfold recordResult
    split
    case h_2 => exact hkey
    rename_i own hown
    have hne : key ≠ own := by
      rintro rfl
      exact (unanswered_of_dedupedResult hown hdeduped).not_lasting hkey
    simp only [World.setResult]
    split
    case isTrue => exact hkey
    obtain ⟨stored, hget, hok⟩ := hkey
    refine ⟨stored, ?_, hok⟩
    unfold Idempotency.get at hget ⊢
    rwa [findOne_write_of_ne hne]

theorem lasting_of_executeStep (hkey : mutationKey mutation = some key)
    (hkept : answers.idempotencySetFails i = false) (hfree : RowIdFree w.rows key)
    (h : executeStep .durable answers i (.mutation mutation) w = .returned w' result)
    (hok : result.mutationFailed = false) : Lasting w'.rows key := by
  obtain ⟨cached, hdeduped, rfl, rfl⟩ | ⟨db, r, hdeduped, rfl, rfl⟩ :=
    executeMutation_returned h
  · unfold dedupedResult at hdeduped
    rw [hkey] at hdeduped
    simp only [World.cachedResult] at hdeduped
    split at hdeduped
    case h_2 => cases hdeduped
    rename_i stored hget
    split at hdeduped
    case isTrue => cases hdeduped
    case isFalse =>
      cases hdeduped
      exact ⟨stored, hget, by simpa [StepResult.mutationFailed] using hok⟩
  · refine ⟨r, ?_, by simpa [StepResult.mutationFailed] using hok⟩
    simp only [recordResult, hkey, World.setResult, hkept]
    exact get_write_self hfree (unanswered_of_dedupedResult hkey hdeduped)

theorem executed_lasting (hkept : KeepsWrites .durable answers i steps w)
    (h : executed .durable answers i steps w = some (w', results)) :
    (∀ key, Lasting w.rows key → Lasting w'.rows key) ∧
    ∀ mutation, .mutation mutation ∈ steps → ∀ key ∈ mutationKey mutation, Lasting w'.rows key := by
  induction steps generalizing i w results with
  | nil =>
    cases h
    exact ⟨fun key hkey => hkey, fun mutation hmem => absurd hmem not_mem_nil⟩
  | cons step steps ih =>
    cases hstep : executeStep .durable answers i step w with
    | threw w₁ error => simp [executed, hstep] at h
    | returned w₁ result =>
      by_cases hfailed : result.mutationFailed = true
      · simp [executed, hstep, hfailed] at h
      simp only [executed, hstep, hfailed] at h
      rw [if_neg (by simp), Option.map_eq_some_iff] at h
      obtain ⟨⟨w₂, done⟩, hdone, heq⟩ := h
      cases heq
      obtain ⟨hkeep, hrest⟩ := ih (hkept.2 w₁ result hstep) hdone
      refine ⟨fun key hkey => hkeep key (lasting_of_lasting hkey hstep), ?_⟩
      intro mutation hmem key hkey
      obtain hhead | htail := mem_cons.mp hmem
      · subst hhead
        obtain ⟨hset, hfree⟩ := hkept.1 mutation rfl key hkey
        exact hkeep key (lasting_of_executeStep hkey hset hfree hstep (by simpa using hfailed))
      · exact hrest mutation htail key hkey

/-! ## Sound deployments -/

/-- With a durable store a rolled back transaction leaves nothing. -/
theorem allOrNothing_rollback (steps : List Step) (given : List (Answers σ))
    (before tried : World σ) (results : List StepResult) (error : Option TransactError) :
    AllOrNothing .durable steps given before (⟨false, results, error⟩, tried.rollback before) := by
  unfold AllOrNothing
  exact ⟨rfl, fun key result hresult _ => hresult⟩

def soundDeployment : Deployment where
  kind := .durable
  reruns := false
  unsupported := false
  lostWrites := false

theorem soundDeployment_atomic : soundDeployment.Atomic := by
  intro σ atomic steps attempts answers before hatomic hallows
  have hisAtomic : (atomic != some false) = true := by simpa using hatomic
  simp only [executeTransaction, hisAtomic, if_true, soundDeployment]
  cases attempts with
  | refuse error =>
    have hmessage : unsupported error.message = false := hallows rfl
    simp only [transaction, hmessage]
    exact allOrNothing_rollback steps _ before before _ _
  | rerun run rest =>
    have hreruns := hallows.1
    cases hreruns
  | last run commitError =>
    obtain ⟨⟨hrun, hwrites⟩, hcommit⟩ := hallows
    simp only [transaction]
    cases hending : (callback .durable run 0 steps before []).ending with
    | stepFailed i =>
      exact allOrNothing_rollback steps _ before _ _ _
    | threw error =>
      have hmessage : unsupported error.message = false := callback_threw (hrun rfl) hending
      simp only [hmessage]
      exact allOrNothing_rollback steps _ before _ _ _
    | completed =>
      cases commitError with
      | some error =>
        have hmessage : unsupported error.message = false := hcommit error rfl rfl
        simp only [hmessage]
        exact allOrNothing_rollback steps _ before _ _ _
      | none =>
        obtain ⟨done, hdone, hresults, hlength⟩ := callback_completed hending
        simp only [hending]
        unfold AllOrNothing
        refine ⟨?_, ⟨run, by simp [Attempts.answers], _, done, hdone, rfl⟩, ?_⟩
        · rwa [hresults, nil_append]
        · exact (executed_lasting (hwrites rfl) hdone).2

/-! ## Unsound deployments -/

/-- Every operation of a plain resource returns. -/
def plainAnswers : Answers Tables where
  executeQuery text _ := .ok text
  executeOperation mutation db :=
    match plainMutationOp "main" mutation db with
    | .ok db =>
      .returned db ⟨true, mutation.mutationId.getD "", [mutation.id.getD ""], [], false, by simp⟩
    | .error failure =>
      .returned db ⟨false, mutation.mutationId.getD "", [],
        [⟨failure.code, failure.message, failure.path, false⟩], false, by simp⟩
  idempotencyGetError _ := none
  idempotencySetFails _ := false

/-- The adapter refuses every query, in the words of the database package. -/
def refusingAnswers : Answers Tables :=
  { plainAnswers with
    executeQuery := fun _ _ =>
      .error ⟨none, "Operation 'findMany' is not supported by memory"⟩ }

def losingAnswers : Answers Tables := { plainAnswers with idempotencySetFails := fun _ => true }

def noteMutation (operation : Operation) (mutationId : Option String) : Mutation where
  mutationId := mutationId
  clientId := some "a"
  resource := "notes"
  id := some "x"
  operation := operation
  record := some (Finmap.singleton "title" (.str "by a"))
  relations := none

def emptyWorld : World Tables := ⟨OMap.empty, [], OMap.empty⟩

theorem supported_plainAnswers : Supported plainAnswers where
  query text db error h := by cases h
  operation mutation db db' error h := by
    simp only [plainAnswers] at h
    split at h <;> cases h
  idempotencyGet i error h := by cases h

theorem keepsWrites_unnamed
    (h : ∀ mutation, .mutation mutation ∈ steps → mutationKey mutation = none) :
    KeepsWrites kind answers i steps w := by
  induction steps generalizing i w with
  | nil => trivial
  | cons step steps ih =>
    refine ⟨fun mutation hstep key hkey => ?_, fun w' result _ => ?_⟩
    · rw [h mutation (hstep ▸ mem_cons_self)] at hkey
      cases hkey
    · exact ih fun mutation hmem => h mutation (mem_cons_of_mem _ hmem)

variable {d : Deployment}

theorem not_atomic_of_memory {maxEntries : Nat} (hkind : d.kind = .memory maxEntries) :
    ¬ d.Atomic := by
  intro h
  let steps : List Step :=
    [.mutation (noteMutation .merge (some "m1")), .mutation (noteMutation .trash none)]
  have hallows : d.Allows steps emptyWorld (.last plainAnswers none) := by
    refine ⟨⟨fun _ => supported_plainAnswers, fun _ => ?_⟩, fun error herror => by cases herror⟩
    refine ⟨fun mutation _ key _ => ⟨rfl, fun row hrow => by cases hrow⟩, fun w' result _ => ?_⟩
    apply keepsWrites_unnamed
    intro mutation hmem
    obtain rfl : mutation = noteMutation .trash none := by simpa using hmem
    rfl
  have hkept := h Tables none steps (.last plainAnswers none) plainAnswers emptyWorld (by decide)
    hallows
  rw [hkind] at hkept
  have hrun : (executeTransaction (.memory maxEntries) none steps
      (some (.last plainAnswers none)) plainAnswers emptyWorld).1.ok = false ∧
      ∃ result, (executeTransaction (.memory maxEntries) none steps
        (some (.last plainAnswers none)) plainAnswers emptyWorld).2.cachedResult
          (.memory maxEntries) ⟨storeNamespace, "a", "m1"⟩ = some result ∧ result.ok = true := by
    cases maxEntries with
    | zero | succ n => exact ⟨rfl, _, rfl, rfl⟩
  obtain ⟨hfailed, result, hresult, hok⟩ := hrun
  have hold := (hkept.of_failed hfailed).2 _ _ hresult (isRetryableMutationResult_of_ok hok)
  cases hold

theorem not_atomic_of_reruns (hreruns : d.reruns = true) : ¬ d.Atomic := by
  intro h
  let attempts : Attempts Tables := .rerun plainAnswers (.last plainAnswers none)
  have hunnamed : ∀ mutation, Step.mutation mutation ∈ [Step.query "{}"] →
      mutationKey mutation = none := by simp
  have hrun : ∀ w, d.AllowsRun [.query "{}"] plainAnswers w := fun w =>
    ⟨fun _ => supported_plainAnswers, fun _ => keepsWrites_unnamed hunnamed⟩
  have hallows : d.Allows [.query "{}"] emptyWorld attempts :=
    ⟨hreruns, hrun _, hrun _, fun error herror => by cases herror⟩
  have hkept := h Tables none _ attempts plainAnswers emptyWorld (by decide) hallows
  have hlength : 2 = 1 := (hkept.of_ok rfl).1
  exact absurd hlength (by decide)

theorem not_atomic_of_unsupported (hsupport : d.unsupported = true) : ¬ d.Atomic := by
  intro h
  let steps : List Step := [.mutation (noteMutation .merge none), .query "{}"]
  have hunnamed : ∀ mutation, Step.mutation mutation ∈ steps → mutationKey mutation = none := by
    intro mutation hmem
    obtain rfl : mutation = noteMutation .merge none := by simpa [steps] using hmem
    rfl
  have hallows : d.Allows steps emptyWorld (.last refusingAnswers none) := by
    refine ⟨⟨fun hfalse => ?_, fun _ => keepsWrites_unnamed hunnamed⟩, fun error herror => ?_⟩
    · rw [hsupport] at hfalse
      cases hfalse
    · cases herror
  have hkept := h Tables none steps (.last refusingAnswers none) refusingAnswers emptyWorld
    (by decide) hallows
  have hrun : ∀ kind, (executeTransaction kind none steps (some (.last refusingAnswers none))
      refusingAnswers emptyWorld).1.ok = false ∧
      (executeTransaction kind none steps (some (.last refusingAnswers none)) refusingAnswers
        emptyWorld).2.db.keys = [("main", "notes", "x")] := by
    intro kind
    cases kind with
    | durable | memory maxEntries => exact ⟨rfl, rfl⟩
  obtain ⟨hfailed, hkeys⟩ := hrun d.kind
  rw [(hkept.of_failed hfailed).1] at hkeys
  exact absurd hkeys (by decide)

theorem not_atomic_of_lostWrites (hkind : d.kind = .durable) (hlost : d.lostWrites = true) :
    ¬ d.Atomic := by
  intro h
  let steps : List Step := [.mutation (noteMutation .merge (some "m1"))]
  have hallows : d.Allows steps emptyWorld (.last losingAnswers none) := by
    refine ⟨⟨fun _ => ?_, fun hfalse => ?_⟩, fun error herror => by cases herror⟩
    · exact ⟨supported_plainAnswers.query, supported_plainAnswers.operation,
        supported_plainAnswers.idempotencyGet⟩
    · rw [hlost] at hfalse
      cases hfalse
  have hkept := h Tables none steps (.last losingAnswers none) losingAnswers emptyWorld (by decide)
    hallows
  rw [hkind] at hkept
  obtain ⟨result, hresult, _⟩ := (hkept.of_ok rfl).2.2 _ mem_cons_self _ rfl
  cases hresult

/-- A deployment with transactions whose queries may be refused. -/
def refusingDeployment : Deployment := { soundDeployment with unsupported := true }

end SuperFunctions.Datafn.Server.TransactAtomicity
