import SuperFunctions.Datafn.Server.PushDedup

/-!
# Each mutation takes effect at most once

A result is stored after the transaction of its mutation, so between the two a retry finds
nothing. When no write of a committed result is lost, no push stops before it and no duplicate
looks up its key meanwhile, every mutation commits at most once.
-/
namespace SuperFunctions.Datafn.Sync.AtMostOnce

open Lib.OrderedMap Lib.Transition Datafn.Core Server.Idempotency Server.PushDedup
open Server.PlainResource List

universe u

variable {σ : Type u}

/-! ## The stage of a push -/

/-- The key the push is past the lookup of. -/
def stageKey : Stage → Option MutationKey
  | .ready => none
  | .missed key | .authorized key | .settled key _ | .storing key _ _ => some key

/-- The mutation has committed and its result is still to be stored. -/
def committed : Stage → Bool
  | .settled _ result | .storing _ _ result => result.ok
  | _ => false

def stage (s : ServerState σ) (p : Nat) : Stage :=
  match s.pushes.get p with
  | some push => push.stage
  | none => .ready

variable {push : PushRun} {s : ServerState σ} {p : Nat}

theorem stage_of_get (h : s.pushes.get p = some push) : stage s p = push.stage := by
  simp [stage, h]

/-! ## What the claim is about -/

def SameRecord (a b : Execution) : Prop :=
  a.ns = b.ns ∧ a.resource = b.resource ∧ a.id = b.id

instance (a b : Execution) : Decidable (SameRecord a b) :=
  inferInstanceAs (Decidable (_ ∧ _ ∧ _))

/-- No mutation that has committed commits again with an effect on a record that another
client's mutation has changed in between. -/
def NoOverwritingReplay (history : List Execution) : Prop :=
  ∀ first other again, [first, other, again].Sublist history → first.key = again.key →
    other.key.clientId ≠ again.key.clientId → SameRecord other again →
    again.before = again.after

theorem noOverwritingReplay_of_nodup {history : List Execution}
    (h : (history.map Execution.key).Nodup) : NoOverwritingReplay history := by
  intro first other again hsub hkey _ _
  have hkeys : [first.key, other.key, again.key].Nodup := h.sublist (hsub.map Execution.key)
  rw [hkey] at hkeys
  simp at hkeys

/-! ## The condition -/

/-- The step takes a push past the lookup of a key only when no other push is past it, and a
committed result is stored: no table access of its write fails, no other key's row has its
primary key, and the push does not stop before. -/
def Undisturbed (s : ServerState σ) : PushAction → Prop
  | .lookup p =>
    ∀ push ∈ s.pushes.get p, ∀ mutation ∈ push.mutations.head?,
      ∀ key ∈ mutationKey mutation,
        ∀ other ∈ s.pushes.entries, other.1 ≠ p → stageKey other.2.stage ≠ some key
  | .findStored p fails => committed (stage s p) = true → fails = false
  | .storeResult p fails =>
    committed (stage s p) = true →
      fails = false ∧ ∀ key ∈ stageKey (stage s p), RowIdFree s.idempotency key
  | .endPush p => committed (stage s p) = false
  | _ => True

instance (s : ServerState σ) (action : PushAction) : Decidable (Undisturbed s action) := by
  cases action <;> unfold Undisturbed <;> infer_instance

/-! ## The invariant -/

structure CommitsOnce (s : ServerState σ) : Prop where
  nodup : (s.history.map Execution.key).Nodup
  distinct : ∀ p q key, stageKey (stage s p) = some key → stageKey (stage s q) = some key → p = q
  stored : ∀ key ∈ s.history.map Execution.key, Lasting s.idempotency key ∨
    ∃ p, stageKey (stage s p) = some key ∧ committed (stage s p) = true
  awaiting : ∀ p key, stageKey (stage s p) = some key → committed (stage s p) = false →
    key ∉ s.history.map Execution.key
  unanswered : ∀ p key, stageKey (stage s p) = some key → Unanswered s.idempotency key
  found : ∀ p key existing result, stage s p = .storing key existing result →
    existing = findOne s.idempotency key

theorem commitsOnce_serverStart (db : σ) (rows : List IdempotencyRow) :
    CommitsOnce (serverStart db rows) where
  nodup := nodup_nil
  distinct p q key hp := by cases hp
  stored key hkey := by cases hkey
  awaiting p key hp := by cases hp
  unanswered p key hp := by cases hp
  found p key existing result hp := by cases hp

/-- The state `s'` differs from `s` in the stage of the push `p` alone. -/
structure Moves (s s' : ServerState σ) (p : Nat) (st : Stage) : Prop where
  history : s'.history = s.history
  idempotency : s'.idempotency = s.idempotency
  self : stage s' p = st
  other : ∀ q, q ≠ p → stage s' q = stage s q

theorem moves_setPush (s : ServerState σ) (p : Nat) (push : PushRun) :
    Moves s (s.setPush p push) p push.stage where
  history := rfl
  idempotency := rfl
  self := by simp [stage, ServerState.setPush, OMap.get_set]
  other q hq := by simp [stage, ServerState.setPush, OMap.get_set, hq]

theorem moves_delete (s : ServerState σ) (p : Nat) :
    Moves s { s with pushes := s.pushes.delete p } p .ready where
  history := rfl
  idempotency := rfl
  self := by simp [stage, OMap.get_delete]
  other q hq := by simp [stage, OMap.get_delete, hq]

theorem CommitsOnce.moves {s' : ServerState σ} {st : Stage} (hs : CommitsOnce s)
    (hm : Moves s s' p st) (hkey : ∀ key, stageKey st = some key →
      stageKey (stage s p) = some key ∧ committed (stage s p) = committed st)
    (hheld : ∀ key, stageKey (stage s p) = some key → committed (stage s p) = true →
      stageKey st = some key) (hfound : ∀ key existing result, st = .storing key existing result →
      existing = findOne s.idempotency key) : CommitsOnce s' := by
  have hback : ∀ q key, stageKey (stage s' q) = some key →
      stageKey (stage s q) = some key ∧ committed (stage s q) = committed (stage s' q) := by
    intro q key hq
    by_cases hqp : q = p
    · rw [hqp, hm.self] at hq ⊢
      exact hkey key hq
    · rw [hm.other q hqp] at hq ⊢
      exact ⟨hq, rfl⟩
  constructor
  · rw [hm.history]
    exact hs.nodup
  · intro q r key hq hr
    exact hs.distinct q r key (hback q key hq).1 (hback r key hr).1
  · intro key hmem
    rw [hm.history] at hmem
    rw [hm.idempotency]
    obtain hlasting | ⟨q, hq, hcommitted⟩ := hs.stored key hmem
    · exact .inl hlasting
    refine .inr ⟨q, ?_⟩
    by_cases hqp : q = p
    · rw [hqp] at hq hcommitted ⊢
      rw [hm.self]
      have hst := hheld key hq hcommitted
      exact ⟨hst, (hkey key hst).2 ▸ hcommitted⟩
    · rw [hm.other q hqp]
      exact ⟨hq, hcommitted⟩
  · intro q key hq hopen
    rw [hm.history]
    have hold := hback q key hq
    exact hs.awaiting q key hold.1 (hold.2.trans hopen)
  · intro q key hq
    rw [hm.idempotency]
    exact hs.unanswered q key (hback q key hq).1
  · intro q key existing result hq
    rw [hm.idempotency]
    by_cases hqp : q = p
    · rw [hqp, hm.self] at hq
      exact hfound key existing result hq
    · rw [hm.other q hqp] at hq
      exact hs.found q key existing result hq

theorem CommitsOnce.idles {s' : ServerState σ} (hs : CommitsOnce s) (hm : Moves s s' p .ready)
    (hopen : committed (stage s p) = false) : CommitsOnce s' := by
  apply hs.moves hm
  · exact nofun
  · intro key _ hcommitted
    rw [hopen] at hcommitted
    cases hcommitted
  · exact nofun

/-! ## One step -/

variable {ex : Executor σ}

section Steps

variable {s s' : ServerState σ} {p : Nat}

theorem CommitsOnce.startPush {ns : String} {mutations : List Mutation} (hs : CommitsOnce s)
    (h : s.startPush p ns mutations = some s') : CommitsOnce s' := by
  unfold ServerState.startPush at h
  cases hget : s.pushes.get p with
  | some push =>
    rw [hget] at h
    cases h
  | none =>
    rw [hget] at h
    cases h
    apply hs.idles (moves_setPush s p _)
    simp [stage, hget, committed]

theorem stage_lookup (hready : push.stage = .ready) (rows : List IdempotencyRow)
    (mutation : Mutation) :
    (push.lookup rows mutation).stage = .ready ∨
      ∃ key, mutationKey mutation = some key ∧
        (push.lookup rows mutation).stage = .missed key ∧ Unanswered rows key := by
  unfold PushRun.lookup
  cases hkey : mutationKey mutation with
  | none => exact .inl rfl
  | some key =>
    simp only
    cases push.batchLocalSeen.get (batchKey key) with
    | some ok => cases ok <;> exact .inl rfl
    | none =>
      cases hget : Server.Idempotency.get rows key with
      | none =>
        refine .inr ⟨key, rfl, rfl, ?_⟩
        intro row hrow
        simp [Server.Idempotency.get, hrow] at hget
      | some cached =>
        simp only [PushRun.answerCached]
        by_cases hok : cached.ok = true
        · rw [if_pos hok]
          exact .inl rfl
        rw [if_neg hok]
        have hreported := cached.reported (by simpa using hok)
        cases herrors : cached.errors with
        | nil => exact absurd herrors hreported
        | cons first rest =>
          simp only
          by_cases hretry : isRetryableMutationResult (some cached) = true
          · rw [if_pos hretry]
            refine .inr ⟨key, rfl, rfl, ?_⟩
            intro row hrow
            rw [Server.Idempotency.get, hrow, Option.map_some, Option.some.injEq] at hget
            rwa [hget]
          · rw [if_neg hretry]
            exact .inl rfl

variable {key : MutationKey}

/-- The push takes up a key nobody is past the lookup of and that has no lasting result. -/
theorem CommitsOnce.misses (hs : CommitsOnce s) (hm : Moves s s' p (.missed key))
    (hready : stage s p = .ready) (hfree : ∀ q, q ≠ p → stageKey (stage s q) ≠ some key)
    (hopen : Unanswered s.idempotency key) : CommitsOnce s' := by
  have hcases : ∀ q key', stageKey (stage s' q) = some key' →
      (q = p ∧ key' = key) ∨ (q ≠ p ∧ stageKey (stage s q) = some key') := by
    intro q key' hq
    by_cases hqp : q = p
    · rw [hqp, hm.self] at hq
      cases hq
      exact .inl ⟨hqp, rfl⟩
    · rw [hm.other q hqp] at hq
      exact .inr ⟨hqp, hq⟩
  have hunheld : ∀ q, stageKey (stage s q) ≠ some key := by
    intro q hq
    by_cases hqp : q = p
    · rw [hqp, hready] at hq
      cases hq
    · exact hfree q hqp hq
  constructor
  · rw [hm.history]
    exact hs.nodup
  · intro q r key' hq hr
    obtain ⟨hqp, rfl⟩ | ⟨hqp, hq⟩ := hcases q key' hq
    · obtain ⟨hrp, _⟩ | ⟨_, hr⟩ := hcases r key' hr
      · rw [hqp, hrp]
      · exact absurd hr (hunheld r)
    · obtain ⟨_, rfl⟩ | ⟨_, hr⟩ := hcases r key' hr
      · exact absurd hq (hunheld q)
      · exact hs.distinct q r key' hq hr
  · intro key' hmem
    rw [hm.history] at hmem
    rw [hm.idempotency]
    obtain hlasting | ⟨q, hq, hcommitted⟩ := hs.stored key' hmem
    · exact .inl hlasting
    have hqp : q ≠ p := by
      intro hqp
      rw [hqp, hready] at hq
      cases hq
    rw [← hm.other q hqp] at hq hcommitted
    exact .inr ⟨q, hq, hcommitted⟩
  · intro q key' hq hnot hmem
    rw [hm.history] at hmem
    obtain ⟨_, rfl⟩ | ⟨hqp, hold⟩ := hcases q key' hq
    · obtain hlasting | ⟨r, hr, _⟩ := hs.stored key' hmem
      · exact hopen.not_lasting hlasting
      · exact hunheld r hr
    · rw [hm.other q hqp] at hnot
      exact hs.awaiting q key' hold hnot hmem
  · intro q key' hq
    rw [hm.idempotency]
    obtain ⟨_, rfl⟩ | ⟨_, hold⟩ := hcases q key' hq
    · exact hopen
    · exact hs.unanswered q key' hold
  · intro q key' existing result hq
    rw [hm.idempotency]
    by_cases hqp : q = p
    · rw [hqp, hm.self] at hq
      cases hq
    · rw [hm.other q hqp] at hq
      exact hs.found q key' existing result hq

theorem CommitsOnce.lookup (hs : CommitsOnce s) (hg : Undisturbed s (.lookup p))
    (h : s.lookup p = some s') : CommitsOnce s' := by
  unfold ServerState.lookup at h
  split at h
  case h_2 => cases h
  rename_i push hget
  split at h
  case h_1 _ _ mutation rest hready hmutations =>
    cases h
    have hstage : stage s p = .ready := (stage_of_get hget).trans hready
    have hm := moves_setPush s p (push.lookup s.idempotency mutation)
    obtain hidle | ⟨key, hkey, hmissed, hopen⟩ := stage_lookup hready s.idempotency mutation
    · rw [hidle] at hm
      apply hs.idles hm
      rw [hstage]
      rfl
    · rw [hmissed] at hm
      apply hs.misses hm hstage _ hopen
      intro q hqp hq
      cases hother : s.pushes.get q with
      | none => simp [stage, hother, stageKey] at hq
      | some other =>
        rw [stage_of_get hother] at hq
        have hhead : mutation ∈ push.mutations.head? := by
          rw [hmutations]
          rfl
        have hentry := (s.pushes.mem_entries_iff_get q other).mpr hother
        exact hg push hget mutation hhead key hkey (q, other) hentry hqp hq
  case h_2 => cases h

theorem stage_recordMutationFailure (push : PushRun) (key : MutationKey) (mutation : Mutation)
    (failure : OpFailure) : ∃ result, result.ok = false ∧
      (push.recordMutationFailure key mutation failure).stage = .settled key result :=
  ⟨_, rfl, rfl⟩

section

variable (hs : CommitsOnce s)
include hs

theorem CommitsOnce.fails {mutation : Mutation} {failure : OpFailure}
    (hkey : stageKey (stage s p) = some key) (hopen : committed (stage s p) = false) :
    CommitsOnce (s.setPush p (push.recordMutationFailure key mutation failure)) := by
  obtain ⟨result, hok, hst⟩ := stage_recordMutationFailure push key mutation failure
  have hm := moves_setPush s p (push.recordMutationFailure key mutation failure)
  rw [hst] at hm
  apply hs.moves hm
  · intro key' hkey'
    cases hkey'
    exact ⟨hkey, hopen.trans hok.symm⟩
  · intro key' _ hcommitted
    rw [hopen] at hcommitted
    cases hcommitted
  · exact nofun

theorem CommitsOnce.authorize (h : s.authorize ex p = some s') : CommitsOnce s' := by
  unfold ServerState.authorize at h
  split at h
  case h_2 => cases h
  rename_i push hget
  split at h
  case h_1 _ _ key mutation rest hmissed _ =>
    have hstage : stage s p = .missed key := (stage_of_get hget).trans hmissed
    cases hshare : ex.validateShareableOperationAccess push.ns mutation s.db with
    | some failure =>
      rw [hshare] at h
      cases h
      apply hs.fails
      · rw [hstage]
        rfl
      · rw [hstage]
        rfl
    | none =>
      rw [hshare] at h
      cases h
      apply hs.moves (moves_setPush s p _)
      · intro key' hkey
        cases hkey
        rw [hstage]
        exact ⟨rfl, rfl⟩
      · intro key' _ hcommitted
        rw [hstage] at hcommitted
        cases hcommitted
      · exact nofun
  case h_2 => cases h

theorem CommitsOnce.commits {mutation : Mutation} {e : Execution}
    (hstage : stage s p = .authorized key) (hkey : e.key = key) (db : σ) :
    CommitsOnce { s.setPush p (push.recordMutationSuccess key mutation) with
      db := db
      history := s.history ++ [e] } := by
  have hm := moves_setPush s p (push.recordMutationSuccess key mutation)
  obtain ⟨result, hok, hst⟩ : ∃ result : MutationResult, result.ok = true ∧
      (push.recordMutationSuccess key mutation).stage = .settled key result := ⟨_, rfl, rfl⟩
  rw [hst] at hm
  have hold : stageKey (stage s p) = some key := by
    rw [hstage]
    rfl
  have hopen : committed (stage s p) = false := by
    rw [hstage]
    rfl
  have hback : ∀ q key', stageKey (stage (s.setPush p
      (push.recordMutationSuccess key mutation)) q) = some key' →
      stageKey (stage s q) = some key' := by
    intro q key' hq
    by_cases hqp : q = p
    · rw [hqp, hm.self] at hq
      rwa [hqp, hold]
    · rwa [hm.other q hqp] at hq
  constructor
  · rw [map_append, nodup_append]
    refine ⟨hs.nodup, nodup_singleton _, ?_⟩
    intro a ha b hb hab
    rw [map_singleton, mem_singleton, hkey] at hb
    rw [hab, hb] at ha
    exact hs.awaiting p key hold hopen ha
  · intro q r key' hq hr
    exact hs.distinct q r key' (hback q key' hq) (hback r key' hr)
  · intro key' hmem
    rw [map_append, mem_append, map_singleton, mem_singleton, hkey] at hmem
    obtain hmem | rfl := hmem
    · obtain hlasting | ⟨q, hq, hcommitted⟩ := hs.stored key' hmem
      · exact .inl hlasting
      have hqp : q ≠ p := by
        intro hqp
        rw [hqp, hopen] at hcommitted
        cases hcommitted
      rw [← hm.other q hqp] at hq hcommitted
      exact .inr ⟨q, hq, hcommitted⟩
    · refine .inr ⟨p, ?_⟩
      have hself := hm.self
      show stageKey (stage (s.setPush p _) p) = _ ∧ committed (stage (s.setPush p _) p) = _
      rw [hself]
      exact ⟨rfl, hok⟩
  · intro q key' hq hnot hmem
    have hqp : q ≠ p := by
      intro hqp
      have hself := hm.self
      change committed (stage (s.setPush p _) q) = false at hnot
      rw [hqp, hself] at hnot
      exact absurd hok (by simp [show result.ok = false from hnot])
    have holdq := hback q key' hq
    change committed (stage (s.setPush p _) q) = false at hnot
    rw [hm.other q hqp] at hnot
    rw [map_append, mem_append, map_singleton, mem_singleton, hkey] at hmem
    obtain hmem | rfl := hmem
    · exact hs.awaiting q key' holdq hnot hmem
    · exact hqp (hs.distinct q p key' holdq hold)
  · intro q key' hq
    exact hs.unanswered q key' (hback q key' hq)
  intro q key' existing result' hq
  change stage (s.setPush p _) q = _ at hq
  by_cases hqp : q = p
  · rw [hqp, hm.self] at hq
    cases hq
  · rw [hm.other q hqp] at hq
    exact hs.found q key' existing result' hq

theorem CommitsOnce.transact {aborts : Bool} (h : s.transact ex p aborts = some s') :
    CommitsOnce s' := by
  unfold ServerState.transact at h
  split at h
  case h_2 => cases h
  rename_i push hget
  split at h
  case h_1 _ _ key mutation rest hauthorized _ =>
    have hstage : stage s p = .authorized key := (stage_of_get hget).trans hauthorized
    have hkey : stageKey (stage s p) = some key := by
      rw [hstage]
      rfl
    have hopen : committed (stage s p) = false := by
      rw [hstage]
      rfl
    cases aborts with
    | true =>
      cases h
      exact hs.fails hkey hopen
    | false =>
      cases hop : ex.executeMutationOp push.ns mutation s.db with
      | error failure =>
        rw [hop] at h
        cases h
        exact hs.fails hkey hopen
      | ok db =>
        rw [hop] at h
        cases h
        exact hs.commits hstage rfl db
  case h_2 => cases h

theorem CommitsOnce.findStored {fails : Bool} (hg : Undisturbed s (.findStored p fails))
    (h : s.findStored p fails = some s') : CommitsOnce s' := by
  unfold ServerState.findStored at h
  split at h
  case h_2 => cases h
  rename_i push hget
  split at h
  case h_1 _ key result hsettled =>
    have hstage : stage s p = .settled key result := (stage_of_get hget).trans hsettled
    cases fails with
    | true =>
      cases h
      apply hs.idles (moves_setPush s p _)
      have hnot := mt hg (by simp)
      simpa using hnot
    | false =>
      cases h
      apply hs.moves (moves_setPush s p _)
      · intro key' hkey
        cases hkey
        rw [hstage]
        exact ⟨rfl, rfl⟩
      · intro key' hkey _
        rwa [hstage] at hkey
      · intro key' existing result' hst
        cases hst
        rfl
  case h_2 => cases h

theorem CommitsOnce.storeResult {fails : Bool} (hg : Undisturbed s (.storeResult p fails))
    (h : s.storeResult p fails = some s') : CommitsOnce s' := by
  unfold ServerState.storeResult at h
  split at h
  case h_2 => cases h
  rename_i push hget
  split at h
  case h_2 => cases h
  rename_i _ key existing result hstoring
  have hstage : stage s p = .storing key existing result :=
    (stage_of_get hget).trans hstoring
  have hkey : stageKey (stage s p) = some key := by
    rw [hstage]
    rfl
  cases h
  have hm := moves_setPush s p (push.see key result.ok).next
  obtain hst : (push.see key result.ok).next.stage = .ready := rfl
  have hback : ∀ q key', stageKey (stage (s.setPush p (push.see key result.ok).next) q) =
      some key' → q ≠ p ∧ key' ≠ key ∧ stageKey (stage s q) = some key' := by
    intro q key' hq
    have hqp : q ≠ p := by
      intro hqp
      rw [hqp, hm.self] at hq
      cases hq
    rw [hm.other q hqp] at hq
    refine ⟨hqp, ?_, hq⟩
    intro hkey'
    rw [hkey'] at hq
    exact hqp (hs.distinct q p key hq hkey)
  have hrows : ∀ key', key' ≠ key → findOne (if fails = true then s.idempotency
      else write s.idempotency key existing result) key' = findOne s.idempotency key' := by
    intro key' hne
    cases fails with
    | true => rfl
    | false => exact findOne_write_of_ne hne
  constructor
  · exact hs.nodup
  · intro q r key' hq hr
    exact hs.distinct q r key' (hback q key' hq).2.2 (hback r key' hr).2.2
  · intro key' hmem
    by_cases hkey' : key' = key
    · left
      rw [hkey'] at hmem ⊢
      have hcommitted : committed (stage s p) = true := by
        rw [← Bool.not_eq_false]
        intro hopen
        exact hs.awaiting p key hkey hopen hmem
      obtain ⟨rfl, hfree⟩ := hg hcommitted
      refine ⟨result, ?_, ?_⟩
      · have hfound := hs.found p key existing result hstage
        rw [hfound]
        exact get_write_self (hfree key hkey) (hs.unanswered p key hkey)
      · rwa [hstage] at hcommitted
    · obtain ⟨result', hlasting, hok⟩ | ⟨q, hq, hcommitted⟩ := hs.stored key' hmem
      · refine .inl ⟨result', ?_, hok⟩
        show (findOne _ key').map _ = _
        rwa [hrows key' hkey']
      · have hqp : q ≠ p := by
          intro hqp
          rw [hqp, hkey] at hq
          exact hkey' (Option.some.inj hq).symm
        rw [← hm.other q hqp] at hq hcommitted
        exact .inr ⟨q, hq, hcommitted⟩
  · intro q key' hq hopen hmem
    obtain ⟨hqp, _, hold⟩ := hback q key' hq
    change committed (stage (s.setPush p _) q) = false at hopen
    rw [hm.other q hqp] at hopen
    exact hs.awaiting q key' hold hopen hmem
  · intro q key' hq row hrow
    obtain ⟨_, hne, hold⟩ := hback q key' hq
    rw [show findOne _ key' = _ from hrows key' hne] at hrow
    exact hs.unanswered q key' hold row hrow
  · intro q key' existing' result' hq
    have hkeyq : stageKey (stage (s.setPush p (push.see key result.ok).next) q) = some key' := by
      change stage (s.setPush p _) q = _ at hq
      rw [hq]
      rfl
    obtain ⟨hqp, hne, _⟩ := hback q key' hkeyq
    change stage (s.setPush p _) q = _ at hq
    rw [hm.other q hqp] at hq
    rw [hrows key' hne]
    exact hs.found q key' existing' result' hq

theorem CommitsOnce.endPush (hg : Undisturbed s (.endPush p)) (h : s.endPush p = some s') :
    CommitsOnce s' := by
  unfold ServerState.endPush at h
  cases hget : s.pushes.get p with
  | none =>
    rw [hget] at h
    cases h
  | some push =>
    rw [hget] at h
    cases h
    exact hs.idles (moves_delete s p) hg

end

end Steps

theorem commitsOnce_step (s : ServerState σ) (action : PushAction) (s' : ServerState σ)
    (hs : CommitsOnce s) (hg : Undisturbed s action) (h : pushStep ex s action = some s') :
    CommitsOnce s' := by
  cases action with
  | startPush p ns mutations => exact hs.startPush h
  | lookup p => exact hs.lookup hg h
  | authorize p => exact hs.authorize h
  | transact p aborts => exact hs.transact h
  | findStored p fails => exact hs.findStored hg h
  | storeResult p fails => exact hs.storeResult hg h
  | endPush p => exact hs.endPush hg h

/-- In an undisturbed run of pushes no mutation that has committed is executed again. -/
theorem undisturbed_pushes_commit_once (ex : Executor σ) (db : σ) (rows : List IdempotencyRow)
    (actions : List PushAction) {s : ServerState σ}
    (hg : Guarded (pushStep ex) Undisturbed (serverStart db rows) actions)
    (hr : run (pushStep ex) (serverStart db rows) actions = some s) :
    NoOverwritingReplay s.history := by
  have hs : CommitsOnce s := guarded_run_invariant (pushStep ex) commitsOnce_step
    (commitsOnce_serverStart db rows) hg hr
  exact noOverwritingReplay_of_nodup hs.nodup

/-! ## A lost write -/

def plainExecutor : Executor Tables where
  validateShareableOperationAccess _ _ _ := none
  executeMutationOp := plainMutationOp
  findRecord db ns resource id := db.get (ns, resource, id)

def setTitle (clientId mutationId title : String) : Mutation where
  mutationId := some mutationId
  clientId := some clientId
  resource := "notes"
  id := some "x"
  operation := .merge
  record := some (Finmap.singleton "title" (.str title))
  relations := none

def onePush (p : Nat) (mutation : Mutation) (fails : Bool) : List PushAction :=
  [.startPush p "main" [mutation], .lookup p, .authorize p, .transact p false,
    .findStored p fails] ++ (if fails then [] else [.storeResult p false]) ++ [.endPush p]

/-- The first push loses its idempotency write; another client pushes; the first one retries. -/
def lostWriteRun : List PushAction :=
  onePush 0 (setTitle "a" "m1" "by a") true ++ onePush 1 (setTitle "b" "m1" "by b") false ++
    onePush 2 (setTitle "a" "m1" "by a") false

/-- A lost idempotency write lets the retry overwrite what the other client wrote. -/
theorem lost_write_overwrites : ¬ ∀ (actions : List PushAction) (s : ServerState Tables),
    run (pushStep plainExecutor) (serverStart OMap.empty []) actions = some s →
      NoOverwritingReplay s.history := by
  intro h
  have hrun := h lostWriteRun _ rfl
  have hsame := hrun _ _ _ (List.Sublist.refl _) rfl (by decide) (by decide)
  exact absurd hsame (by decide)

/-- Both clients push the same record, and the first one retries. -/
def retryRun : List PushAction :=
  onePush 0 (setTitle "a" "m1" "by a") false ++ onePush 1 (setTitle "b" "m1" "by b") false ++
    [.startPush 2 "main" [setTitle "a" "m1" "by a"], .lookup 2, .endPush 2]

theorem retry_commits_once : ∃ s,
    run (pushStep plainExecutor) (serverStart OMap.empty []) retryRun = some s ∧
      s.history.length = 2 ∧ NoOverwritingReplay s.history :=
  ⟨_, rfl, by decide, undisturbed_pushes_commit_once plainExecutor OMap.empty []
    retryRun (by decide) rfl⟩

end SuperFunctions.Datafn.Sync.AtMostOnce
