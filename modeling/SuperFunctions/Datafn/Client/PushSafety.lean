import Mathlib.Data.List.TakeWhile
import SuperFunctions.Datafn.Client.Compaction

/-!
# What a push acknowledges

Every entry a push removes from the changelog is resolved, and an omitted write goes out again
only when no reply has reported one of its replacing deletes as applied. The second half fails
when a reply that does report such a delete makes the engine retry the same payload.
-/
namespace SuperFunctions.Datafn.Client.PushSafety

open Lib.OrderedMap Datafn.Core Changelog Compaction Push List

/-! ## Statement -/

def reportsApplied (reply : PushReply) (mutationId : String) : Prop :=
  ∃ result, reply.result? = some result ∧ mutationId ∈ result.applied

def ReportedApplied (exchanges : List Exchange) (mutationId : String) : Prop :=
  ∃ e ∈ exchanges, reportsApplied e.reply mutationId

def ReportedTerminal (exchanges : List Exchange) (mutationId : String) : Prop :=
  ∃ e ∈ exchanges, ∃ result, e.reply.result? = some result ∧
    ∃ error ∈ result.errors, error.mutationId = some mutationId ∧ error.retryable = some false

/-- A result lists every mutation it answers, as applied or with an error, and is `ok` only
without errors. -/
structure Answers (mutations : List Mutation) (result : PushSyncResult) : Prop where
  listed : ∀ m ∈ mutations, ∀ id, m.mutationId = some id →
    id ∈ result.applied ∨ ∃ error ∈ result.errors, error.mutationId = some id
  ok_errors : result.ok = true → result.errors = []

/-- The replies from the `n`-th on after which the same payload is sent again. -/
def retriedReplies (remote : Remote) (mutations : List Mutation) (n retries : Nat) :
    List PushReply :=
  ((List.range' n retries).map fun k => remote.push k mutations).takeWhile fun reply =>
    acceptedResult reply = none ∧ reply.retryable ≠ some false

/-- The reply that ends the attempts. -/
def lastReply (remote : Remote) (mutations : List Mutation) (n retries : Nat) : PushReply :=
  remote.push (n + (retriedReplies remote mutations n retries).length) mutations

/-- The three ways in which the exchanges of a push resolve a mutation of its batch. -/
def Resolved (sanitized : List Mutation) (compacted : Compacted) (exchanges : List Exchange)
    (mutationId : String) : Prop :=
  ReportedApplied exchanges mutationId ∨
    (ReportedTerminal exchanges mutationId ∧ ¬ ReportedApplied exchanges mutationId) ∨
    (mutationId ∈ compacted.omittedMutationIds ∧
      ∃ d, Replaces sanitized d mutationId ∧ ReportedApplied exchanges d)

section Call

variable (config : PushConfig) (existingByKey : String → Bool) (remote : Remote)
  (changelog appended : List ChangelogEntry)

def compactedBatch : Compacted :=
  compactDeletedRecordMutations existingByKey (sanitizedBatch config changelog)

def ResolvedByPush (e : ChangelogEntry) : Prop :=
  Resolved (sanitizedBatch config changelog) (compactedBatch config existingByKey changelog)
    (processPush config existingByKey remote changelog).exchanges (getChangelogMutationId e)

def RemovedByPush (e : ChangelogEntry) : Prop :=
  e ∈ changelog ++ appended ∧
    e ∉ changelogAfter (processPush config existingByKey remote changelog) changelog appended

structure AcknowledgesSafely : Prop where
  removed_resolved : ∀ e, RemovedByPush config existingByKey remote changelog appended e →
    ResolvedByPush config existingByKey remote changelog e
  removed_prefix : ∀ e ∈ changelog ++ appended,
    ¬ ResolvedByPush config existingByKey remote changelog e →
      ∀ f, e.seq ≤ f.seq → ¬ RemovedByPush config existingByKey remote changelog appended f
  never_resent :
    ∀ w ∈ (compactedBatch config existingByKey changelog).omittedMutationIds,
    ∀ d, Replaces (sanitizedBatch config changelog) d w →
      (processPush config existingByKey remote changelog).exchanges.Pairwise fun earlier later =>
        reportsApplied earlier.reply d → ∀ m ∈ later.mutations, m.mutationId ≠ some w

/-- No reply that makes the engine retry, to the first push or to the replay, reports as applied
a delete that replaces an omitted write which the first result leaves due for replay. -/
def RetriedRepliesSpareReplay : Prop :=
  let sanitized := sanitizedBatch config changelog
  let compacted := compactedBatch config existingByKey changelog
  let retried := retriedReplies remote compacted.mutations 0 config.pushMaxRetries
  ∀ result,
    acceptedResult (lastReply remote compacted.mutations 0 config.pushMaxRetries) = some result →
    result.ok = false →
    let replay := replayMutations sanitized compacted (replayableOmitted compacted result)
    remote.beforeSync compacted.mutations = true → remote.beforeSync replay = true →
    ∀ w ∈ replayableOmitted compacted result, ∀ d, Replaces sanitized d w →
    ∀ reply ∈ retried ++ retriedReplies remote replay (retried.length + 1) config.pushMaxRetries,
      ¬ reportsApplied reply d

end Call

/-! ## The attempts of one push -/

theorem retriedReplies_zero (remote : Remote) (mutations : List Mutation) (n : Nat) :
    retriedReplies remote mutations n 0 = [] := rfl

theorem retriedReplies_succ (remote : Remote) (mutations : List Mutation) (n retries : Nat) :
    retriedReplies remote mutations n (retries + 1) =
      if acceptedResult (remote.push n mutations) = none ∧
          (remote.push n mutations).retryable ≠ some false
      then remote.push n mutations :: retriedReplies remote mutations (n + 1) retries else [] := by
  simp only [retriedReplies, range'_succ, map_cons, takeWhile_cons,
    decide_eq_true_eq]

theorem pushAttempts_eq (remote : Remote) (mutations : List Mutation) (n retries : Nat) :
    pushAttempts remote mutations n (retries + 1) =
      ((retriedReplies remote mutations n retries ++ [lastReply remote mutations n retries]).map
        (Exchange.mk mutations), acceptedResult (lastReply remote mutations n retries)) := by
  induction retries generalizing n with
  | zero =>
    simp only [lastReply, retriedReplies_zero, pushAttempts]
    cases acceptedResult (remote.push n mutations) <;> simp
  | succ retries ih =>
    rw [pushAttempts]
    unfold lastReply
    rw [retriedReplies_succ]
    cases h : acceptedResult (remote.push n mutations) with
    | some result => simp [h]
    | none =>
      by_cases hr : (remote.push n mutations).retryable = some false
      · simp [h, hr]
      have hn : n + 1 + (retriedReplies remote mutations (n + 1) retries).length =
          n + ((retriedReplies remote mutations (n + 1) retries).length + 1) := by omega
      simp only [hr, Nat.add_eq_zero_iff, one_ne_zero, and_false, or_self, if_false, ne_eq,
        not_false_eq_true, and_self, if_true, ih, lastReply, hn, length_cons,
        cons_append, map_cons]

variable {result : PushSyncResult}

theorem acceptedResult_result {reply : PushReply} (h : acceptedResult reply = some result) :
    reply.result? = some result := by
  unfold acceptedResult at h
  split at h
  case h_1 ok r _ =>
    split at h
    · exact h
    · cases h
  case h_2 => cases h

variable {mutations : List Mutation} {remote : Remote}

/-- A push that ends with a result has sent its payload, and the last reply carries the result. -/
theorem pushWithRetries_some {retries n : Nat}
    (h : (pushWithRetries remote retries n mutations).2 = some result) :
    remote.beforeSync mutations = true ∧
      acceptedResult (lastReply remote mutations n retries) = some result ∧
      (pushWithRetries remote retries n mutations).1 =
        (retriedReplies remote mutations n retries ++
          [lastReply remote mutations n retries]).map (Exchange.mk mutations) := by
  unfold pushWithRetries at h ⊢
  split at h
  case isFalse => cases h
  case isTrue hb =>
    rw [Nat.add_comm, pushAttempts_eq] at h
    rw [if_pos hb, Nat.add_comm, pushAttempts_eq]
    exact ⟨hb, h, rfl⟩

theorem pushWithRetries_exchanges {retries n : Nat} :
    (pushWithRetries remote retries n mutations).1 =
      if remote.beforeSync mutations then
        (retriedReplies remote mutations n retries ++
          [lastReply remote mutations n retries]).map (Exchange.mk mutations)
      else [] := by
  unfold pushWithRetries
  split
  · rw [Nat.add_comm, pushAttempts_eq]
  · rfl

theorem pushWithRetries_result_reported {retries n : Nat}
    (h : (pushWithRetries remote retries n mutations).2 = some result) :
    ∃ e ∈ (pushWithRetries remote retries n mutations).1,
      e.mutations = mutations ∧ e.reply.result? = some result := by
  obtain ⟨-, hacc, hex⟩ := pushWithRetries_some h
  refine ⟨⟨mutations, lastReply remote mutations n retries⟩, ?_, rfl, acceptedResult_result hacc⟩
  rw [hex]
  simp

/-! ## The report over several results -/

private theorem mem_foldl_reportApplied (ids : List String) (report : PushReport) (id : String) :
    id ∈ (ids.foldl reportApplied report).applied ↔ id ∈ report.applied ∨ id ∈ ids := by
  induction ids generalizing report with
  | nil => simp
  | cons a ids ih =>
    rw [foldl_cons, ih]
    simp only [reportApplied, mem_cons]
    tauto

variable {id : String} {error : PushMutationError}

private theorem foldl_reportApplied_get (ids : List String) (report : PushReport)
    (h : (ids.foldl reportApplied report).errorsByMutationId.get id = some error) :
    report.errorsByMutationId.get id = some error := by
  induction ids generalizing report with
  | nil => exact h
  | cons a ids ih =>
    have hd := ih _ h
    simp only [reportApplied, OMap.get_delete] at hd
    split at hd
    · cases hd
    · exact hd

private theorem foldl_reportError_applied (errors : List PushMutationError)
    (report : PushReport) : (errors.foldl reportError report).applied = report.applied := by
  induction errors generalizing report with
  | nil => rfl
  | cons error errors ih =>
    rw [foldl_cons, ih]
    unfold reportError
    split
    · rfl
    · split <;> rfl

private theorem foldl_reportError_get (errors : List PushMutationError) (report : PushReport)
    (h : (errors.foldl reportError report).errorsByMutationId.get id = some error) :
    report.errorsByMutationId.get id = some error ∨
      (error ∈ errors ∧ error.mutationId = some id) := by
  induction errors generalizing report with
  | nil => exact .inl h
  | cons e errors ih =>
    rcases ih _ h with hr | ⟨hm, hid⟩
    · unfold reportError at hr
      split at hr
      case h_1 => exact .inl hr
      rename_i mutationId he
      split at hr
      · exact .inl hr
      rw [OMap.get_set] at hr
      split at hr
      case isTrue heq =>
        cases hr
        exact .inr ⟨mem_cons_self, by rw [he, heq]⟩
      case isFalse => exact .inl hr
    · exact .inr ⟨mem_cons_of_mem _ hm, hid⟩

private theorem foldl_reportResult_spec (results : List PushSyncResult) (report : PushReport)
    (id : String) :
    (id ∈ (results.foldl reportResult report).applied ↔
      id ∈ report.applied ∨ ∃ r ∈ results, id ∈ r.applied) ∧
    (∀ error, (results.foldl reportResult report).errorsByMutationId.get id = some error →
      report.errorsByMutationId.get id = some error ∨
        ∃ r ∈ results, error ∈ r.errors ∧ error.mutationId = some id) := by
  induction results generalizing report with
  | nil => simp
  | cons r results ih =>
    obtain ⟨happlied, herror⟩ := ih (reportResult report r)
    rw [foldl_cons]
    constructor
    · rw [happlied]
      unfold reportResult
      rw [foldl_reportError_applied, mem_foldl_reportApplied]
      simp [or_assoc]
    · intro error h
      rcases herror error h with hacc | ⟨r', hr', hrest⟩
      · rcases foldl_reportError_get _ _ hacc with hget | hmem
        · exact .inl (foldl_reportApplied_get _ _ hget)
        · exact .inr ⟨r, mem_cons_self, hmem⟩
      · exact .inr ⟨r', mem_cons_of_mem _ hr', hrest⟩

theorem mem_collectReport_applied (results : List PushSyncResult) (id : String) :
    id ∈ (collectReport results).applied ↔ ∃ r ∈ results, id ∈ r.applied := by
  have h := (foldl_reportResult_spec results ⟨[], OMap.empty⟩ id).1
  simpa [collectReport] using h

variable {results : List PushSyncResult}

theorem collectReport_error (h : (collectReport results).errorsByMutationId.get id = some error) :
    ∃ r ∈ results, error ∈ r.errors ∧ error.mutationId = some id := by
  rcases (foldl_reportResult_spec results ⟨[], OMap.empty⟩ id).2 error h with hnil | hr
  · simp at hnil
  · exact hr

theorem ackPrefix_spec {report : PushReport} {omitted : List String}
    {entries : List ChangelogEntry} (hord : entries.Pairwise fun e f => e.seq < f.seq)
    {acc : Option Nat} (hacc : ∀ a, acc = some a → ∀ e ∈ entries, a < e.seq) {t : Nat}
    (h : ackPrefix report omitted entries acc = some t) :
    (acc = some t ∨ ∃ e ∈ entries, e.seq = t) ∧
      ∀ e ∈ entries, e.seq ≤ t → resolvedBy report omitted (getChangelogMutationId e) = true := by
  induction entries generalizing acc with
  | nil => exact ⟨.inl h, by simp⟩
  | cons entry entries ih =>
    rw [pairwise_cons] at hord
    simp only [ackPrefix] at h
    split at h
    case isTrue hres =>
      obtain ⟨hseq, hall⟩ := ih hord.2 (by rintro a ⟨⟩; exact hord.1) h
      constructor
      · rcases hseq with heq | ⟨e, he, het⟩
        · exact .inr ⟨entry, mem_cons_self, by injection heq⟩
        · exact .inr ⟨e, mem_cons_of_mem _ he, het⟩
      · intro e he hle
        rcases mem_cons.mp he with rfl | he
        · exact hres.2
        · exact hall e he hle
    case isFalse =>
      refine ⟨.inl h, fun e he hle => ?_⟩
      have := hacc t h e he
      omega

/-! ## The batch -/

theorem clientBatch_isPrefix (pending : List ChangelogEntry) : clientBatch pending <+: pending := by
  cases pending with
  | nil => exact prefix_refl _
  | cons first rest => exact takeWhile_prefix _

theorem clientBatch_clientId (pending : List ChangelogEntry) :
    ∃ clientId, ∀ e ∈ clientBatch pending, getChangelogClientId e = clientId := by
  cases pending with
  | nil => exact ⟨"", by simp [clientBatch]⟩
  | cons first rest =>
    refine ⟨getChangelogClientId first, fun e he => ?_⟩
    have h := mem_takeWhile_imp he
    simpa using h

theorem batch_isPrefix (changelog appended : List ChangelogEntry) (limit : Nat) :
    clientBatch (changelogList changelog limit) <+: changelog ++ appended :=
  ((clientBatch_isPrefix _).trans (List.take_prefix _ _)).trans (prefix_append _ _)

variable {e : ChangelogEntry}

theorem mem_of_seq_le {entries batch : List ChangelogEntry}
    (hord : entries.Pairwise fun e f => e.seq < f.seq) (hpre : batch <+: entries)
    {b : ChangelogEntry} (hb : b ∈ batch) (he : e ∈ entries) (hle : e.seq ≤ b.seq) : e ∈ batch := by
  obtain ⟨rest, rfl⟩ := hpre
  rcases mem_append.mp he with h | h
  · exact h
  · have := (pairwise_append.mp hord).2.2 b hb e h
    omega

theorem distinctIds_sanitizedBatch (config : PushConfig)
    {changelog appended : List ChangelogEntry} (h : WellFormed (changelog ++ appended)) :
    DistinctIds (sanitizedBatch config changelog) := by
  have hpre := batch_isPrefix changelog appended config.pushBatchSize
  have hid : ∀ e ∈ clientBatch (changelogList changelog config.pushBatchSize),
      (sanitizedMutation config.schema e).mutationId = some (getChangelogMutationId e) :=
    fun e he => sanitizedMutation_mutationId _ (h.identified e (hpre.subset he))
  obtain ⟨clientId, hclient⟩ :=
    clientBatch_clientId (changelogList changelog config.pushBatchSize)
  constructor
  · refine forall_mem_map.mpr fun e he => ?_
    rw [hid e he]
    rfl
  · unfold sanitizedBatch
    rw [pairwise_map]
    refine (h.deduplicated.sublist hpre.sublist).imp_of_mem fun {e f} he hf hne => ?_
    rw [hid e he, hid f hf]
    intro heq
    exact hne ((hclient e he).trans (hclient f hf).symm) (Option.some.inj heq)

variable {w : String} {m : Mutation}

theorem sanitizedBatch_id_ne_empty {config : PushConfig} {changelog appended : List ChangelogEntry}
    (h : WellFormed (changelog ++ appended)) (hm : m ∈ sanitizedBatch config changelog)
    (hw : m.mutationId = some w) : w ≠ "" := by
  obtain ⟨e, he, rfl⟩ := mem_map.mp hm
  have hne := h.identified e ((batch_isPrefix changelog appended config.pushBatchSize).subset he)
  rw [sanitizedMutation_mutationId _ hne] at hw
  exact Option.some.inj hw ▸ hne

/-! ## Omitted writes -/

section Omitted

variable (existingByKey : String → Bool) {sanitized : List Mutation}

theorem mem_replayableOmitted (h : DistinctIds sanitized) (result : PushSyncResult) (w : String) :
    w ∈ replayableOmitted (compactDeletedRecordMutations existingByKey sanitized) result ↔
      w ∈ (compactDeletedRecordMutations existingByKey sanitized).omittedMutationIds ∧
        ∀ d, Replaces sanitized d w → d ∉ result.applied := by
  simp only [replayableOmitted, mem_map, mem_filter, Prod.exists, exists_and_right,
    exists_eq_right, all_eq_true, decide_eq_true_eq, OMap.mem_entries_iff_get]
  constructor
  · rintro ⟨ds, hds, hall⟩
    have hw := replacing_get_omitted existingByKey hds
    obtain ⟨ds', hds', -, hiff⟩ := replacing_get existingByKey h hw
    rw [hds] at hds'
    cases hds'
    exact ⟨hw, fun d hd => hall d ((hiff d).mpr hd)⟩
  · rintro ⟨hw, hall⟩
    obtain ⟨ds, hds, -, hiff⟩ := replacing_get existingByKey h hw
    exact ⟨ds, hds, fun d hd => hall d ((hiff d).mp hd)⟩

theorem mem_acknowledgedOmitted (h : DistinctIds sanitized)
    (hw : w ∈ acknowledgedOmitted (compactDeletedRecordMutations existingByKey sanitized) results) :
    w ∈ (compactDeletedRecordMutations existingByKey sanitized).omittedMutationIds ∧
      ∃ d, Replaces sanitized d w ∧ ∃ r ∈ results, d ∈ r.applied := by
  simp only [acknowledgedOmitted, mem_map, mem_filter, Prod.exists, exists_and_right,
    exists_eq_right, any_eq_true, decide_eq_true_eq, OMap.mem_entries_iff_get,
    mem_flatMap] at hw
  obtain ⟨ds, hds, d, hd, hr⟩ := hw
  have hom := replacing_get_omitted existingByKey hds
  obtain ⟨ds', hds', -, hiff⟩ := replacing_get existingByKey h hom
  rw [hds] at hds'
  cases hds'
  exact ⟨hom, d, (hiff d).mp hd, hr⟩

theorem mem_replayMutations (sanitized : List Mutation) (compacted : Compacted)
    (replayable : List String) (hw : m.mutationId = some w) (hne : w ≠ "") :
    m ∈ replayMutations sanitized compacted replayable ↔
      m ∈ sanitized ∧ (w ∉ compacted.omittedMutationIds ∨ w ∈ replayable) := by
  simp [replayMutations, hw, hne]

end Omitted

/-! ## The shapes of a call -/

section Cases

variable (config : PushConfig) (existingByKey : String → Bool) (remote : Remote)
  (changelog : List ChangelogEntry)

def firstPush : List Exchange × Option PushSyncResult :=
  pushWithRetries remote config.pushMaxRetries 0
    (compactedBatch config existingByKey changelog).mutations

def replayPayload (result : PushSyncResult) : List Mutation :=
  replayMutations (sanitizedBatch config changelog) (compactedBatch config existingByKey changelog)
    (replayableOmitted (compactedBatch config existingByKey changelog) result)

def replayPush (result : PushSyncResult) : List Exchange × Option PushSyncResult :=
  pushWithRetries remote config.pushMaxRetries
    (firstPush config existingByKey remote changelog).1.length
    (replayPayload config existingByKey changelog result)

def ReplayDue (result : PushSyncResult) : Prop :=
  result.ok = false ∧ replayableOmitted (compactedBatch config existingByKey changelog) result ≠ []

/-- The batch is empty, or the first push ends without a result, or with one that is final, or
the replay follows and ends without a result, or with one. -/
theorem processPush_eq (hbatch : clientBatch (changelogList changelog config.pushBatchSize) ≠ [])
    {first : List Exchange × Option PushSyncResult}
    (hfirst : firstPush config existingByKey remote changelog = first) :
    processPush config existingByKey remote changelog = match first.2 with
      | none => ⟨first.1, none, none⟩
      | some result =>
        if ¬ result.ok ∧ (compactedBatch config existingByKey changelog).omittedMutationIds ≠ [] ∧
            replayableOmitted (compactedBatch config existingByKey changelog) result ≠ [] then
          match (replayPush config existingByKey remote changelog result).2 with
          | none =>
            ⟨first.1 ++ (replayPush config existingByKey remote changelog result).1, none, none⟩
          | some replayed =>
            finishPush (clientBatch (changelogList changelog config.pushBatchSize))
              (compactedBatch config existingByKey changelog)
              (first.1 ++ (replayPush config existingByKey remote changelog result).1)
              [result, replayed] replayed
        else finishPush (clientBatch (changelogList changelog config.pushBatchSize))
          (compactedBatch config existingByKey changelog) first.1 [result] result := by
  subst hfirst
  exact if_neg hbatch

theorem processPush_cases :
    let batch := clientBatch (changelogList changelog config.pushBatchSize)
    let compacted := compactedBatch config existingByKey changelog
    let first := firstPush config existingByKey remote changelog
    let run := processPush config existingByKey remote changelog
    (batch = [] ∧ run = ⟨[], none, none⟩) ∨
    (first.2 = none ∧ run = ⟨first.1, none, none⟩) ∨
    (∃ result, first.2 = some result ∧
      ¬ ReplayDue config existingByKey changelog result ∧
      run = finishPush batch compacted first.1 [result] result) ∨
    (∃ result, first.2 = some result ∧ ReplayDue config existingByKey changelog result ∧
      (replayPush config existingByKey remote changelog result).2 = none ∧
      run = ⟨first.1 ++ (replayPush config existingByKey remote changelog result).1, none, none⟩) ∨
    (∃ result last, first.2 = some result ∧ ReplayDue config existingByKey changelog result ∧
      (replayPush config existingByKey remote changelog result).2 = some last ∧
      run = finishPush batch compacted
        (first.1 ++ (replayPush config existingByKey remote changelog result).1)
        [result, last] last) := by
  intro batch compacted first run
  by_cases hb : batch = []
  · exact .inl ⟨hb, if_pos hb⟩
  have hrun : run = _ :=
    processPush_eq config existingByKey remote changelog hb (rfl : _ = first)
  refine .inr ?_
  cases hf : first.2 with
  | none =>
    rw [hf] at hrun
    exact .inl ⟨rfl, hrun⟩
  | some result =>
    rw [hf] at hrun
    simp only at hrun
    -- the replay guard tests the omitted ids as well, which any replayable id implies
    have hom : replayableOmitted compacted result ≠ [] → compacted.omittedMutationIds ≠ [] := by
      intro hne h0
      obtain ⟨w, hw⟩ := exists_mem_of_ne_nil _ hne
      obtain ⟨⟨w, ds⟩, he, rfl⟩ := mem_map.mp hw
      have hget := (OMap.mem_entries_iff_get _ w ds).mp (mem_of_mem_filter he)
      have hmem := replacing_get_omitted existingByKey hget
      change w ∈ compacted.omittedMutationIds at hmem
      rw [h0] at hmem
      cases hmem
    refine .inr ?_
    by_cases hdue : ReplayDue config existingByKey changelog result
    · rw [if_pos ⟨by simp [hdue.1], hom hdue.2, hdue.2⟩] at hrun
      refine .inr ?_
      cases hs : (replayPush config existingByKey remote changelog result).2 with
      | none =>
        rw [hs] at hrun
        exact .inl ⟨result, rfl, hdue, hs, hrun⟩
      | some last =>
        rw [hs] at hrun
        exact .inr ⟨result, last, rfl, hdue, hs, hrun⟩
    · refine .inl ⟨result, rfl, hdue, ?_⟩
      rw [if_neg] at hrun
      · exact hrun
      · rintro ⟨hok, -, hne⟩
        exact hdue ⟨by simpa using hok, hne⟩

end Cases

/-! ## Removed entries are resolved -/

variable {exchanges : List Exchange} {payload : List Mutation}

section Resolved

variable {config : PushConfig} {existingByKey : String → Bool} {remote : Remote}
  {changelog appended : List ChangelogEntry}

theorem resolved_of_resolvedBy (hids : DistinctIds (sanitizedBatch config changelog))
    (hresults : ∀ r ∈ results, ∃ e ∈ exchanges, e.reply.result? = some r)
    (h : resolvedBy (collectReport results)
      (acknowledgedOmitted (compactedBatch config existingByKey changelog) results) id = true) :
    Resolved (sanitizedBatch config changelog) (compactedBatch config existingByKey changelog)
      exchanges id := by
  have happlied : ∀ d, (∃ r ∈ results, d ∈ r.applied) → ReportedApplied exchanges d := by
    rintro d ⟨r, hr, hd⟩
    obtain ⟨e, he, her⟩ := hresults r hr
    exact ⟨e, he, r, her, hd⟩
  simp only [resolvedBy, Bool.or_eq_true, decide_eq_true_eq] at h
  rcases h with (happ | hom) | herr
  · exact .inl (happlied id ((mem_collectReport_applied results id).mp happ))
  · obtain ⟨hw, d, hd, hr⟩ := mem_acknowledgedOmitted existingByKey hids hom
    exact .inr (.inr ⟨hw, d, hd, happlied d hr⟩)
  obtain ⟨error, hget, hretry⟩ := Option.bind_eq_some_iff.mp herr
  obtain ⟨r, hr, hmem, hid⟩ := collectReport_error hget
  obtain ⟨e, he, her⟩ := hresults r hr
  have hterm : ReportedTerminal exchanges id := ⟨e, he, r, her, error, hmem, hid, hretry⟩
  by_cases ha : ReportedApplied exchanges id
  · exact .inl ha
  · exact .inr (.inl ⟨hterm, ha⟩)

variable {last : PushSyncResult}

theorem resolved_of_ok {sanitized : List Mutation} (hok : last.ok = true)
    (hanswers : Answers payload last) (hlast : ∃ e ∈ exchanges, e.reply.result? = some last)
    {compacted : Compacted} (hid : m.mutationId = some id)
    (h : m ∈ payload ∨ (id ∈ compacted.omittedMutationIds ∧
      ∃ d, Replaces sanitized d id ∧
        (ReportedApplied exchanges d ∨ ∃ n ∈ payload, n.mutationId = some d))) :
    Resolved sanitized compacted exchanges id := by
  obtain ⟨e, he, her⟩ := hlast
  have hsent : ∀ n ∈ payload, ∀ d, n.mutationId = some d → ReportedApplied exchanges d := by
    intro n hn d hd
    rcases hanswers.listed n hn d hd with happ | ⟨error, hmem, -⟩
    · exact ⟨e, he, last, her, happ⟩
    · rw [hanswers.ok_errors hok] at hmem
      cases hmem
  rcases h with hm | ⟨hw, d, hd, happ | ⟨n, hn, hnd⟩⟩
  · exact .inl (hsent m hm id hid)
  · exact .inr (.inr ⟨hw, d, hd, happ⟩)
  · exact .inr (.inr ⟨hw, d, hd, hsent n hn d hnd⟩)

/-- The entries an acknowledgement removes are resolved, when everything in the batch that the
last payload leaves out is accounted for. -/
theorem finishPush_resolved (hwf : WellFormed (changelog ++ appended))
    (hresults : ∀ r ∈ results, ∃ e ∈ exchanges, e.reply.result? = some r) (hlast : last ∈ results)
    (hanswers : Answers payload last)
    (hcovered : ∀ m ∈ sanitizedBatch config changelog, ∀ id, m.mutationId = some id →
      m ∈ payload ∨ (id ∈ (compactedBatch config existingByKey changelog).omittedMutationIds ∧
        ∃ d, Replaces (sanitizedBatch config changelog) d id ∧
          (ReportedApplied exchanges d ∨ ∃ n ∈ payload, n.mutationId = some d))) {t : Nat}
    (ht : (finishPush (clientBatch (changelogList changelog config.pushBatchSize))
      (compactedBatch config existingByKey changelog) exchanges results last).throughSeq = some t)
    (he : e ∈ changelog ++ appended) (hle : e.seq ≤ t) :
    Resolved (sanitizedBatch config changelog) (compactedBatch config existingByKey changelog)
      exchanges (getChangelogMutationId e) := by
  have hpre := batch_isPrefix changelog appended config.pushBatchSize
  have hids := distinctIds_sanitizedBatch config hwf
  simp only [finishPush] at ht
  split at ht
  case isTrue hok =>
    obtain ⟨b, hb, rfl⟩ := Option.map_eq_some_iff.mp ht
    have hbatch := mem_of_seq_le hwf.ordered hpre (mem_of_getLast? hb) he hle
    have hid := sanitizedMutation_mutationId config.schema (hwf.identified e he)
    exact resolved_of_ok hok hanswers (hresults last hlast) hid
      (hcovered _ (mem_map_of_mem hbatch) _ hid)
  case isFalse =>
    obtain ⟨hseq, hall⟩ := ackPrefix_spec (hwf.ordered.sublist hpre.sublist) (by simp) ht
    rcases hseq with hnone | ⟨b, hb, rfl⟩
    · cases hnone
    · have hbatch := mem_of_seq_le hwf.ordered hpre hb he hle
      exact resolved_of_resolvedBy hids hresults (hall e hbatch hle)

theorem removed_iff {run : PushRun} (he : e ∈ changelog ++ appended) :
    e ∉ changelogAfter run changelog appended ↔ ∃ t, run.throughSeq = some t ∧ e.seq ≤ t := by
  unfold changelogAfter
  cases run.throughSeq with
  | none => simp [mem_append.mp he]
  | some t => simp [mem_changelogAck, mem_append.mp he]

theorem compacted_covers (existingByKey : String → Bool)
    (hids : DistinctIds (sanitizedBatch config changelog))
    (hm : m ∈ sanitizedBatch config changelog) (hid : m.mutationId = some id) :
    m ∈ (compactedBatch config existingByKey changelog).mutations ∨
      (id ∈ (compactedBatch config existingByKey changelog).omittedMutationIds ∧
        ∃ d, Replaces (sanitizedBatch config changelog) d id ∧
          ∃ n ∈ (compactedBatch config existingByKey changelog).mutations,
            n.mutationId = some d) := by
  rcases sent_or_omitted existingByKey hm hid with hsent | hom
  · exact .inl hsent
  · obtain ⟨ds, -, hne, hiff⟩ := replacing_get existingByKey hids hom
    obtain ⟨d, hd⟩ := exists_mem_of_ne_nil ds hne
    have hrep := (hiff d).mp hd
    exact .inr ⟨hom, d, hrep, replacing_delete_sent existingByKey hrep⟩

theorem removed_entry_resolved (hwf : WellFormed (changelog ++ appended))
    (hanswers : ∀ n ms r, (remote.push n ms).result? = some r → Answers ms r)
    (h : RemovedByPush config existingByKey remote changelog appended e) :
    ResolvedByPush config existingByKey remote changelog e := by
  obtain ⟨he, hgone⟩ := h
  obtain ⟨t, ht, hle⟩ := (removed_iff he).mp hgone
  have hids := distinctIds_sanitizedBatch config hwf
  have hreported : ∀ {n ms r},
      (pushWithRetries remote config.pushMaxRetries n ms).2 = some r →
        (∃ e ∈ (pushWithRetries remote config.pushMaxRetries n ms).1,
          e.reply.result? = some r) ∧ Answers ms r := by
    intro n ms r hr
    obtain ⟨x, hx, -, hxr⟩ := pushWithRetries_result_reported hr
    obtain ⟨-, hacc, -⟩ := pushWithRetries_some hr
    exact ⟨⟨x, hx, hxr⟩, hanswers _ _ _ (acceptedResult_result hacc)⟩
  unfold ResolvedByPush
  rcases processPush_cases config existingByKey remote changelog with
    ⟨-, hrun⟩ | ⟨-, hrun⟩ | ⟨result, hf, -, hrun⟩ | ⟨result, -, -, -, hrun⟩ |
    ⟨result, last, hf, -, hs, hrun⟩
  · rw [hrun] at ht
    cases ht
  · rw [hrun] at ht
    cases ht
  · obtain ⟨hx, ha⟩ := hreported hf
    rw [hrun] at ht ⊢
    refine finishPush_resolved hwf (by rintro r hr; rw [mem_singleton.mp hr]; exact hx)
      (mem_singleton_self _) ha ?_ ht he hle
    intro m hm id hid
    rcases compacted_covers existingByKey hids hm hid with h | ⟨hw, d, hd, hn⟩
    · exact .inl h
    · exact .inr ⟨hw, d, hd, .inr hn⟩
  · rw [hrun] at ht
    cases ht
  obtain ⟨⟨x, hx, hxr⟩, -⟩ := hreported hf
  obtain ⟨⟨y, hy, hyr⟩, ha⟩ := hreported hs
  rw [hrun] at ht ⊢
  refine finishPush_resolved hwf ?_ (by simp) ha ?_ ht he hle
  · intro r hr
    rcases mem_pair.mp hr with rfl | rfl
    · exact ⟨x, mem_append_left _ hx, hxr⟩
    · exact ⟨y, mem_append_right _ hy, hyr⟩
  · intro m hm id hid
    have hmem := mem_replayMutations (sanitizedBatch config changelog)
      (compactedBatch config existingByKey changelog)
      (replayableOmitted (compactedBatch config existingByKey changelog) result)
      hid (sanitizedBatch_id_ne_empty hwf hm hid)
    by_cases hpay : m ∈ replayPayload config existingByKey changelog result
    · exact .inl hpay
    -- left out of the replay: one of its deletes is among the first applied ids
    · have hout := (not_congr hmem).mp hpay
      push Not at hout
      obtain ⟨hw, hnot⟩ := hout hm
      have hrep := (not_congr (mem_replayableOmitted existingByKey hids result id)).mp hnot
      push Not at hrep
      obtain ⟨d, hd, happ⟩ := hrep hw
      exact .inr ⟨hw, d, hd, .inl ⟨x, mem_append_left _ hx, result, hxr, happ⟩⟩

end Resolved

/-! ## Omitted writes are not sent again -/

section Resent

variable {config : PushConfig} {existingByKey : String → Bool} {remote : Remote}
  {changelog appended : List ChangelogEntry} {e : Exchange}

theorem firstPush_mutations (he : e ∈ (firstPush config existingByKey remote changelog).1) :
    e.mutations = (compactedBatch config existingByKey changelog).mutations := by
  unfold firstPush at he
  rw [pushWithRetries_exchanges] at he
  split at he
  · obtain ⟨reply, -, rfl⟩ := mem_map.mp he
    rfl
  · cases he

theorem firstPush_never_resends (hids : DistinctIds (sanitizedBatch config changelog))
    (hw : w ∈ (compactedBatch config existingByKey changelog).omittedMutationIds)
    (he : e ∈ (firstPush config existingByKey remote changelog).1) :
    ∀ m ∈ e.mutations, m.mutationId ≠ some w := by
  rw [firstPush_mutations he]
  exact fun m hm => omitted_not_sent existingByKey hids hw hm

theorem mem_replayPayload_iff (hwf : WellFormed (changelog ++ appended)) (result : PushSyncResult)
    (hw : w ∈ (compactedBatch config existingByKey changelog).omittedMutationIds) :
    (∃ m ∈ replayPayload config existingByKey changelog result, m.mutationId = some w) ↔
      w ∈ replayableOmitted (compactedBatch config existingByKey changelog) result := by
  constructor
  · rintro ⟨m, hm, hid⟩
    have hsan : m ∈ sanitizedBatch config changelog := mem_of_mem_filter hm
    have hne := sanitizedBatch_id_ne_empty hwf hsan hid
    rcases ((mem_replayMutations _ _ _ hid hne).mp hm).2 with hnot | hrep
    · exact absurd hw hnot
    · exact hrep
  · intro hrep
    obtain ⟨i, m, hi, hid, -⟩ := (mem_omittedMutationIds existingByKey).mp hw
    have hsan := mem_of_getElem? hi
    have hne := sanitizedBatch_id_ne_empty hwf hsan hid
    exact ⟨m, (mem_replayMutations _ _ _ hid hne).mpr ⟨hsan, .inr hrep⟩, hid⟩

private theorem pairwise_retried {replies : List PushReply} {last : PushReply}
    {r : Exchange → Exchange → Prop} :
    ((replies ++ [last]).map (Exchange.mk payload)).Pairwise r ↔
      (replies.map (Exchange.mk payload)).Pairwise r ∧
        ∀ reply ∈ replies, r ⟨payload, reply⟩ ⟨payload, last⟩ := by
  rw [map_append, pairwise_append]
  simp

/-- With a replay, nothing is re-sent exactly when no retried reply reports a replacing delete
of a replayable write. -/
theorem replay_never_resends_iff (hwf : WellFormed (changelog ++ appended))
    (hf : (firstPush config existingByKey remote changelog).2 = some result)
    (hok : result.ok = false) :
    (∀ w ∈ (compactedBatch config existingByKey changelog).omittedMutationIds,
      ∀ d, Replaces (sanitizedBatch config changelog) d w →
        ((firstPush config existingByKey remote changelog).1 ++
          (replayPush config existingByKey remote changelog result).1).Pairwise
            fun earlier later =>
              reportsApplied earlier.reply d → ∀ m ∈ later.mutations, m.mutationId ≠ some w) ↔
      RetriedRepliesSpareReplay config existingByKey remote changelog := by
  have hids := distinctIds_sanitizedBatch config hwf
  obtain ⟨hb, hacc, hex⟩ := pushWithRetries_some hf
  change (firstPush config existingByKey remote changelog).1 = _ at hex
  have hlen : (firstPush config existingByKey remote changelog).1.length =
      (retriedReplies remote (compactedBatch config existingByKey changelog).mutations 0
        config.pushMaxRetries).length + 1 := by
    rw [hex]
    simp
  have hrep := mem_replayableOmitted existingByKey hids result
  constructor
  · intro h result' hacc' _ replay _ hbr w hw d hd reply hreply happ
    rw [hacc] at hacc'
    cases hacc'
    have hom := ((hrep w).mp hw).1
    obtain ⟨m, hm, hid⟩ := (mem_replayPayload_iff hwf result hom).mpr hw
    have hpair := h w hom d hd
    unfold replayPush at hpair
    change remote.beforeSync (replayPayload config existingByKey changelog result) = true at hbr
    rw [pushWithRetries_exchanges, hlen, if_pos hbr, hex, pairwise_append] at hpair
    rcases mem_append.mp hreply with hfirst | hsecond
    · exact hpair.2.2 ⟨_, reply⟩ (mem_map_of_mem (mem_append_left _ hfirst))
        ⟨replay, _⟩ (mem_map_of_mem (mem_append_right _ (mem_singleton_self _)))
        happ m hm hid
    · exact (pairwise_retried.mp hpair.2.1).2 reply hsecond happ m hm hid
  · intro h w hw d hd
    rw [pairwise_append]
    refine ⟨?_, ?_, ?_⟩
    · exact pairwise_of_forall_mem_list fun _ _ later hlater _ =>
        firstPush_never_resends hids hw hlater
    · by_cases hbr : remote.beforeSync (replayPayload config existingByKey changelog result) = true
      case neg =>
        unfold replayPush
        rw [pushWithRetries_exchanges, if_neg hbr]
        exact List.Pairwise.nil
      case pos =>
        unfold replayPush
        rw [pushWithRetries_exchanges, if_pos hbr, hlen, pairwise_retried]
        by_cases hwr : w ∈ replayableOmitted (compactedBatch config existingByKey changelog) result
        · have hspare := fun reply hreply => h result hacc hok hb hbr w hwr d hd reply
            (mem_append_right _ hreply)
          constructor
          · refine pairwise_of_forall_mem_list fun earlier he later _ happ => ?_
            obtain ⟨reply, hreply, rfl⟩ := mem_map.mp he
            exact absurd happ (hspare reply hreply)
          · intro reply hreply happ
            exact absurd happ (hspare reply hreply)
        · have hnot : ∀ m ∈ replayPayload config existingByKey changelog result,
              m.mutationId ≠ some w := fun m hm hid =>
            hwr ((mem_replayPayload_iff hwf result hw).mp ⟨m, hm, hid⟩)
          constructor
          · refine pairwise_of_forall_mem_list fun _ _ later hl _ => ?_
            obtain ⟨reply, -, rfl⟩ := mem_map.mp hl
            exact hnot
          · exact fun _ _ _ => hnot
    · intro earlier he later hl happ m hm hid
      unfold replayPush at hl
      rw [pushWithRetries_exchanges] at hl
      split at hl
      case isFalse => cases hl
      rename_i hbr
      obtain ⟨reply, -, rfl⟩ := mem_map.mp hl
      have hwr := (mem_replayPayload_iff hwf result hw).mp ⟨m, hm, hid⟩
      rw [hex] at he
      obtain ⟨reply', hr', rfl⟩ := mem_map.mp he
      rcases mem_append.mp hr' with hretried | hlast
      · exact h result hacc hok hb hbr w hwr d hd reply' (mem_append_left _ hretried) happ
      rw [mem_singleton.mp hlast] at happ
      obtain ⟨r, hr, hmem⟩ := happ
      rw [acceptedResult_result hacc] at hr
      cases hr
      exact ((hrep w).mp hwr).2 d hd hmem

theorem unreplayed_never_resends (remote : Remote)
    (hids : DistinctIds (sanitizedBatch config changelog))
    (hex : ∀ e ∈ exchanges, e ∈ (firstPush config existingByKey remote changelog).1) :
    ∀ w ∈ (compactedBatch config existingByKey changelog).omittedMutationIds,
      ∀ d, Replaces (sanitizedBatch config changelog) d w →
        exchanges.Pairwise fun earlier later =>
          reportsApplied earlier.reply d → ∀ m ∈ later.mutations, m.mutationId ≠ some w :=
  fun _ hw _ _ => pairwise_of_forall_mem_list fun _ _ later hlater _ =>
    firstPush_never_resends hids hw (hex later hlater)

theorem spares_of_not_replayDue
    (h : ∀ result, (firstPush config existingByKey remote changelog).2 = some result →
      ¬ ReplayDue config existingByKey changelog result) :
    RetriedRepliesSpareReplay config existingByKey remote changelog := by
  intro result hacc hok replay hb _ w hw
  have hf : (firstPush config existingByKey remote changelog).2 = some result := by
    unfold firstPush pushWithRetries
    rwa [if_pos hb, Nat.add_comm, pushAttempts_eq]
  exact absurd ⟨hok, ne_nil_of_mem hw⟩ (h result hf)

/-- Over every changelog and all replies that answer their payload, a push removes resolved
entries only and stops at the first unresolved one; and it never re-sends an omitted write after
a replacing delete of it was reported applied, exactly when no retried reply reports one. -/
theorem processPush_acknowledges_safely_iff (config : PushConfig)
    (existingByKey : String → Bool) (remote : Remote) (changelog appended : List ChangelogEntry)
    (hwf : WellFormed (changelog ++ appended))
    (hanswers : ∀ n mutations result, (remote.push n mutations).result? = some result →
      Answers mutations result) :
    AcknowledgesSafely config existingByKey remote changelog appended ↔
      RetriedRepliesSpareReplay config existingByKey remote changelog := by
  have hids := distinctIds_sanitizedBatch config hwf
  have hresolved : ∀ e, RemovedByPush config existingByKey remote changelog appended e →
      ResolvedByPush config existingByKey remote changelog e :=
    fun e he => removed_entry_resolved hwf hanswers he
  have hprefix : ∀ e ∈ changelog ++ appended,
      ¬ ResolvedByPush config existingByKey remote changelog e →
        ∀ f, e.seq ≤ f.seq → ¬ RemovedByPush config existingByKey remote changelog appended f := by
    intro e he hunresolved f hle hf
    obtain ⟨t, ht, hft⟩ := (removed_iff hf.1).mp hf.2
    exact hunresolved (hresolved e ⟨he, (removed_iff he).mpr ⟨t, ht, hle.trans hft⟩⟩)
  have hresent : (∀ w ∈ (compactedBatch config existingByKey changelog).omittedMutationIds,
      ∀ d, Replaces (sanitizedBatch config changelog) d w →
        (processPush config existingByKey remote changelog).exchanges.Pairwise
          fun earlier later =>
            reportsApplied earlier.reply d → ∀ m ∈ later.mutations, m.mutationId ≠ some w) ↔
      RetriedRepliesSpareReplay config existingByKey remote changelog := by
    rcases processPush_cases config existingByKey remote changelog with
      ⟨hb, hrun⟩ | ⟨hf, hrun⟩ | ⟨result, hf, hdue, hrun⟩ | ⟨result, hf, hdue, -, hrun⟩ |
      ⟨result, last, hf, hdue, -, hrun⟩
    · rw [hrun]
      refine iff_of_true (unreplayed_never_resends remote hids (by simp))
        (spares_of_not_replayDue fun r _ hdue => hdue.2 ?_)
      simp only [replayableOmitted, compactedBatch, sanitizedBatch, hb]
      rfl
    · rw [hrun]
      exact iff_of_true (unreplayed_never_resends remote hids fun _ => id)
        (spares_of_not_replayDue fun r hr => by rw [hf] at hr; exact absurd hr (by simp))
    · rw [hrun]
      refine iff_of_true (unreplayed_never_resends remote hids fun _ => id)
        (spares_of_not_replayDue fun r hr => ?_)
      rw [hf] at hr
      cases hr
      exact hdue
    · rw [hrun]
      exact replay_never_resends_iff hwf hf hdue.1
    · rw [hrun]
      exact replay_never_resends_iff hwf hf hdue.1
  exact ⟨fun h => hresent.mp h.never_resent, fun h => ⟨hresolved, hprefix, hresent.mpr h⟩⟩

end Resent

/-! ## A retry that re-sends an omitted write -/

/-- A remote that reports, in its `n`-th reply, the mutations `applies n` as applied and all
others with an error that is retryable unless `terminal n` holds of it. -/
def scriptedRemote (applies terminal : Nat → String → Bool) : Remote where
  beforeSync _ := true
  push n mutations :=
    let ids := mutations.filterMap Mutation.mutationId
    let errors := (ids.filter fun id => !applies n id).map fun id =>
      ⟨some id, some (!terminal n id)⟩
    .response (errors.isEmpty)
      (some ⟨errors.isEmpty, ids.filter (applies n), errors, none, none, OMap.empty⟩) none

theorem scriptedRemote_answers (applies terminal : Nat → String → Bool) (n : Nat)
    (mutations : List Mutation) (result : PushSyncResult)
    (h : ((scriptedRemote applies terminal).push n mutations).result? = some result) :
    Answers mutations result := by
  cases h
  constructor
  · intro m hm id hid
    have hmem : id ∈ mutations.filterMap Mutation.mutationId :=
      mem_filterMap.mpr ⟨m, hm, hid⟩
    by_cases ha : applies n id = true
    · exact .inl (mem_filter.mpr ⟨hmem, ha⟩)
    · exact .inr ⟨_, mem_map_of_mem (mem_filter.mpr ⟨hmem, by simpa using ha⟩), rfl⟩
  · exact isEmpty_iff.mp

def defaultConfig : PushConfig := ⟨⟨∅, ∅, ∅⟩, 100, 3⟩

def sampleEntry (seq : Nat) (mutationId id : String) (operation : Operation) : ChangelogEntry :=
  ⟨seq, "c1", mutationId, ⟨some mutationId, some "c1", "notes", some id, operation, none, none⟩⟩

/-- A merge and a delete of a record the local store lacks, and an unrelated insert. -/
def sampleChangelog : List ChangelogEntry :=
  [sampleEntry 1 "m1" "x" .merge, sampleEntry 2 "m2" "x" .delete, sampleEntry 3 "m3" "y" .insert]

theorem sampleChangelog_wellFormed : WellFormed (sampleChangelog ++ []) :=
  ⟨by decide, by decide, by decide⟩

/-- First everything fails, `m3` for good; the replay then applies the delete `m2` and fails the
others retryably; the last reply applies everything. -/
def flakyRemote : Remote :=
  scriptedRemote (fun n id => n = 1 ∧ id = "m2" ∨ n = 2) (fun n id => n = 0 ∧ id = "m3")

/-- The third request contains the omitted merge, after the second reply reported its delete as
applied. -/
theorem processPush_resends_omitted :
    WellFormed (sampleChangelog ++ []) ∧
      (∀ n mutations result, (flakyRemote.push n mutations).result? = some result →
        Answers mutations result) ∧
      ¬ AcknowledgesSafely defaultConfig (fun _ => false) flakyRemote sampleChangelog [] := by
  refine ⟨sampleChangelog_wellFormed, scriptedRemote_answers _ _, fun h => ?_⟩
  have hreplaces : Replaces (sanitizedBatch defaultConfig sampleChangelog) "m2" "m1" :=
    ⟨0, 1, _, _, by decide, rfl, rfl, by decide, by decide, by decide, by decide, by decide⟩
  have hpair := h.never_resent "m1" (by decide) "m2" hreplaces
  have hstep := pairwise_iff_getElem.mp hpair 1 2 (by decide) (by decide) (by decide)
  exact hstep ⟨_, rfl, by decide⟩ (sanitizedMutation defaultConfig.schema
    (sampleEntry 1 "m1" "x" .merge)) (by decide) (by decide)

theorem processPush_acknowledges_safely_reliable :
    AcknowledgesSafely defaultConfig (fun _ => false)
      (scriptedRemote (fun _ _ => true) (fun _ _ => false)) sampleChangelog [] := by
  refine (processPush_acknowledges_safely_iff _ _ _ _ _ sampleChangelog_wellFormed
    (scriptedRemote_answers _ _)).mpr ?_
  intro result hacc hok
  have hlast : (acceptedResult (lastReply (scriptedRemote (fun _ _ => true) (fun _ _ => false))
      (compactedBatch defaultConfig (fun _ => false) sampleChangelog).mutations 0
      defaultConfig.pushMaxRetries)).map PushSyncResult.ok = some true := by decide
  rw [hacc] at hlast
  exact absurd (Option.some.inj hlast) (by simp [hok])

end SuperFunctions.Datafn.Client.PushSafety
