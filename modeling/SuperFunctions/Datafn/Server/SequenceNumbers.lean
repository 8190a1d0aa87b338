import SuperFunctions.Datafn.Server.Sessions

/-!
# The numbers pushes hold

Every number is reserved by one push, lies above all committed ones it could follow, and is
committed at most once. A cursor below all reserved numbers stays below all later changes.
-/
namespace SuperFunctions.Datafn.Server.SequenceNumbers

open Lib.OrderedMap ChangeLog Sessions Nat List OMap

/-- The numbers a transaction may still commit. -/
def txNumbers (tx : Transaction) : List Nat :=
  tx.txSequenceAllocation.pool ++ tx.written.map ChangeEntry.serverSeq

/-- The numbers a push has reserved and not committed. -/
def reserved (push : PushRun) : List Nat :=
  push.sequenceAllocation.pool ++ (push.tx.map txNumbers).getD []

/-- The numbers of `p` lie below its own uncommitted next number, or else below the row's. -/
def bound (s : ServerState) (p : Nat) : Nat :=
  match s.rowLock with
  | some (owner, uncommitted) => if owner = p then uncommitted else s.nextServerSeq
  | none => s.nextServerSeq

/-- The row is locked only when it gives the numbers, and only moves up. -/
structure RowLocked (s : ServerState) : Prop where
  internal : s.externalStore = true → s.rowLock = none
  above : ∀ p uncommitted, s.rowLock = some (p, uncommitted) → s.nextServerSeq ≤ uncommitted

variable {s : ServerState}

theorem RowLocked.next_le_bound (h : RowLocked s) (p : Nat) : s.nextServerSeq ≤ bound s p := by
  unfold bound
  split
  case h_1 owner uncommitted hlock =>
    split
    · exact h.above owner uncommitted hlock
    · exact le_refl _
  case h_2 => exact le_refl _

theorem RowLocked.setPush (h : RowLocked s) (p : Nat) (push : PushRun) :
    RowLocked (s.setPush p push) :=
  ⟨h.internal, h.above⟩

/-- A batch begins at the bound of its push, above the numbers of all other pushes. -/
structure Reserved (s : ServerState) (p first count : Nat) (s' : ServerState) : Prop where
  first_eq : first = bound s p
  bound_eq : bound s' p = first + count
  next_le : s.nextServerSeq ≤ s'.nextServerSeq
  bound_mono : ∀ q, bound s q ≤ bound s' q
  bound_others : ∀ q, q ≠ p → bound s q ≤ first
  locked : RowLocked s'
  commits_eq : s'.commits = s.commits
  pushes_eq : s'.pushes = s.pushes
  pulls_eq : s'.pulls = s.pulls
  returned_eq : s'.returned = s.returned

theorem getNextServerSeqBatch_reserved {s' : ServerState} {p count : Nat} {numbers : List Nat}
    (hlock : RowLocked s) (h : s.getNextServerSeqBatch p count = some (numbers, s')) :
    ∃ first, numbers = List.range' first count ∧ Reserved s p first count s' := by
  unfold ServerState.getNextServerSeqBatch at h
  split at h
  case isTrue hexternal =>
    have hnone := hlock.internal hexternal
    cases h
    exact ⟨_, rfl, {
      first_eq := by simp [bound, hnone]
      bound_eq := by simp [bound, hnone]
      next_le := le_add_right _ _
      bound_mono := fun q => by simp [bound, hnone]
      bound_others := fun q _ => by simp [bound, hnone]
      locked := ⟨fun _ => hnone, fun q m h => absurd (hnone.symm.trans h) (by simp)⟩
      commits_eq := rfl
      pushes_eq := rfl
      pulls_eq := rfl
      returned_eq := rfl }⟩
  case isFalse hinternal =>
    split at h
    case h_1 hnone =>
      cases h
      exact ⟨_, rfl, {
        first_eq := by simp [bound, hnone]
        bound_eq := by simp [bound]
        next_le := le_refl _
        bound_mono := fun q => by
          simp only [bound, hnone]
          split <;> omega
        bound_others := fun q _ => by simp [bound, hnone]
        locked := ⟨fun hexternal => absurd hexternal hinternal, fun q m h => by
          cases h
          exact le_add_right _ _⟩
        commits_eq := rfl
        pushes_eq := rfl
        pulls_eq := rfl
        returned_eq := rfl }⟩
    case h_2 owner uncommitted howned =>
      split at h
      case isFalse => cases h
      rename_i hown
      subst hown
      have habove := hlock.above _ _ howned
      cases h
      exact ⟨_, rfl, {
        first_eq := by simp [bound, howned]
        bound_eq := by simp [bound]
        next_le := le_refl _
        bound_mono := fun q => by
          simp only [bound, howned]
          split <;> omega
        bound_others := fun q hq => by
          simp only [bound, howned]
          rwa [if_neg fun heq => hq heq.symm]
        locked := ⟨fun hexternal => absurd hexternal hinternal, fun q m h => by
          cases h
          show s.nextServerSeq ≤ uncommitted + count
          omega⟩
        commits_eq := rfl
        pushes_eq := rfl
        pulls_eq := rfl
        returned_eq := rfl }⟩

theorem takeNextServerSeq_cases {s' : ServerState} {p mutations seq : Nat}
    {allocation allocation' : SequenceAllocation} (hlock : RowLocked s)
    (h : s.takeNextServerSeq p mutations allocation = some (seq, allocation', s')) :
    (allocation.pool = seq :: allocation'.pool ∧ s' = s) ∨
      (allocation.pool = [] ∧ ∃ count, allocation'.pool = List.range' (seq + 1) count ∧
        Reserved s p seq (count + 1) s') := by
  unfold ServerState.takeNextServerSeq at h
  split at h
  case h_1 n pool hpool =>
    cases h
    exact .inl ⟨hpool, rfl⟩
  case h_2 hpool =>
    refine .inr ⟨hpool, ?_⟩
    dsimp only at h
    generalize (if allocation.initialBatchAllocated = true then 1 else max 1 mutations) = count at h
    split at h
    case h_2 => cases h
    rename_i n pool s'' hbatch
    cases h
    obtain ⟨first, hnumbers, hreserved⟩ := getNextServerSeqBatch_reserved hlock hbatch
    cases count with
    | zero => cases hnumbers
    | succ count =>
      obtain ⟨rfl, rfl⟩ := List.cons.inj hnumbers
      exact ⟨count, rfl, hreserved⟩

/-! ## What each step does to a push -/

variable {change : PendingChange}

section Steps

variable {s s' : ServerState} {p : Nat}

theorem beginMutation_eq (h : s.beginMutation p = some s') :
    ∃ push, s.pushes.get p = some push ∧ push.tx = none ∧
      s' = s.setPush p { push with
        remaining := push.remaining - 1
        tx := some ⟨push.sequenceAllocation, []⟩ } := by
  unfold ServerState.beginMutation at h
  split at h
  case h_2 => cases h
  rename_i push hpush
  split at h
  case isFalse => cases h
  case isTrue hidle =>
    cases h
    exact ⟨push, hpush, by simpa using hidle.1, rfl⟩

theorem recordChange_eq (h : s.recordChange p change = some s') :
    ∃ push tx seq allocation taken entry, s.pushes.get p = some push ∧ push.tx = some tx ∧
      s.takeNextServerSeq p push.mutations tx.txSequenceAllocation = some (seq, allocation, taken) ∧
      entry.serverSeq = seq ∧ entry.resource = change.resource ∧
      s' = taken.setPush p { push with tx := some ⟨allocation, tx.written ++ [entry]⟩ } := by
  unfold ServerState.recordChange at h
  split at h
  case h_2 => cases h
  rename_i push hpush
  split at h
  case h_2 => cases h
  rename_i tx htx
  split at h
  case h_2 => cases h
  case h_1 seq allocation taken htake =>
    cases h
    exact ⟨push, tx, seq, allocation, taken, _, hpush, htx, htake, rfl, rfl, rfl⟩

theorem commitMutation_eq (h : s.commitMutation p = some s') :
    ∃ push tx, s.pushes.get p = some push ∧ push.tx = some tx ∧
      s' = ServerState.setPush { s.releaseRow p true with
          commits := s.commits ++ tx.written.map (⟨push.client, ·⟩) } p
        { push with
          sequenceAllocation := tx.txSequenceAllocation
          resourceSeqs := ServerState.raiseResourceSeqs push.resourceSeqs tx.written
          tx := none } := by
  have hcommits : (s.releaseRow p true).commits = s.commits := by
    unfold ServerState.releaseRow
    split
    · split <;> rfl
    · rfl
  unfold ServerState.commitMutation at h
  split at h
  case h_2 => cases h
  rename_i push hpush
  split at h
  case h_2 => cases h
  case h_1 tx htx =>
    cases h
    exact ⟨push, tx, hpush, htx, by rw [hcommits]⟩

theorem rollbackMutation_eq (h : s.rollbackMutation p = some s') :
    ∃ push, s.pushes.get p = some push ∧
      s' = (s.releaseRow p false).setPush p { push with tx := none } := by
  unfold ServerState.rollbackMutation at h
  split at h
  case h_2 => cases h
  rename_i push hpush
  split at h
  case isFalse => cases h
  case isTrue =>
    cases h
    exact ⟨push, hpush, rfl⟩

theorem finishPush_eq (h : s.finishPush p = some s') :
    ∃ push, s.pushes.get p = some push ∧ s' = { s with pushes := s.pushes.delete p } := by
  unfold ServerState.finishPush at h
  split at h
  case h_2 => cases h
  rename_i push hpush
  split at h
  case isFalse => cases h
  case isTrue =>
    cases h
    exact ⟨push, hpush, rfl⟩

theorem startPush_eq {client mutations : Nat} (h : s.startPush p client mutations = some s') :
    s.pushes.get p = none ∧
      s' = s.setPush p ⟨client, mutations, mutations, ⟨false, []⟩, OMap.empty, none⟩ := by
  unfold ServerState.startPush at h
  split at h
  case h_1 => cases h
  case h_2 hnone =>
    cases h
    exact ⟨hnone, rfl⟩

theorem startPull_eq {k client : Nat} {request : Pull.PullRequest} {maxPullLimit : Option Nat}
    (h : s.startPull k client request maxPullLimit = some s') :
    s' = s.setPull k ⟨client, request, Pull.pageLimit maxPullLimit request, OMap.empty⟩ := by
  unfold ServerState.startPull at h
  split at h
  case h_1 => cases h
  split at h
  case isTrue => cases h
  case isFalse =>
    cases h
    rfl

theorem readChanges_eq {k : Nat} {resource : String} (h : s.readChanges k resource = some s') :
    ∃ pull changes, s.pulls.get k = some pull ∧
      resource ∈ Pull.requestedResourceKeys pull.request ∧
      changes = getChangesSince s.log resource
        (ServerState.requestCursor pull.request resource) (pull.limit + 1) ∧
      s' = s.setPull k { pull with streams := pull.streams.set resource changes } := by
  unfold ServerState.readChanges at h
  split at h
  case h_2 => cases h
  rename_i pull hpull
  split at h
  case isFalse => cases h
  case isTrue hread =>
    cases h
    exact ⟨pull, _, hpull, hread.1, rfl, rfl⟩

theorem answerPull_eq {k : Nat} (h : s.answerPull k = some s') :
    ∃ pull, s.pulls.get k = some pull ∧ pull.answerable = true ∧
      s' = { s with
        pulls := s.pulls.delete k
        returned := s.returned ++ (Pull.requestedResourceKeys pull.request).map fun resource =>
          ⟨resource, pull.cursor resource, s.commits.length⟩ } := by
  unfold ServerState.answerPull at h
  split at h
  case h_2 => cases h
  rename_i pull hpull
  split at h
  case isFalse => cases h
  case isTrue hanswer =>
    cases h
    exact ⟨pull, hpull, hanswer, rfl⟩

theorem releaseRow_spec (hlock : RowLocked s) (commit : Bool) :
    RowLocked (s.releaseRow p commit) ∧
      s.nextServerSeq ≤ (s.releaseRow p commit).nextServerSeq ∧
      (∀ q, q ≠ p → bound s q ≤ bound (s.releaseRow p commit) q) ∧
      (commit = true → bound s p ≤ (s.releaseRow p commit).nextServerSeq) ∧
      (s.releaseRow p commit).pushes = s.pushes ∧
      (s.releaseRow p commit).commits = s.commits ∧
      (s.releaseRow p commit).pulls = s.pulls ∧
      (s.releaseRow p commit).returned = s.returned := by
  unfold ServerState.releaseRow
  split
  case h_2 hnone =>
    refine ⟨hlock, le_refl _, fun q _ => le_refl _, fun _ => ?_, rfl, rfl, rfl, rfl⟩
    simp [bound, hnone]
  case h_1 owner uncommitted howned =>
    have habove := hlock.above owner uncommitted howned
    split
    case isTrue hown =>
      subst hown
      have hnext : s.nextServerSeq ≤ if commit then uncommitted else s.nextServerSeq := by
        split <;> omega
      refine ⟨⟨fun _ => rfl, fun q m h => absurd h (by simp)⟩, hnext, fun q hq => ?_,
        fun hcommit => ?_, rfl, rfl, rfl, rfl⟩
      · simp only [bound, howned]
        rwa [if_neg fun heq => hq heq.symm]
      · simp [bound, howned, hcommit]
    case isFalse hother =>
      refine ⟨hlock, le_refl _, fun q _ => le_refl _, fun _ => ?_, rfl, rfl, rfl, rfl⟩
      simp [bound, howned, hother]

end Steps

/-! ## The invariant -/

structure PushNumbered (s : ServerState) (p : Nat) (push : PushRun) : Prop where
  pool_nodup : push.sequenceAllocation.pool.Nodup
  pool_lt : ∀ n ∈ push.sequenceAllocation.pool, 0 < n ∧ n < s.nextServerSeq
  tx_nodup : ∀ tx, push.tx = some tx → (txNumbers tx).Nodup
  tx_lt : ∀ tx, push.tx = some tx → ∀ n ∈ txNumbers tx, 0 < n ∧ n < bound s p

structure Numbered (s : ServerState) : Prop where
  locked : RowLocked s
  positive : 0 < s.nextServerSeq
  commits_lt : ∀ c ∈ s.commits, 0 < c.entry.serverSeq ∧ c.entry.serverSeq < s.nextServerSeq
  commits_nodup : (s.commits.map fun c => c.entry.serverSeq).Nodup
  push : ∀ p push, s.pushes.get p = some push → PushNumbered s p push
  apart : ∀ p q push other, p ≠ q → s.pushes.get p = some push → s.pushes.get q = some other →
    ∀ n ∈ reserved push, n ∉ reserved other
  unused : ∀ p push, s.pushes.get p = some push → ∀ n ∈ reserved push, ∀ c ∈ s.commits,
    c.entry.serverSeq ≠ n

theorem mem_reserved {push : PushRun} {n : Nat} :
    n ∈ reserved push ↔ n ∈ push.sequenceAllocation.pool ∨
      ∃ tx, push.tx = some tx ∧ n ∈ txNumbers tx := by
  unfold reserved
  cases push.tx with
  | none => simp
  | some tx => simp

namespace Numbered

variable {s s' : ServerState} {p : Nat}

theorem reserved_lt (hs : Numbered s) {push : PushRun} (hpush : s.pushes.get p = some push)
    {n : Nat} (hn : n ∈ reserved push) : 0 < n ∧ n < bound s p := by
  have hnumbers := hs.push p push hpush
  rcases mem_reserved.mp hn with hpool | ⟨tx, htx, htxn⟩
  · have hlt := hnumbers.pool_lt n hpool
    have hle := hs.locked.next_le_bound p
    omega
  · exact hnumbers.tx_lt tx htx n htxn

theorem set (hs : Numbered s) {push' : PushRun} (hpushes : s'.pushes = s.pushes.set p push')
    (hcommits : s'.commits = s.commits) (hlock : RowLocked s')
    (hnext : s.nextServerSeq ≤ s'.nextServerSeq)
    (hbound : ∀ q, q ≠ p → bound s q ≤ bound s' q) (hpush : PushNumbered s' p push')
    (hheld : ∀ n ∈ reserved push', (∃ push, s.pushes.get p = some push ∧ n ∈ reserved push) ∨
      s.nextServerSeq ≤ n ∧ ∀ q, q ≠ p → bound s q ≤ n) : Numbered s' := by
  have hothers : ∀ q other, q ≠ p → s.pushes.get q = some other →
      ∀ n ∈ reserved push', n ∉ reserved other := by
    intro q other hq hother n hn hin
    rcases hheld n hn with ⟨push, hold, hmem⟩ | ⟨-, hfresh⟩
    · exact hs.apart p q push other (fun heq => hq heq.symm) hold hother n hmem hin
    · have hlt := (hs.reserved_lt hother hin).2
      have hle := hfresh q hq
      omega
  have hget : ∀ q push, s'.pushes.get q = some push →
      q = p ∧ push = push' ∨ q ≠ p ∧ s.pushes.get q = some push := by
    intro q push hq
    rw [hpushes, get_set] at hq
    split at hq
    case isTrue heq => exact .inl ⟨heq, (Option.some.inj hq).symm⟩
    case isFalse hne => exact .inr ⟨hne, hq⟩
  refine ⟨hlock, by have := hs.positive; omega, ?_, hcommits ▸ hs.commits_nodup, ?_, ?_, ?_⟩
  · intro c hc
    have hlt := hs.commits_lt c (hcommits ▸ hc)
    omega
  · intro q push hq
    rcases hget q push hq with ⟨rfl, rfl⟩ | ⟨hne, hold⟩
    · exact hpush
    have hold := hs.push q push hold
    refine ⟨hold.pool_nodup, fun n hn => ?_, hold.tx_nodup, fun tx htx n hn => ?_⟩
    · have hlt := hold.pool_lt n hn
      omega
    · have hlt := hold.tx_lt tx htx n hn
      have hle := hbound q hne
      omega
  · intro q r push other hqr hq hr n hn hin
    rcases hget q push hq with ⟨rfl, rfl⟩ | ⟨hqne, hqold⟩
    · rcases hget r other hr with ⟨rfl, -⟩ | ⟨hrne, hrold⟩
      · exact hqr rfl
      · exact hothers r other hrne hrold n hn hin
    · rcases hget r other hr with ⟨rfl, rfl⟩ | ⟨-, hrold⟩
      · exact hothers q push hqne hqold n hin hn
      · exact hs.apart q r push other hqr hqold hrold n hn hin
  · intro q push hq n hn c hc hseq
    rw [hcommits] at hc
    rcases hget q push hq with ⟨rfl, rfl⟩ | ⟨-, hold⟩
    · rcases hheld n hn with ⟨old, hold, hmem⟩ | ⟨hfresh, -⟩
      · exact hs.unused q old hold n hmem c hc hseq
      · have hlt := (hs.commits_lt c hc).2
        omega
    · exact hs.unused q push hold n hn c hc hseq

theorem congr (hs : Numbered s) (hexternal : s'.externalStore = s.externalStore)
    (hrow : s'.rowLock = s.rowLock) (hnext : s'.nextServerSeq = s.nextServerSeq)
    (hcommits : s'.commits = s.commits) (hpushes : s'.pushes = s.pushes) : Numbered s' := by
  have hbound : ∀ q, bound s' q = bound s q := fun q => by simp only [bound, hrow, hnext]
  refine ⟨⟨?_, ?_⟩, ?_, ?_, ?_, ?_, ?_, ?_⟩
  · rw [hexternal, hrow]
    exact hs.locked.internal
  · rw [hrow, hnext]
    exact hs.locked.above
  · rw [hnext]
    exact hs.positive
  · rw [hcommits, hnext]
    exact hs.commits_lt
  · rw [hcommits]
    exact hs.commits_nodup
  · intro q push hq
    have hold := hs.push q push (hpushes ▸ hq)
    exact ⟨hold.pool_nodup, by rw [hnext]; exact hold.pool_lt, hold.tx_nodup,
      by rw [hbound]; exact hold.tx_lt⟩
  · rw [hpushes]
    exact hs.apart
  · rw [hpushes, hcommits]
    exact hs.unused

theorem emptyNamespace (externalStore : Bool) : Numbered (emptyNamespace externalStore) where
  locked := ⟨fun _ => rfl, fun _ _ h => absurd h (by simp [Sessions.emptyNamespace])⟩
  positive := one_pos
  commits_lt := fun _ h => absurd h (by simp [Sessions.emptyNamespace])
  commits_nodup := nodup_nil
  push := fun _ _ h => absurd h (by simp [Sessions.emptyNamespace])
  apart := fun _ _ _ _ _ h => absurd h (by simp [Sessions.emptyNamespace])
  unused := fun _ _ h => absurd h (by simp [Sessions.emptyNamespace])

section

variable (hs : Numbered s)
include hs

theorem startPush {client mutations : Nat} (h : s.startPush p client mutations = some s') :
    Numbered s' := by
  obtain ⟨-, rfl⟩ := startPush_eq h
  refine hs.set rfl rfl (hs.locked.setPush _ _) (le_refl _) (fun _ _ => le_refl _) ?_ ?_
  · exact ⟨nodup_nil, by simp, by simp, by simp⟩
  · simp [reserved]

theorem beginMutation (h : s.beginMutation p = some s') : Numbered s' := by
  obtain ⟨push, hpush, -, rfl⟩ := beginMutation_eq h
  have hold := hs.push p push hpush
  refine hs.set rfl rfl (hs.locked.setPush _ _) (le_refl _) (fun _ _ => le_refl _) ?_ ?_
  · refine ⟨hold.pool_nodup, hold.pool_lt, fun tx htx => ?_, fun tx htx n hn => ?_⟩
    · cases htx
      simpa [txNumbers] using hold.pool_nodup
    cases htx
    have hmem : n ∈ push.sequenceAllocation.pool := by simpa [txNumbers] using hn
    have hlt := hold.pool_lt n hmem
    have hle : s.nextServerSeq ≤ bound _ p := hs.locked.next_le_bound p
    exact ⟨hlt.1, lt_of_lt_of_le hlt.2 hle⟩
  · intro n hn
    refine .inl ⟨push, hpush, mem_reserved.mpr (.inl ?_)⟩
    simpa [reserved, txNumbers] using hn

theorem recordChange (h : s.recordChange p change = some s') : Numbered s' := by
  obtain ⟨push, tx, seq, allocation, taken, entry, hpush, htx, htake, rfl, -, rfl⟩ :=
    recordChange_eq h
  have hold := hs.push p push hpush
  have hnodup := hold.tx_nodup tx htx
  have hlt := hold.tx_lt tx htx
  rcases takeNextServerSeq_cases hs.locked htake with ⟨hpool, rfl⟩ | ⟨hpool, count, hrest, hfresh⟩
  · -- the pool gives the number: the transaction holds what it held
    have hsame : ∀ n, n ∈ txNumbers ⟨allocation, tx.written ++ [entry]⟩ ↔ n ∈ txNumbers tx := by
      intro n
      simp only [txNumbers, hpool, map_append, mem_append, map_cons, map_nil,
        mem_cons]
      tauto
    refine hs.set rfl rfl (hs.locked.setPush _ _) (le_refl _) (fun _ _ => le_refl _) ?_ ?_
    · refine ⟨hold.pool_nodup, hold.pool_lt, fun tx' htx' => ?_, fun tx' htx' n hn => ?_⟩
      · cases htx'
        have hperm : (txNumbers ⟨allocation, tx.written ++ [entry]⟩).Perm (txNumbers tx) := by
          unfold txNumbers
          rw [hpool, map_append, ← append_assoc]
          exact perm_append_singleton _ _
        exact hperm.nodup_iff.mpr hnodup
      · cases htx'
        exact hlt n ((hsame n).mp hn)
    · intro n hn
      refine .inl ⟨push, hpush, mem_reserved.mpr ?_⟩
      rcases mem_reserved.mp hn with hn | ⟨tx', htx', hn⟩
      · exact .inl hn
      · cases htx'
        exact .inr ⟨tx, htx, (hsame n).mp hn⟩
  · -- a fresh batch, above everything held so far
    have hbelow : ∀ n ∈ txNumbers tx, n < entry.serverSeq := by
      intro n hn
      rw [hfresh.first_eq]
      exact (hlt n hn).2
    have hmem : ∀ n, n ∈ txNumbers ⟨allocation, tx.written ++ [entry]⟩ →
        n ∈ txNumbers tx ∨ entry.serverSeq ≤ n ∧ n < entry.serverSeq + (count + 1) := by
      intro n hn
      simp only [txNumbers, hrest, map_append, mem_append, map_cons, map_nil,
        mem_singleton, mem_range'_1] at hn
      rcases hn with hn | hn | hn
      · exact .inr (by omega)
      · exact .inl (mem_append_right _ hn)
      · exact .inr (by omega)
    have hnext : s.nextServerSeq ≤ entry.serverSeq := by
      rw [hfresh.first_eq]
      exact hs.locked.next_le_bound p
    refine hs.set (by show taken.pushes.set p _ = _; rw [hfresh.pushes_eq]) hfresh.commits_eq
      (hfresh.locked.setPush _ _) hfresh.next_le (fun q _ => hfresh.bound_mono q) ?_ ?_
    · refine ⟨hold.pool_nodup, fun n hn => ?_, fun tx' htx' => ?_, fun tx' htx' n hn => ?_⟩
      · have hpoolLt := hold.pool_lt n hn
        have hle := hfresh.next_le
        exact ⟨hpoolLt.1, lt_of_lt_of_le hpoolLt.2 hle⟩
      · cases htx'
        have hwritten : (tx.written.map ChangeEntry.serverSeq).Nodup := by
          have := hnodup
          exact (nodup_append.mp this).2.1
        simp only [txNumbers, hrest, map_append, map_cons, map_nil]
        refine nodup_append.mpr ⟨nodup_range', nodup_append.mpr
          ⟨hwritten, by simp, ?_⟩, ?_⟩
        · intro a ha b hb heq
          rw [mem_singleton] at hb
          have := hbelow a (mem_append_right _ ha)
          omega
        · intro a ha b hb heq
          rw [mem_range'_1] at ha
          rcases mem_append.mp hb with hb | hb
          · have := hbelow b (mem_append_right _ hb)
            omega
          · rw [mem_singleton] at hb
            omega
      · cases htx'
        show 0 < n ∧ n < bound taken p
        rw [hfresh.bound_eq]
        rcases hmem n hn with hn | hn
        · have h1 := hlt n hn
          have h2 := hbelow n hn
          omega
        · have := hs.positive
          omega
    · intro n hn
      rcases mem_reserved.mp hn with hn | ⟨tx', htx', hn⟩
      · exact .inl ⟨push, hpush, mem_reserved.mpr (.inl hn)⟩
      cases htx'
      rcases hmem n hn with hn | hn
      · exact .inl ⟨push, hpush, mem_reserved.mpr (.inr ⟨tx, htx, hn⟩)⟩
      · refine .inr ⟨by omega, fun q hq => ?_⟩
        have := hfresh.bound_others q hq
        omega

theorem rollbackMutation (h : s.rollbackMutation p = some s') : Numbered s' := by
  obtain ⟨push, hpush, rfl⟩ := rollbackMutation_eq h
  have hold := hs.push p push hpush
  obtain ⟨hlock, hnext, hbound, -, hpushes, hcommits, -, -⟩ :=
    releaseRow_spec hs.locked false (p := p)
  refine hs.set (by show (s.releaseRow p false).pushes.set p _ = _; rw [hpushes]) hcommits
    (hlock.setPush _ _) hnext hbound ?_ ?_
  · refine ⟨hold.pool_nodup, fun n hn => ?_, by simp, by simp⟩
    have hlt := hold.pool_lt n hn
    exact ⟨hlt.1, lt_of_lt_of_le hlt.2 hnext⟩
  · intro n hn
    refine .inl ⟨push, hpush, mem_reserved.mpr (.inl ?_)⟩
    simpa [reserved] using hn

theorem finishPush (h : s.finishPush p = some s') : Numbered s' := by
  obtain ⟨push, -, rfl⟩ := finishPush_eq h
  have hget : ∀ q other, (s.pushes.delete p).get q = some other → s.pushes.get q = some other := by
    intro q other hq
    rw [get_delete] at hq
    split at hq
    · cases hq
    · exact hq
  refine ⟨⟨hs.locked.internal, hs.locked.above⟩, hs.positive, hs.commits_lt, hs.commits_nodup,
    ?_, ?_, ?_⟩
  · intro q other hq
    have hold := hs.push q other (hget q other hq)
    exact { hold with }
  · intro q r one other hqr hq hr
    exact hs.apart q r one other hqr (hget q one hq) (hget r other hr)
  · intro q other hq
    exact hs.unused q other (hget q other hq)

theorem commitMutation (h : s.commitMutation p = some s') : Numbered s' := by
  obtain ⟨push, tx, hpush, htx, rfl⟩ := commitMutation_eq h
  have hold := hs.push p push hpush
  have hnodup := hold.tx_nodup tx htx
  have hlt := hold.tx_lt tx htx
  obtain ⟨hlock, hnext, hbound, htop, hpushes, -, -, -⟩ :=
    releaseRow_spec hs.locked true (p := p)
  have htop := htop rfl
  have hheld : ∀ n ∈ txNumbers tx, n ∈ reserved push := fun n hn =>
    mem_reserved.mpr (.inr ⟨tx, htx, hn⟩)
  have hwritten : ∀ c ∈ tx.written.map (⟨push.client, ·⟩ : ChangeEntry → Commit),
      c.entry.serverSeq ∈ txNumbers tx := by
    refine forall_mem_map.mpr fun e he => ?_
    exact mem_append_right _ (mem_map_of_mem he)
  have hget : ∀ q other, ((s.releaseRow p true).pushes.set p { push with
        sequenceAllocation := tx.txSequenceAllocation
        resourceSeqs := ServerState.raiseResourceSeqs push.resourceSeqs tx.written
        tx := none }).get q = some other →
      q = p ∧ reserved other = tx.txSequenceAllocation.pool ∧
          other.sequenceAllocation = tx.txSequenceAllocation ∧ other.tx = none ∨
        q ≠ p ∧ s.pushes.get q = some other := by
    intro q other hq
    rw [hpushes, get_set] at hq
    split at hq
    case isTrue heq =>
      cases hq
      exact .inl ⟨heq, by simp [reserved], rfl, rfl⟩
    case isFalse hne => exact .inr ⟨hne, hq⟩
  have hpool : ∀ n ∈ tx.txSequenceAllocation.pool, n ∈ txNumbers tx := fun n hn =>
    mem_append_left _ hn
  refine ⟨⟨hlock.internal, hlock.above⟩, ?_, ?_, ?_, ?_, ?_, ?_⟩
  · have := hs.positive
    show 0 < (s.releaseRow p true).nextServerSeq
    omega
  · intro c hc
    show 0 < _ ∧ _ < (s.releaseRow p true).nextServerSeq
    rcases mem_append.mp hc with hc | hc
    · have := hs.commits_lt c hc
      omega
    · have := hlt _ (hwritten c hc)
      omega
  · show ((s.commits ++ tx.written.map (⟨push.client, ·⟩ : ChangeEntry → Commit)).map fun c =>
      c.entry.serverSeq).Nodup
    rw [map_append, map_map]
    refine nodup_append.mpr ⟨hs.commits_nodup, (nodup_append.mp hnodup).2.1, ?_⟩
    intro a ha b hb heq
    obtain ⟨c, hc, rfl⟩ := mem_map.mp ha
    obtain ⟨e, he, rfl⟩ := mem_map.mp hb
    have hmem : e.serverSeq ∈ txNumbers tx := mem_append_right _ (mem_map_of_mem he)
    exact hs.unused p push hpush _ (hheld _ hmem) c hc heq
  · intro q other hq
    rcases hget q other hq with ⟨rfl, -, halloc, hnone⟩ | ⟨hne, hq⟩
    · refine ⟨?_, ?_, by simp [hnone], by simp [hnone]⟩
      · rw [halloc]
        exact (nodup_append.mp hnodup).1
      intro n hn
      rw [halloc] at hn
      show 0 < n ∧ n < (s.releaseRow q true).nextServerSeq
      have := hlt n (hpool n hn)
      omega
    · have hother := hs.push q other hq
      refine { hother with pool_lt := fun n hn => ?_, tx_lt := fun tx' htx' n hn => ?_ }
      · show 0 < n ∧ n < (s.releaseRow p true).nextServerSeq
        have := hother.pool_lt n hn
        omega
      · show 0 < n ∧ n < bound (s.releaseRow p true) q
        have := hother.tx_lt tx' htx' n hn
        have := hbound q hne
        omega
  · intro q r one other hqr hq hr n hn hin
    rcases hget q one hq with ⟨rfl, hone, -, -⟩ | ⟨-, hqold⟩
    · rcases hget r other hr with ⟨rfl, -, -, -⟩ | ⟨-, hrold⟩
      · exact hqr rfl
      · exact hs.apart q r push other hqr hpush hrold n (hheld n (hpool n (hone ▸ hn))) hin
    · rcases hget r other hr with ⟨rfl, hother, -, -⟩ | ⟨-, hrold⟩
      · exact hs.apart q r one push hqr hqold hpush n hn (hheld n (hpool n (hother ▸ hin)))
      · exact hs.apart q r one other hqr hqold hrold n hn hin
  · intro q other hq n hn c hc hseq
    rcases mem_append.mp hc with hcold | hcnew
    · rcases hget q other hq with ⟨rfl, hone, -, -⟩ | ⟨-, hqold⟩
      · exact hs.unused q push hpush n (hheld n (hpool n (hone ▸ hn))) c hcold hseq
      · exact hs.unused q other hqold n hn c hcold hseq
    rcases hget q other hq with ⟨rfl, hone, -, -⟩ | ⟨hne, hqold⟩
    · -- the rest of the pool and the committed changes are apart
      obtain ⟨e, he, rfl⟩ := mem_map.mp hcnew
      exact (nodup_append.mp hnodup).2.2 n (hone ▸ hn) e.serverSeq
        (mem_map_of_mem he) hseq.symm
    · have hmem := hwritten c hcnew
      rw [hseq] at hmem
      exact hs.apart q p other push hne hqold hpush n hn (hheld n hmem)

theorem step {a : Action} (h : Sessions.step s a = some s') : Numbered s' := by
  cases a with
  | startPush p client mutations => exact hs.startPush h
  | beginMutation p => exact hs.beginMutation h
  | recordChange p change => exact hs.recordChange h
  | commitMutation p => exact hs.commitMutation h
  | rollbackMutation p => exact hs.rollbackMutation h
  | finishPush p => exact hs.finishPush h
  | startPull k client request maxPullLimit =>
    rw [startPull_eq h]
    exact hs.congr rfl rfl rfl rfl rfl
  | readChanges k resource =>
    obtain ⟨pull, changes, -, -, -, rfl⟩ := readChanges_eq h
    exact hs.congr rfl rfl rfl rfl rfl
  | answerPull k =>
    obtain ⟨pull, -, -, rfl⟩ := answerPull_eq h
    exact hs.congr rfl rfl rfl rfl rfl

end

end Numbered

/-! ## Settled numbers -/

/-- No change will be committed at or below `c`: it is below the row and all reserved numbers. -/
structure Settled (s : ServerState) (c : Nat) : Prop where
  issued : c < s.nextServerSeq
  free : ∀ p push, s.pushes.get p = some push → ∀ n ∈ reserved push, c < n

section SettledSteps

variable {s s' : ServerState} {c : Nat}

theorem Settled.set {p : Nat} {push' : PushRun} (hc : Settled s c)
    (hpushes : s'.pushes = s.pushes.set p push') (hnext : s.nextServerSeq ≤ s'.nextServerSeq)
    (hheld : ∀ n ∈ reserved push', (∃ push, s.pushes.get p = some push ∧ n ∈ reserved push) ∨
      s.nextServerSeq ≤ n) : Settled s' c := by
  refine ⟨lt_of_lt_of_le hc.issued hnext, fun q push hq n hn => ?_⟩
  rw [hpushes, get_set] at hq
  split at hq
  · cases hq
    rcases hheld n hn with ⟨push, hpush, hmem⟩ | hfresh
    · exact hc.free p push hpush n hmem
    · exact lt_of_lt_of_le hc.issued hfresh
  · exact hc.free q push hq n hn

theorem Settled.step (hs : Numbered s) {a : Action} (h : Sessions.step s a = some s')
    (hc : Settled s c) :
    Settled s' c ∧ ∃ added, s'.commits = s.commits ++ added ∧
      ∀ commit ∈ added, c < commit.entry.serverSeq := by
  cases a with
  | startPush p client mutations =>
    obtain ⟨-, rfl⟩ := startPush_eq h
    refine ⟨hc.set rfl (le_refl _) (by simp [reserved]), [], by simp [ServerState.setPush],
      by simp⟩
  | beginMutation p =>
    obtain ⟨push, hpush, -, rfl⟩ := beginMutation_eq h
    refine ⟨hc.set rfl (le_refl _) fun n hn => ?_, [], by simp [ServerState.setPush],
      by simp⟩
    refine .inl ⟨push, hpush, mem_reserved.mpr (.inl ?_)⟩
    simpa [reserved, txNumbers] using hn
  | recordChange p change =>
    obtain ⟨push, tx, seq, allocation, taken, entry, hpush, htx, htake, rfl, -, rfl⟩ :=
      recordChange_eq h
    rcases takeNextServerSeq_cases hs.locked htake with
      ⟨hpool, rfl⟩ | ⟨hpool, count, hrest, hfresh⟩
    · refine ⟨hc.set rfl (le_refl _) fun n hn => ?_, [], by simp [ServerState.setPush],
        by simp⟩
      refine .inl ⟨push, hpush, mem_reserved.mpr ?_⟩
      rcases mem_reserved.mp hn with hn | ⟨tx', htx', hn⟩
      · exact .inl hn
      cases htx'
      refine .inr ⟨tx, htx, ?_⟩
      simp only [txNumbers, hpool, map_append, mem_append, map_cons,
        map_nil, mem_cons] at hn ⊢
      tauto
    · have hnext : s.nextServerSeq ≤ entry.serverSeq := by
        rw [hfresh.first_eq]
        exact hs.locked.next_le_bound p
      refine ⟨hc.set (by show taken.pushes.set p _ = _; rw [hfresh.pushes_eq]) hfresh.next_le
        fun n hn => ?_, [], by simp [ServerState.setPush, hfresh.commits_eq], by simp⟩
      rcases mem_reserved.mp hn with hn | ⟨tx', htx', hn⟩
      · exact .inl ⟨push, hpush, mem_reserved.mpr (.inl hn)⟩
      cases htx'
      simp only [txNumbers, hrest, map_append, mem_append, map_cons,
        map_nil, mem_singleton, mem_range'_1] at hn
      rcases hn with hn | hn | hn
      · exact .inr (by omega)
      · exact .inl ⟨push, hpush, mem_reserved.mpr (.inr ⟨tx, htx, mem_append_right _ hn⟩)⟩
      · exact .inr (by omega)
  | commitMutation p =>
    obtain ⟨push, tx, hpush, htx, rfl⟩ := commitMutation_eq h
    obtain ⟨-, hnext, -, -, hpushes, -, -, -⟩ := releaseRow_spec hs.locked true (p := p)
    have hheld : ∀ n ∈ txNumbers tx, n ∈ reserved push := fun n hn =>
      mem_reserved.mpr (.inr ⟨tx, htx, hn⟩)
    refine ⟨hc.set (by show (s.releaseRow p true).pushes.set p _ = _; rw [hpushes]) hnext
      fun n hn => ?_, _, rfl, fun commit hcommit => ?_⟩
    · have hpool : n ∈ tx.txSequenceAllocation.pool := by simpa [reserved] using hn
      exact .inl ⟨push, hpush, hheld n (mem_append_left _ hpool)⟩
    · obtain ⟨e, he, rfl⟩ := mem_map.mp hcommit
      have hmem : e.serverSeq ∈ txNumbers tx :=
        mem_append_right _ (mem_map_of_mem he)
      exact hc.free p push hpush _ (hheld _ hmem)
  | rollbackMutation p =>
    obtain ⟨push, hpush, rfl⟩ := rollbackMutation_eq h
    obtain ⟨-, hnext, -, -, hpushes, hcommits, -, -⟩ := releaseRow_spec hs.locked false (p := p)
    refine ⟨hc.set (by show (s.releaseRow p false).pushes.set p _ = _; rw [hpushes]) hnext
      fun n hn => ?_, [], by simp [ServerState.setPush, hcommits], by simp⟩
    refine .inl ⟨push, hpush, mem_reserved.mpr (.inl ?_)⟩
    simpa [reserved] using hn
  | finishPush p =>
    obtain ⟨push, -, rfl⟩ := finishPush_eq h
    refine ⟨⟨hc.issued, fun q other hq n hn => ?_⟩, [], by simp, by simp⟩
    rw [get_delete] at hq
    split at hq
    · cases hq
    · exact hc.free q other hq n hn
  | startPull k client request maxPullLimit =>
    rw [startPull_eq h]
    exact ⟨⟨hc.issued, hc.free⟩, [], by simp [ServerState.setPull], by simp⟩
  | readChanges k resource =>
    obtain ⟨pull, changes, -, -, -, rfl⟩ := readChanges_eq h
    exact ⟨⟨hc.issued, hc.free⟩, [], by simp [ServerState.setPull], by simp⟩
  | answerPull k =>
    obtain ⟨pull, -, -, rfl⟩ := answerPull_eq h
    exact ⟨⟨hc.issued, hc.free⟩, [], by simp, by simp⟩

end SettledSteps

end SuperFunctions.Datafn.Server.SequenceNumbers
