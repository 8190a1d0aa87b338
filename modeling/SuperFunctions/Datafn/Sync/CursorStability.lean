import SuperFunctions.Datafn.Server.SequenceNumbers

/-!
# Cursor stability

A cursor a pull has returned stays below every change committed afterwards, in every run whose
reads happen while no push holds an uncommitted number that the returned cursor could pass.
-/
namespace SuperFunctions.Datafn.Sync.CursorStability

open Lib.OrderedMap Lib.Transition Server.ChangeLog Server.ChangeStreams Server.Pull Server.Sessions
open Server.SequenceNumbers List OMap

/-- After a cursor for a resource was returned, its changes get larger numbers. -/
def CursorStable (s : ServerState) : Prop :=
  ∀ h ∈ s.returned, ∀ c ∈ s.commits.drop h.committed,
    c.entry.resource = h.resource → h.cursor < c.entry.serverSeq

/-- The numbers that pushes have reserved and not committed. -/
def reservedNumbers (s : ServerState) : List Nat := s.pushes.values.flatMap reserved

/-- All reserved numbers lie above the cursor of the read, which the namespace has issued, and
above every change the read returns. -/
def ReadSettled (s : ServerState) (pull : PullRun) (resource : String) : Prop :=
  ServerState.requestCursor pull.request resource < s.nextServerSeq ∧
    ∀ n ∈ reservedNumbers s, ServerState.requestCursor pull.request resource < n ∧
      ∀ c ∈ getChangesSince s.log resource
        (ServerState.requestCursor pull.request resource) (pull.limit + 1), c.serverSeq < n

instance (s : ServerState) (pull : PullRun) (resource : String) :
    Decidable (ReadSettled s pull resource) := inferInstanceAs (Decidable (_ ∧ _))

def ReadsSettled (s : ServerState) : Action → Prop
  | .readChanges k resource => ∀ pull ∈ s.pulls.get k, ReadSettled s pull resource
  | _ => True

instance (s : ServerState) : (a : Action) → Decidable (ReadsSettled s a)
  | .readChanges k resource =>
    inferInstanceAs (Decidable (∀ pull ∈ s.pulls.get k, ReadSettled s pull resource))
  | .startPush _ _ _ | .beginMutation _ | .recordChange _ _ | .commitMutation _
  | .rollbackMutation _ | .finishPush _ | .startPull _ _ _ _ | .answerPull _ => isTrue trivial

theorem mem_reservedNumbers {s : ServerState} {n : Nat} :
    n ∈ reservedNumbers s ↔ ∃ p push, s.pushes.get p = some push ∧ n ∈ reserved push := by
  unfold reservedNumbers
  rw [mem_flatMap]
  constructor
  · intro ⟨push, hpush, hn⟩
    obtain ⟨p, hp⟩ := (mem_values_iff_get s.pushes push).mp hpush
    exact ⟨p, push, hp, hn⟩
  · intro ⟨p, push, hp, hn⟩
    exact ⟨push, (mem_values_iff_get s.pushes push).mpr ⟨p, hp⟩, hn⟩

/-- What is returned and what pulls under way have read is settled. -/
structure PullsSettled (s : ServerState) : Prop where
  numbered : Numbered s
  returned : ∀ h ∈ s.returned, Settled s h.cursor ∧ h.committed ≤ s.commits.length ∧
    ∀ c ∈ s.commits.drop h.committed, h.cursor < c.entry.serverSeq
  reading : ∀ k pull, s.pulls.get k = some pull → ∀ resource stream,
    pull.streams.get resource = some stream →
      Settled s (ServerState.requestCursor pull.request resource) ∧
      ∀ c ∈ stream, Settled s c.serverSeq

theorem cursor_cases (pull : PullRun) {resource : String}
    (h : resource ∈ requestedResourceKeys pull.request) :
    pull.cursor resource = ServerState.requestCursor pull.request resource ∨
      ∃ r stream c, pull.streams.get r = some stream ∧ c ∈ stream ∧
        c.serverSeq = pull.cursor resource := by
  have hfeed : resource ≠ actorFeedCursorKey := by
    simpa using (mem_filter.mp h).2
  unfold PullRun.cursor PullRun.cursors
  rw [get_pageCursors _ _ _ hfeed]
  have hspec := latestCursors_spec pull.selection.merged resource
  have hlatest : pull.selection.latestCursorPerResource = latestCursors pull.selection.merged := rfl
  rw [hlatest]
  cases hget : (latestCursors pull.selection.merged).get resource with
  | none => exact .inl rfl
  | some cursor =>
    rw [hget] at hspec
    obtain ⟨⟨c, hc, -, hseq⟩, -⟩ := hspec
    refine .inr ?_
    have hpending := mem_pending_of_selected hc
    rw [pending_filterMap_toHead] at hpending
    obtain ⟨stream, hstream, hmem⟩ := mem_flatMap.mp hpending
    obtain ⟨r, -, rfl⟩ := mem_map.mp hstream
    cases hr : pull.streams.get r with
    | none =>
      rw [hr] at hmem
      cases hmem
    | some changes =>
      rw [hr] at hmem
      exact ⟨r, changes, c, hr, hmem, hseq⟩

theorem pullsSettled_emptyNamespace (externalStore : Bool) :
    PullsSettled (emptyNamespace externalStore) where
  numbered := Numbered.emptyNamespace externalStore
  returned := fun _ h => absurd h (by simp [emptyNamespace])
  reading := fun _ _ h => absurd h (by simp [emptyNamespace])

section Step

variable {s s' : ServerState} {a : Action}

theorem PullsSettled.returned_step (hs : PullsSettled s) (h : step s a = some s')
    {x : ReturnedCursor} (hx : x ∈ s.returned) :
    Settled s' x.cursor ∧ x.committed ≤ s'.commits.length ∧
      ∀ c ∈ s'.commits.drop x.committed, x.cursor < c.entry.serverSeq := by
  obtain ⟨hsettled, hlength, hlater⟩ := hs.returned x hx
  obtain ⟨hafter, added, hcommits, hadded⟩ := hsettled.step hs.numbered h
  refine ⟨hafter, ?_, fun c hc => ?_⟩
  · rw [hcommits, length_append]
    omega
  · rw [hcommits, drop_append_of_le_length hlength] at hc
    rcases mem_append.mp hc with hc | hc
    · exact hlater c hc
    · exact hadded c hc

theorem PullsSettled.reading_step (hs : PullsSettled s) (h : step s a = some s') {k : Nat}
    {pull : PullRun} (hpull : s.pulls.get k = some pull) {resource : String}
    {stream : List ChangeEntry} (hstream : pull.streams.get resource = some stream) :
    Settled s' (ServerState.requestCursor pull.request resource) ∧
      ∀ c ∈ stream, Settled s' c.serverSeq := by
  obtain ⟨hcursor, hchanges⟩ := hs.reading k pull hpull resource stream hstream
  exact ⟨(hcursor.step hs.numbered h).1, fun c hc => ((hchanges c hc).step hs.numbered h).1⟩

theorem PullsSettled.push (hs : PullsSettled s) (h : step s a = some s')
    (hpulls : s'.pulls = s.pulls) (hreturned : s'.returned = s.returned) : PullsSettled s' where
  numbered := hs.numbered.step h
  returned := fun _ hx => hs.returned_step h (hreturned ▸ hx)
  reading := fun _ _ hpull _ _ hstream => hs.reading_step h (hpulls ▸ hpull) hstream

theorem settled_of_readSettled (hs : Numbered s) {pull : PullRun} {resource : String}
    (h : ReadSettled s pull resource) :
    Settled s (ServerState.requestCursor pull.request resource) ∧
      ∀ c ∈ getChangesSince s.log resource
        (ServerState.requestCursor pull.request resource) (pull.limit + 1),
        Settled s c.serverSeq := by
  obtain ⟨hissued, hfree⟩ := h
  have hmem : ∀ p push, s.pushes.get p = some push → ∀ n ∈ reserved push,
      n ∈ reservedNumbers s := fun p push hp n hn => mem_reservedNumbers.mpr ⟨p, push, hp, hn⟩
  refine ⟨⟨hissued, fun p push hp n hn => (hfree n (hmem p push hp n hn)).1⟩, fun c hc =>
    ⟨?_, fun p push hp n hn => (hfree n (hmem p push hp n hn)).2 c hc⟩⟩
  obtain ⟨hlog, -, -⟩ := of_mem_getChangesSince hc
  obtain ⟨commit, hcommit, rfl⟩ := mem_map.mp hlog
  exact (hs.commits_lt commit hcommit).2

end Step

theorem pullsSettled_step (s : ServerState) (a : Action) (s' : ServerState)
    (hs : PullsSettled s) (hguard : ReadsSettled s a) (h : step s a = some s') :
    PullsSettled s' := by
  have hnumbered := hs.numbered.step h
  cases a with
  | startPush p client mutations =>
    obtain ⟨-, rfl⟩ := startPush_eq h
    exact hs.push h rfl rfl
  | beginMutation p =>
    obtain ⟨push, -, -, rfl⟩ := beginMutation_eq h
    exact hs.push h rfl rfl
  | recordChange p change =>
    obtain ⟨push, tx, seq, allocation, taken, entry, -, -, htake, -, -, rfl⟩ := recordChange_eq h
    rcases takeNextServerSeq_cases hs.numbered.locked htake with
      ⟨-, rfl⟩ | ⟨-, count, -, hfresh⟩
    · exact hs.push h rfl rfl
    · exact hs.push h hfresh.pulls_eq hfresh.returned_eq
  | commitMutation p =>
    obtain ⟨push, tx, -, -, rfl⟩ := commitMutation_eq h
    obtain ⟨-, -, -, -, -, -, hpulls, hreturned⟩ :=
      releaseRow_spec hs.numbered.locked true (p := p)
    exact hs.push h hpulls hreturned
  | rollbackMutation p =>
    obtain ⟨push, -, rfl⟩ := rollbackMutation_eq h
    obtain ⟨-, -, -, -, -, -, hpulls, hreturned⟩ :=
      releaseRow_spec hs.numbered.locked false (p := p)
    exact hs.push h hpulls hreturned
  | finishPush p =>
    obtain ⟨push, -, rfl⟩ := finishPush_eq h
    exact hs.push h rfl rfl
  | startPull k client request maxPullLimit =>
    have heq := startPull_eq h
    have hreturned : s'.returned = s.returned := by rw [heq]; rfl
    refine ⟨hnumbered, fun x hx => hs.returned_step h (hreturned ▸ hx), ?_⟩
    intro k' pull hpull resource stream hstream
    rw [heq, ServerState.setPull, get_set] at hpull
    split at hpull
    · cases hpull
      cases hstream
    · exact hs.reading_step h hpull hstream
  | readChanges k resource =>
    obtain ⟨pull, changes, hpull, -, hchanges, heq⟩ := readChanges_eq h
    have hreturned : s'.returned = s.returned := by rw [heq]; rfl
    refine ⟨hnumbered, fun x hx => hs.returned_step h (hreturned ▸ hx), ?_⟩
    intro k' pull' hpull' r stream hstream
    rw [heq, ServerState.setPull, get_set] at hpull'
    split at hpull'
    case isFalse => exact hs.reading_step h hpull' hstream
    cases hpull'
    rw [get_set] at hstream
    split at hstream
    case isFalse => exact hs.reading_step h hpull hstream
    rename_i hr
    -- the read itself: this is where the condition is used
    subst hr
    cases hstream
    obtain ⟨hcursor, hread⟩ := settled_of_readSettled hs.numbered (hguard pull hpull)
    refine ⟨(hcursor.step hs.numbered h).1, fun c hc => ?_⟩
    exact ((hread c (hchanges ▸ hc)).step hs.numbered h).1
  | answerPull k =>
    obtain ⟨pull, hpull, hanswer, heq⟩ := answerPull_eq h
    have hpulls : s'.pulls = s.pulls.delete k := by rw [heq]
    refine ⟨hnumbered, fun x hx => ?_, fun k' pull' hpull' resource stream hstream => ?_⟩
    · rw [heq] at hx
      rcases mem_append.mp hx with hx | hx
      · exact hs.returned_step h hx
      obtain ⟨resource, hresource, rfl⟩ := mem_map.mp hx
      have hcommits : s'.commits = s.commits := by rw [heq]
      have hsettled : Settled s (pull.cursor resource) := by
        rcases cursor_cases pull hresource with hcursor | ⟨r, stream, c, hstream, hc, hseq⟩
        · have hread := all_eq_true.mp hanswer resource hresource
          obtain ⟨stream, hstream⟩ := Option.isSome_iff_exists.mp hread
          rw [hcursor]
          exact (hs.reading k pull hpull resource stream hstream).1
        · rw [← hseq]
          exact (hs.reading k pull hpull r stream hstream).2 c hc
      refine ⟨(hsettled.step hs.numbered h).1, by rw [hcommits], ?_⟩
      rw [hcommits, drop_length]
      simp
    · rw [hpulls, get_delete] at hpull'
      split at hpull'
      · exact absurd hpull' (by simp)
      · exact hs.reading_step h hpull' hstream

/-- Every cursor returned in a run whose reads are settled is stable. -/
theorem returned_cursors_stable (externalStore : Bool) (actions : List Action) {s : ServerState}
    (hrun : run step (emptyNamespace externalStore) actions = some s)
    (hreads : Guarded step ReadsSettled (emptyNamespace externalStore) actions) :
    CursorStable s := by
  have hsettled := guarded_run_invariant step pullsSettled_step
    (pullsSettled_emptyNamespace externalStore) hreads hrun
  intro x hx c hc _
  exact (hsettled.returned x hx).2.2 c hc

/-! ## Two runs -/

def noteInsert (id : String) : PendingChange := ⟨"notes", id, .insert, none⟩

/-- One mutation, from its transaction to its commit. -/
def mutationOf (p : Nat) (id : String) : List Action :=
  [.beginMutation p, .recordChange p (noteInsert id), .commitMutation p]

def pullOfNotes (k : Nat) : List Action :=
  [.startPull k 2 ⟨OMap.empty.set "notes" 0, none⟩ none, .readChanges k "notes", .answerPull k]

/-- The first push reserves 1 and 2 and commits 1; the second commits 3; a pull returns 3; the
first push commits 2. -/
def overtakingRun : List Action :=
  [.startPush 0 0 2] ++ mutationOf 0 "a" ++ [.startPush 1 1 1] ++ mutationOf 1 "b" ++
    pullOfNotes 0 ++ mutationOf 0 "c"

theorem returned_cursor_overtaken :
    ∃ s, run step (emptyNamespace false) overtakingRun = some s ∧ ¬ CursorStable s := by
  refine ⟨_, rfl, fun h => ?_⟩
  exact absurd (h ⟨"notes", 3, 2⟩ (by decide) ⟨0, ⟨2, "notes", "c", .insert, none⟩⟩ (by decide)
    rfl) (by decide)

/-- The pull comes when both pushes are over. -/
def orderlyRun : List Action :=
  [.startPush 0 0 2] ++ mutationOf 0 "a" ++ [.startPush 1 1 1] ++ mutationOf 1 "b" ++
    mutationOf 0 "c" ++ pullOfNotes 0 ++ [.startPush 2 1 1] ++ mutationOf 2 "d"

theorem orderlyRun_stable :
    ∃ s, run step (emptyNamespace false) orderlyRun = some s ∧ CursorStable s :=
  ⟨_, rfl, returned_cursors_stable false orderlyRun rfl (by decide)⟩

end SuperFunctions.Datafn.Sync.CursorStability
