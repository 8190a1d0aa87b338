import SuperFunctions.Lib.Processes

/-!
# The outbox of a collaboration session

Local updates wait in a queue that a flush sends from its head, one at a time. The queue is
compacted while its head is in flight. A flush is a loop: it calls `sendUpdate`, awaits the answer,
tests its condition again, and when it has left, its promise is cleared in a later microtask.
`sendUpdate` may call back into the session before it returns.
-/
namespace SuperFunctions.Mdfn.Outbox

open Lib.Transition List

universe u

/-- What the outbox relies on of Yjs: a merged update contains the updates it was merged from. -/
structure UpdateFormat (U : Type u) where
  mergeUpdates : List U → U
  byteLength : U → Nat
  Contains : U → U → Prop
  contains_refl : ∀ update, Contains update update
  contains_trans : ∀ {a b c}, Contains a b → Contains b c → Contains a c
  contains_merge : ∀ {updates update}, update ∈ updates → Contains (mergeUpdates updates) update

variable {U : Type u}

structure PendingUpdate (U : Type u) where
  id : Nat
  update : U
deriving DecidableEq

inductive FlushPhase (U : Type u)
  /-- `sendUpdate` was called for the first time and has not returned. -/
  | calling (entry : PendingUpdate U)
  | sending (entry : PendingUpdate U)
  /-- The loop was left, and `finally` has not run. -/
  | left (failed : Bool)
  | cleared

def FlushPhase.running : FlushPhase U → Bool
  | .calling _ | .sending _ => true
  | .left _ | .cleared => false

/-- A flush, with the number of local updates that wait for it to fail. -/
structure Flush (U : Type u) where
  phase : FlushPhase U
  watchers : Nat

/-- The variables of the session and its flushes. `caught` counts the handlers that are about to
run; `made`, `sent` and `lastFailed` are a history that nothing reads. -/
structure Session (U : Type u) where
  online : Bool
  nextPendingId : Nat
  pendingUpdates : List (PendingUpdate U)
  inFlight : Option (PendingUpdate U)
  flushing : Option Nat
  flushes : List (Flush U)
  caught : Nat
  made : List U
  sent : List U
  lastFailed : Bool

structure Options where
  maxUpdateBytes : Nat
  compactionThresholdBytes : Nat
  /-- A `sendUpdate` was given. -/
  sendUpdate : Bool

inductive Event (U : Type u)
  | localUpdate (update : U)
  | compact
  | flush
  | setOnline (value : Bool)
  /-- The first call of `sendUpdate` by the flush returns. -/
  | returned (i : Nat)
  | resolved (i : Nat)
  | rejected (i : Nat)
  /-- The `finally` of the flush. -/
  | finish (i : Nat)
  /-- A handler of a failed flush. -/
  | goOffline

section Operations

variable [DecidableEq U] (format : UpdateFormat U) (options : Options)

/-- `none` when it throws. -/
def compactPending (s : Session U) : Option (Session U) :=
  let compactable := s.pendingUpdates.filter fun entry => s.inFlight ≠ some entry
  let update := format.mergeUpdates (compactable.map (·.update))
  if options.maxUpdateBytes < format.byteLength update then none
  else if compactable = [] then some s
  else some { s with
    nextPendingId := s.nextPendingId + 1
    pendingUpdates := s.inFlight.toList ++ [⟨s.nextPendingId + 1, update⟩] }

def setFlush (s : Session U) (i : Nat) (flush : Flush U) : Session U :=
  { s with flushes := s.flushes.set i flush }

/-- `watchers` is one for the flush of a local update. -/
def flush (s : Session U) (watchers : Nat) : Session U :=
  if !s.online || !options.sendUpdate then s
  else match s.pendingUpdates, s.flushing with
    | [], _ => s
    | _, some i => { s with flushes := s.flushes.modify i fun running =>
        { running with watchers := running.watchers + watchers } }
    | entry :: _, none => { s with
        inFlight := some entry
        flushes := s.flushes ++ [⟨.calling entry, watchers⟩] }

def queueLocalUpdate (s : Session U) (update : U) : Session U :=
  let pushed := { s with
    nextPendingId := s.nextPendingId + 1
    pendingUpdates := s.pendingUpdates ++ [⟨s.nextPendingId + 1, update⟩]
    made := s.made ++ [update] }
  let total := (pushed.pendingUpdates.map fun entry => format.byteLength entry.update).sum
  let compacted := if options.compactionThresholdBytes < total then
    (compactPending format options pushed).getD pushed else pushed
  if compacted.online then flush options compacted 1 else compacted

def setOnline (s : Session U) (value : Bool) : Session U :=
  if value then flush options { s with online := true } 0 else { s with online := false }

/-- `if (inFlight === entry) inFlight = null` -/
def release (s : Session U) (entry : PendingUpdate U) : Session U :=
  if s.inFlight = some entry then { s with inFlight := none } else s

/-- The test of the loop, and the next send. -/
def continueFlush (s : Session U) (i : Nat) (watchers : Nat) : Session U :=
  match s.online, s.pendingUpdates with
  | true, entry :: _ => { setFlush s i ⟨.sending entry, watchers⟩ with inFlight := some entry }
  | _, _ => setFlush s i ⟨.left false, watchers⟩

def sendSucceeded (s : Session U) (i : Nat) (entry : PendingUpdate U) (watchers : Nat) :
    Session U :=
  continueFlush (release { s with
    pendingUpdates := s.pendingUpdates.filter (· ≠ entry)
    sent := s.sent ++ [entry.update]
    lastFailed := false } entry) i watchers

def sendFailed (s : Session U) (i : Nat) (entry : PendingUpdate U) (watchers : Nat) : Session U :=
  setFlush (release { s with lastFailed := true } entry) i ⟨.left true, watchers⟩

def step (s : Session U) : Event U → Option (Session U)
  | .localUpdate update => some (queueLocalUpdate format options s update)
  | .compact => some ((compactPending format options s).getD s)
  | .flush => some (flush options s 0)
  | .setOnline value => some (setOnline options s value)
  | .returned i =>
    match s.flushes[i]? with
    | some ⟨.calling entry, watchers⟩ =>
      some { setFlush s i ⟨.sending entry, watchers⟩ with flushing := some i }
    | _ => none
  | .resolved i =>
    match s.flushes[i]? with
    | some ⟨.sending entry, watchers⟩ => some (sendSucceeded s i entry watchers)
    | _ => none
  | .rejected i =>
    match s.flushes[i]? with
    | some ⟨.sending entry, watchers⟩ => some (sendFailed s i entry watchers)
    | _ => none
  | .finish i =>
    match s.flushes[i]? with
    | some ⟨.left failed, watchers⟩ => some { setFlush s i ⟨.cleared, 0⟩ with
        flushing := none
        caught := s.caught + if failed then watchers else 0 }
    | _ => none
  | .goOffline =>
    if 0 < s.caught then some { s with online := false, caught := s.caught - 1 } else none

/-- A session that was just created: with a `sendUpdate` the whole document waits to be sent. -/
def created (online : Bool) (initial : U) : Session U :=
  let empty : Session U := ⟨online, 0, [], none, none, [], 0, [], [], false⟩
  if options.sendUpdate then
    let queued := { empty with
      nextPendingId := 1, pendingUpdates := [⟨1, initial⟩], made := [initial] }
    if online then flush options queued 1 else queued
  else empty

end Operations

variable {event : Event U} {i watchers : Nat}

section Delivery

variable {format : UpdateFormat U} {options : Options} {s s' : Session U}

/-- Every local update is contained in one that was sent or in one that waits. -/
def Covered (format : UpdateFormat U) (s : Session U) : Prop :=
  ∀ update ∈ s.made, (∃ sent ∈ s.sent, format.Contains sent update) ∨
    ∃ entry ∈ s.pendingUpdates, format.Contains entry.update update

/-- What waits goes on waiting, by itself or merged into another entry. -/
def Keeps (format : UpdateFormat U) (before after : List (PendingUpdate U)) : Prop :=
  ∀ entry ∈ before, ∃ kept ∈ after, format.Contains kept.update entry.update

theorem keeps_of_subset {before after : List (PendingUpdate U)} (h : before ⊆ after) :
    Keeps format before after :=
  fun entry hentry => ⟨entry, h hentry, format.contains_refl _⟩

theorem keeps_trans {a b c : List (PendingUpdate U)} (h : Keeps format a b)
    (h' : Keeps format b c) : Keeps format a c := by
  intro entry hentry
  obtain ⟨kept, hkept, hcontains⟩ := h entry hentry
  obtain ⟨last, hlast, hcontains'⟩ := h' kept hkept
  exact ⟨last, hlast, format.contains_trans hcontains' hcontains⟩

/-- What an operation that sends nothing leaves. -/
structure Quiet (format : UpdateFormat U) (s s' : Session U) : Prop where
  keeps : Keeps format s.pendingUpdates s'.pendingUpdates
  made : s'.made = s.made
  sent : s'.sent = s.sent

theorem quiet_refl : Quiet format s s := ⟨keeps_of_subset (List.Subset.refl _), rfl, rfl⟩

theorem covered_quiet (hquiet : Quiet format s s') (h : Covered format s) : Covered format s' := by
  intro update hupdate
  rw [hquiet.made] at hupdate
  rcases h update hupdate with ⟨sent, hsent, hcontains⟩ | ⟨entry, hentry, hcontains⟩
  · exact .inl ⟨sent, hquiet.sent ▸ hsent, hcontains⟩
  · obtain ⟨kept, hkept, hkeeps⟩ := hquiet.keeps entry hentry
    exact .inr ⟨kept, hkept, format.contains_trans hkeeps hcontains⟩

/-- The entry leaves the queue because its own send succeeded. -/
def Delivered (s s' : Session U) (event : Event U) (entry : PendingUpdate U) : Prop :=
  ∃ i watchers, event = .resolved i ∧ s.flushes[i]? = some ⟨.sending entry, watchers⟩ ∧
    s'.sent = s.sent ++ [entry.update]

/-- What a step does with the queue: an entry is kept or delivered, and a new update joins. -/
structure Advances (format : UpdateFormat U) (s s' : Session U) (event : Event U) : Prop where
  keeps : ∀ entry ∈ s.pendingUpdates,
    (∃ kept ∈ s'.pendingUpdates, format.Contains kept.update entry.update) ∨
      Delivered s s' event entry
  sent : s.sent ⊆ s'.sent
  made : ∀ update ∈ s'.made, update ∈ s.made ∨
    ∃ kept ∈ s'.pendingUpdates, format.Contains kept.update update

theorem advances_of_quiet (h : Quiet format s s') :
    Advances format s s' event where
  keeps entry hentry := .inl (h.keeps entry hentry)
  sent := by
    rw [h.sent]
    exact List.Subset.refl _
  made update hupdate := .inl (h.made ▸ hupdate)

theorem quiet_trans {s'' : Session U} (h : Quiet format s s') (h' : Quiet format s' s'') :
    Quiet format s s'' :=
  ⟨keeps_trans h.keeps h'.keeps, h'.made.trans h.made, h'.sent.trans h.sent⟩

theorem quiet_of_eq (hpending : s'.pendingUpdates = s.pendingUpdates) (hmade : s'.made = s.made)
    (hsent : s'.sent = s.sent) : Quiet format s s' :=
  ⟨hpending ▸ keeps_of_subset (List.Subset.refl _), hmade, hsent⟩

variable [DecidableEq U]

theorem compactPending_cases (h : compactPending format options s = some s') :
    s' = s ∨ (s.pendingUpdates ≠ [] ∧ s'.pendingUpdates ≠ [] ∧ Quiet format s s' ∧
      s' = { s with
        nextPendingId := s'.nextPendingId, pendingUpdates := s'.pendingUpdates }) := by
  unfold compactPending at h
  dsimp only at h
  split at h
  · cases h
  split at h
  · exact .inl (Option.some.inj h).symm
  rename_i hnonempty
  cases h
  refine .inr ⟨fun hnil => hnonempty ?_, by simp, ⟨?_, rfl, rfl⟩, rfl⟩
  · rw [hnil]
    rfl
  intro entry hentry
  by_cases hflight : s.inFlight = some entry
  · exact ⟨entry, by simp [hflight], format.contains_refl _⟩
  · refine ⟨_, mem_append_right _ (mem_singleton_self _), ?_⟩
    apply format.contains_merge
    apply mem_map_of_mem
    exact mem_filter.mpr ⟨hentry, by simpa using hflight⟩

variable (format options) in
theorem compacted_cases (s : Session U) :
    let s' := (compactPending format options s).getD s
    s' = s ∨ (s.pendingUpdates ≠ [] ∧ s'.pendingUpdates ≠ [] ∧ Quiet format s s' ∧
      s' = { s with
        nextPendingId := s'.nextPendingId, pendingUpdates := s'.pendingUpdates }) := by
  cases h : compactPending format options s with
  | none => exact .inl rfl
  | some s' => exact compactPending_cases h

variable (format options)

theorem compacted_quiet (s : Session U) :
    Quiet format s ((compactPending format options s).getD s) := by
  rcases compacted_cases format options s with heq | ⟨-, -, hquiet, -⟩
  · rw [heq]
    exact quiet_refl
  · exact hquiet

omit [DecidableEq U] in
theorem flush_pending (s : Session U) (watchers : Nat) :
    (flush options s watchers).pendingUpdates = s.pendingUpdates ∧
      (flush options s watchers).made = s.made ∧ (flush options s watchers).sent = s.sent := by
  unfold flush
  split
  · exact ⟨rfl, rfl, rfl⟩
  · split
    · exact ⟨rfl, rfl, rfl⟩
    · exact ⟨rfl, rfl, rfl⟩
    · exact ⟨rfl, rfl, rfl⟩

omit [DecidableEq U] in
theorem flush_quiet (s : Session U) (watchers : Nat) :
    Quiet format s (flush options s watchers) := by
  obtain ⟨hpending, hmade, hsent⟩ := flush_pending options s watchers
  refine ⟨?_, hmade, hsent⟩
  rw [hpending]
  exact keeps_of_subset (List.Subset.refl _)

/-- The session of `queueLocalUpdate` once the update was pushed. -/
def pushed (s : Session U) (update : U) : Session U :=
  { s with
    nextPendingId := s.nextPendingId + 1
    pendingUpdates := s.pendingUpdates ++ [⟨s.nextPendingId + 1, update⟩]
    made := s.made ++ [update] }

theorem queueLocalUpdate_cases (s : Session U) (update : U) :
    ∃ compacted, (compacted = pushed s update ∨
        compacted = (compactPending format options (pushed s update)).getD (pushed s update)) ∧
      queueLocalUpdate format options s update =
        if compacted.online then flush options compacted 1 else compacted := by
  unfold queueLocalUpdate
  dsimp only
  split
  · exact ⟨_, .inr rfl, rfl⟩
  · exact ⟨_, .inl rfl, rfl⟩

theorem queueLocalUpdate_quiet (s : Session U) (update : U) :
    Quiet format (pushed s update) (queueLocalUpdate format options s update) := by
  obtain ⟨compacted, hcompacted, heq⟩ := queueLocalUpdate_cases format options s update
  have hfirst : Quiet format (pushed s update) compacted := by
    rcases hcompacted with rfl | rfl
    · exact quiet_refl
    · exact compacted_quiet format options _
  rw [heq]
  split
  · exact quiet_trans hfirst (flush_quiet format options compacted 1)
  · exact hfirst

theorem queueLocalUpdate_advances (s : Session U) (update : U) :
    Advances format s (queueLocalUpdate format options s update) (.localUpdate update) := by
  have hquiet := queueLocalUpdate_quiet format options s update
  refine ⟨fun entry hentry => .inl ?_, ?_, ?_⟩
  · exact hquiet.keeps entry (mem_append_left _ hentry)
  · rw [hquiet.sent]
    exact List.Subset.refl _
  intro other hother
  rw [hquiet.made] at hother
  rcases mem_append.mp hother with hold | hnew
  · exact .inl hold
  · cases mem_singleton.mp hnew
    exact .inr (hquiet.keeps _ (mem_append_right _ (mem_singleton_self _)))

omit [DecidableEq U] in
theorem setOnline_quiet (s : Session U) (value : Bool) :
    Quiet format s (setOnline options s value) := by
  unfold setOnline
  split
  · have honline : Quiet format s { s with online := true } := quiet_of_eq rfl rfl rfl
    exact quiet_trans honline (flush_quiet format options _ 0)
  · exact quiet_of_eq rfl rfl rfl

omit [DecidableEq U] in
theorem continueFlush_quiet (s : Session U) (i watchers : Nat) :
    Quiet format s (continueFlush s i watchers) := by
  unfold continueFlush
  split
  · exact quiet_of_eq rfl rfl rfl
  · exact quiet_of_eq rfl rfl rfl

theorem release_quiet (s : Session U) (entry : PendingUpdate U) :
    Quiet format s (release s entry) := by
  unfold release
  split
  · exact quiet_of_eq rfl rfl rfl
  · exact quiet_refl

theorem sendSucceeded_advances {entry : PendingUpdate U}
    (hflush : s.flushes[i]? = some ⟨.sending entry, watchers⟩) :
    Advances format s (sendSucceeded s i entry watchers) (.resolved i) := by
  let removed : Session U := { s with
    pendingUpdates := s.pendingUpdates.filter (· ≠ entry)
    sent := s.sent ++ [entry.update]
    lastFailed := false }
  have hquiet : Quiet format removed (sendSucceeded s i entry watchers) :=
    quiet_trans (release_quiet format removed entry) (continueFlush_quiet format _ i watchers)
  refine ⟨fun other hother => ?_, ?_, fun update hupdate => .inl (hquiet.made ▸ hupdate)⟩
  · by_cases hsame : other = entry
    · subst hsame
      exact .inr ⟨i, watchers, rfl, hflush, hquiet.sent⟩
    · exact .inl (hquiet.keeps other (mem_filter.mpr ⟨hother, by simpa using hsame⟩))
  · rw [hquiet.sent]
    exact subset_append_left _ _

theorem step_advances (h : step format options s event = some s') : Advances format s s' event := by
  cases event with
  | localUpdate update =>
    cases h
    exact queueLocalUpdate_advances format options s update
  | compact =>
    cases h
    exact advances_of_quiet (compacted_quiet format options s)
  | flush =>
    cases h
    exact advances_of_quiet (flush_quiet format options s 0)
  | setOnline value =>
    cases h
    exact advances_of_quiet (setOnline_quiet format options s value)
  | returned i | finish i | goOffline =>
    simp only [step] at h
    split at h
    · cases h
      exact advances_of_quiet (quiet_of_eq rfl rfl rfl)
    · cases h
  | resolved i =>
    simp only [step] at h
    split at h
    · rename_i hflush
      cases h
      exact sendSucceeded_advances format hflush
    · cases h
  | rejected i =>
    simp only [step] at h
    split at h
    · rename_i entry watchers hflush
      cases h
      have hfailed : Quiet format s { s with lastFailed := true } := quiet_of_eq rfl rfl rfl
      have hrelease := quiet_trans hfailed (release_quiet format _ entry)
      exact advances_of_quiet (quiet_trans hrelease (quiet_of_eq rfl rfl rfl))
    · cases h

omit [DecidableEq U] in
theorem covered_advances (hstep : Advances format s s' event) (h : Covered format s) :
    Covered format s' := by
  intro update hupdate
  rcases hstep.made update hupdate with hold | hnew
  · rcases h update hold with ⟨sent, hsent, hcontains⟩ | ⟨entry, hentry, hcontains⟩
    · exact .inl ⟨sent, hstep.sent hsent, hcontains⟩
    rcases hstep.keeps entry hentry with ⟨kept, hkept, hkeeps⟩ | ⟨i, watchers, -, -, hsent⟩
    · exact .inr ⟨kept, hkept, format.contains_trans hkeeps hcontains⟩
    · refine .inl ⟨entry.update, ?_, hcontains⟩
      rw [hsent]
      exact mem_append_right _ (mem_singleton_self _)
  · exact .inr hnew

omit [DecidableEq U] in
theorem created_covered (online : Bool) (initial : U) :
    Covered format (created options online initial) := by
  have hqueued : Covered format
      (⟨online, 1, [⟨1, initial⟩], none, none, [], 0, [initial], [], false⟩ : Session U) := by
    intro update hupdate
    cases mem_singleton.mp hupdate
    exact .inr ⟨_, mem_singleton_self _, format.contains_refl _⟩
  unfold created
  split
  · split
    · exact covered_quiet (flush_quiet format options _ 1) hqueued
    · exact hqueued
  · exact nofun

end Delivery

section Draining

variable {options : Options} {s s' : Session U}

/-- A flush is calling or awaiting `sendUpdate`. -/
def Session.flushRunning (s : Session U) : Bool := s.flushes.any fun flush => flush.phase.running

/-- An online session that flushes nothing after a send that did not fail has nothing to send. -/
def Drained (s : Session U) : Prop :=
  s.online = true → s.lastFailed = false → s.flushRunning = false → s.pendingUpdates = []

/-- The promise of a flush that was left is still in the way of the next one. -/
def Session.blocked (s : Session U) : Bool :=
  s.flushing.isSome && !s.flushRunning && !s.lastFailed

/-- The flush that a local update or the way back online asks for is not blocked. -/
def Timely (s : Session U) : Event U → Bool
  | .localUpdate _ => !s.online || !s.blocked
  | .setOnline true => s.pendingUpdates.isEmpty || !s.blocked
  | _ => true

theorem flush_online (options : Options) (s : Session U) (watchers : Nat) :
    (flush options s watchers).online = s.online ∧
      (flush options s watchers).lastFailed = s.lastFailed := by
  unfold flush
  split
  · exact ⟨rfl, rfl⟩
  · split
    · exact ⟨rfl, rfl⟩
    · exact ⟨rfl, rfl⟩
    · exact ⟨rfl, rfl⟩

theorem modify_running (flushes : List (Flush U)) (i : Nat) (change : Flush U → Flush U)
    (hphase : ∀ running, (change running).phase = running.phase) :
    (flushes.modify i change).any (fun flush => flush.phase.running) =
      flushes.any fun flush => flush.phase.running := by
  induction flushes generalizing i with
  | nil => cases i <;> rfl
  | cons first rest ih =>
    cases i with
    | zero => simp [modify_zero_cons, hphase]
    | succ i =>
      rw [modify_succ_cons, any_cons, any_cons, ih]

theorem flush_running (s : Session U) (watchers : Nat) (hsend : options.sendUpdate = true)
    (honline : s.online = true) (hfree : s.flushing = none ∨ s.flushRunning = true) :
    s.pendingUpdates = [] ∨ (flush options s watchers).flushRunning = true := by
  unfold flush
  rw [honline, hsend]
  split
  · contradiction
  split
  · rename_i hpending
    exact .inl hpending
  · rename_i hflushing _
    rcases hfree with hnone | hrunning
    · cases hflushing.symm.trans hnone
    · refine .inr ?_
      rw [← hrunning]
      exact modify_running _ _ _ fun _ => rfl
  · exact .inr (by simp [Session.flushRunning, FlushPhase.running])

theorem flush_drained (s : Session U) (watchers : Nat) (hsend : options.sendUpdate = true)
    (hfree : s.online = true → s.lastFailed = false → s.pendingUpdates ≠ [] →
      s.flushing = none ∨ s.flushRunning = true) :
    Drained (flush options s watchers) := by
  obtain ⟨honlineEq, hfailedEq⟩ := flush_online options s watchers
  obtain ⟨hpendingEq, -, -⟩ := flush_pending options s watchers
  intro honline hfailed hidle
  rw [honlineEq] at honline
  rw [hfailedEq] at hfailed
  rw [hpendingEq]
  by_cases hpending : s.pendingUpdates = []
  · exact hpending
  · rcases flush_running s watchers hsend honline (hfree honline hfailed hpending) with
      hnil | hrunning
    · exact hnil
    · cases hidle.symm.trans hrunning

theorem free_of_not_blocked (h : s.blocked = false) (hfailed : s.lastFailed = false) :
    s.flushing = none ∨ s.flushRunning = true := by
  rw [Session.blocked, hfailed] at h
  cases hflushing : s.flushing with
  | none => exact .inl rfl
  | some i =>
    rw [hflushing] at h
    exact .inr (by simpa using h)

theorem setFlush_running {before after : Flush U} (hflush : s.flushes[i]? = some before)
    (hafter : after.phase.running = true) : (setFlush s i after).flushRunning = true :=
  any_eq_true.mpr ⟨after, List.mem_set (List.getElem?_eq_some_iff.mp hflush).1 after, hafter⟩

theorem running_of_setFlush {before after : Flush U} (hflush : s.flushes[i]? = some before)
    (hbefore : before.phase.running = false) (hrunning : s.flushRunning = true) :
    (setFlush s i after).flushRunning = true := by
  obtain ⟨other, hother, hphase⟩ := any_eq_true.mp hrunning
  obtain ⟨j, hj⟩ := mem_iff_getElem?.mp hother
  have hne : i ≠ j := by
    rintro rfl
    cases hflush.symm.trans hj
    cases hbefore.symm.trans hphase
  apply any_eq_true.mpr
  refine ⟨other, mem_iff_getElem?.mpr ⟨j, ?_⟩, hphase⟩
  show (s.flushes.set i after)[j]? = some other
  rwa [getElem?_set_ne hne]

theorem continueFlush_drained (hi : i < s.flushes.length) :
    Drained (continueFlush s i watchers) := by
  unfold continueFlush
  split
  · rename_i entry _ _ _
    intro _ _ hidle
    have hrunning : (setFlush s i ⟨.sending entry, watchers⟩).flushRunning = true :=
      any_eq_true.mpr ⟨_, List.mem_set hi ⟨.sending entry, watchers⟩, rfl⟩
    cases hidle.symm.trans hrunning
  · rename_i hstop
    intro honline _ _
    have honline : s.online = true := honline
    show s.pendingUpdates = []
    cases hpending : s.pendingUpdates with
    | nil => rfl
    | cons entry rest => exact (hstop entry rest honline hpending).elim

theorem created_drained (online : Bool) (initial : U) (hsend : options.sendUpdate = true) :
    Drained (created options online initial) := by
  unfold created
  rw [if_pos hsend]
  split
  · exact flush_drained _ 1 hsend fun _ _ _ => .inl rfl
  · rename_i hoffline
    exact fun honline => (hoffline honline).elim

variable [DecidableEq U] {format : UpdateFormat U}

theorem compacted_status (format : UpdateFormat U) (options : Options) (s : Session U) :
    let s' := (compactPending format options s).getD s
    s'.online = s.online ∧ s'.lastFailed = s.lastFailed ∧ s'.flushing = s.flushing ∧
      s'.flushes = s.flushes := by
  rcases compacted_cases format options s with heq | ⟨-, -, -, heq⟩
  · rw [heq]
    exact ⟨rfl, rfl, rfl, rfl⟩
  · rw [heq]
    exact ⟨rfl, rfl, rfl, rfl⟩

theorem compacted_drained (h : Drained s) : Drained ((compactPending format options s).getD s) := by
  obtain ⟨honlineEq, hfailedEq, -, hflushesEq⟩ := compacted_status format options s
  intro honline hfailed hidle
  have hempty : s.pendingUpdates = [] := by
    apply h (honlineEq ▸ honline) (hfailedEq ▸ hfailed)
    rw [← hidle]
    exact congrArg (List.any · _) hflushesEq.symm
  rcases compacted_cases format options s with heq | ⟨hpending, -⟩
  · rwa [heq]
  · exact (hpending hempty).elim

theorem queueLocalUpdate_drained {update : U} (hsend : options.sendUpdate = true)
    (hfree : s.online = true → s.lastFailed = false → s.flushing = none ∨ s.flushRunning = true) :
    Drained (queueLocalUpdate format options s update) := by
  obtain ⟨compacted, hcompacted, heq⟩ := queueLocalUpdate_cases format options s update
  have hstatus : compacted.online = s.online ∧ compacted.lastFailed = s.lastFailed ∧
      compacted.flushing = s.flushing ∧ compacted.flushes = s.flushes := by
    rcases hcompacted with rfl | rfl
    · exact ⟨rfl, rfl, rfl, rfl⟩
    · exact compacted_status format options (pushed s update)
  obtain ⟨honlineEq, hfailedEq, hflushingEq, hflushesEq⟩ := hstatus
  rw [heq]
  split
  · apply flush_drained compacted 1 hsend
    intro honline hfailed _
    rw [hflushingEq, Session.flushRunning, hflushesEq]
    exact hfree (honlineEq ▸ honline) (hfailedEq ▸ hfailed)
  · rename_i hoffline
    intro honline
    exact (hoffline honline).elim

theorem release_status (s : Session U) (entry : PendingUpdate U) :
    (release s entry).lastFailed = s.lastFailed ∧ (release s entry).flushes = s.flushes := by
  unfold release
  split
  · exact ⟨rfl, rfl⟩
  · exact ⟨rfl, rfl⟩

theorem step_drained (hsend : options.sendUpdate = true) (htimely : Timely s event = true)
    (h : step format options s event = some s') (hdrained : Drained s) : Drained s' := by
  cases event with
  | localUpdate update =>
    cases h
    apply queueLocalUpdate_drained hsend
    intro honline hfailed
    have hblocked : s.blocked = false := by simpa [Timely, honline] using htimely
    exact free_of_not_blocked hblocked hfailed
  | compact =>
    cases h
    exact compacted_drained hdrained
  | flush =>
    cases h
    apply flush_drained s 0 hsend
    intro honline hfailed hpending
    cases hrunning : s.flushRunning with
    | false => exact (hpending (hdrained honline hfailed hrunning)).elim
    | true => exact .inr rfl
  | setOnline value =>
    cases h
    cases value with
    | false => exact fun honline => nomatch honline
    | true =>
      apply flush_drained _ 0 hsend
      intro _ hfailed hpending
      have hblocked : s.blocked = false := by simpa [Timely, hpending] using htimely
      exact free_of_not_blocked hblocked hfailed
  | returned i =>
    simp only [step] at h
    split at h
    · rename_i entry watchers hflush
      cases h
      have hrunning : (setFlush s i ⟨.sending entry, watchers⟩).flushRunning = true :=
        setFlush_running hflush rfl
      intro _ _ hidle
      cases hidle.symm.trans hrunning
    · cases h
  | resolved i =>
    simp only [step] at h
    split at h
    · rename_i hflush
      cases h
      apply continueFlush_drained
      rw [(release_status _ _).2]
      exact (List.getElem?_eq_some_iff.mp hflush).1
    · cases h
  | rejected i =>
    simp only [step] at h
    split at h
    · rename_i entry watchers hflush
      cases h
      have hlast : (release { s with lastFailed := true } entry).lastFailed = true :=
        (release_status _ entry).1
      intro _ hfailed
      cases hlast.symm.trans hfailed
    · cases h
  | finish i =>
    simp only [step] at h
    split at h
    · rename_i failed watchers hflush
      cases h
      intro honline hfailed hidle
      apply hdrained honline hfailed
      cases hrunning : s.flushRunning with
      | false => rfl
      | true => cases hidle.symm.trans (running_of_setFlush hflush rfl hrunning)
    · cases h
  | goOffline =>
    simp only [step] at h
    split at h
    · cases h
      exact fun honline => nomatch honline
    · cases h

theorem run_drained {events : List (Event U)} (hsend : options.sendUpdate = true)
    (hdrained : Drained s)
    (htimely : Guarded (step format options) (fun s event => Timely s event = true) s events)
    (hrun : run (step format options) s events = some s') : Drained s' :=
  guarded_run_invariant (step format options)
    (fun _ _ _ h htimely hstep => step_drained hsend htimely hstep h) hdrained htimely hrun

/-- In every run no local update is lost and an entry leaves the queue by its own send; in a run
without a blocked flush the session also drains. -/
theorem outbox_delivers (format : UpdateFormat U) (options : Options) (online : Bool) (initial : U)
    (events : List (Event U))
    (hrun : run (step format options) (created options online initial) events = some s) :
    Covered format s ∧
      (∀ event s', step format options s event = some s' → ∀ entry ∈ s.pendingUpdates,
        (∃ kept ∈ s'.pendingUpdates, format.Contains kept.update entry.update) ∨
          Delivered s s' event entry) ∧
      (options.sendUpdate = true →
        Guarded (step format options) (fun s event => Timely s event = true)
          (created options online initial) events → Drained s) := by
  have hcovered : Covered format s :=
    run_invariant (step format options)
      (fun _ _ _ h hstep => covered_advances format (step_advances format options hstep) h)
      (created_covered format options online initial) hrun
  refine ⟨hcovered, ?_, ?_⟩
  · intro event s' hstep
    exact (step_advances format options hstep).keeps
  · intro hsend htimely
    exact run_drained hsend (created_drained online initial hsend) htimely hrun

/-- Updates as lists of edits. -/
def edits : UpdateFormat (List Nat) where
  mergeUpdates := List.flatten
  byteLength := List.length
  Contains whole part := part ⊆ whole
  contains_refl _ := List.Subset.refl _
  contains_trans h h' := List.Subset.trans h' h
  contains_merge hmem _ hedit := List.mem_flatten.mpr ⟨_, hmem, hedit⟩

def transport : Options := ⟨100, 4, true⟩

/-- A send fails while two edits are compacted behind it, and the session comes back online. -/
def reconnecting : List (Event (List Nat)) :=
  [.returned 0, .localUpdate [2, 3], .localUpdate [4, 5], .rejected 0, .finish 0, .goOffline,
    .setOnline true, .returned 1, .resolved 1, .resolved 1, .finish 1]

theorem reconnecting_delivers : ∃ s, run (step edits transport)
    (created transport true [1]) reconnecting = some s ∧ Covered edits s ∧ Drained s := by
  obtain ⟨s, hrun⟩ := Option.isSome_iff_exists.mp
    (show (run (step edits transport) (created transport true [1]) reconnecting).isSome = true by
      decide +kernel)
  have htimely : Guarded (step edits transport) (fun s event => Timely s event = true)
      (created transport true [1]) reconnecting := by decide +kernel
  obtain ⟨hcovered, -, hdrained⟩ := outbox_delivers edits transport true [1] reconnecting hrun
  exact ⟨s, hrun, hcovered, hdrained rfl htimely⟩

/-- An edit is made when the flush has left its loop and its promise is not cleared. -/
def editAfterLoop : List (Event (List Nat)) :=
  [.returned 0, .resolved 0, .localUpdate [2], .finish 0]

theorem editAfterLoop_strands :
    ¬∀ s, run (step edits transport) (created transport true [1]) editAfterLoop = some s →
      Drained s := by
  intro h
  have hstranded : (run (step edits transport) (created transport true [1]) editAfterLoop).any
      (fun s => s.online && !s.lastFailed && !s.flushRunning && !s.pendingUpdates.isEmpty) =
        true := by
    decide +kernel
  obtain ⟨s, hrun, hs⟩ := (Option.any_eq_true _ _).mp hstranded
  have hdrained := h s hrun
  simp only [Bool.and_eq_true, Bool.not_eq_true', isEmpty_eq_false_iff] at hs
  obtain ⟨⟨⟨honline, hfailed⟩, hidle⟩, hpending⟩ := hs
  exact hpending (hdrained honline hfailed hidle)

end Draining

end SuperFunctions.Mdfn.Outbox
