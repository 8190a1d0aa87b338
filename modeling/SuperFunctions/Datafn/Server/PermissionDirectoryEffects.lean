import SuperFunctions.Datafn.Server.PermissionDirectory

/-!
# Effects on the permission directory

What one event of a process can do to the row of a grant, its directory entry and the outbox, as
long as a write that leaves the row and the entry different leaves a task behind that nobody is
about to remove.
-/
namespace SuperFunctions.Datafn.Server.PermissionDirectoryEffects

open Lib.OrderedMap PermissionDirectory Option

variable {Grant : Type}

/-! ## Tasks of a process -/

/-- The task of a mutation that may still write the row or the entry itself. -/
def holds : Proc Grant → Option Nat
  | .sharing task _ _ => some task
  | .snapshotted task _ _ _ => some task
  | .shared task _ _ _ => some task
  | .unsharing task _ _ => some task
  | .found task _ _ _ => some task
  | .invalidated task _ _ _ => some task
  | .restoring task _ _ _ => some task
  | .compensating task _ _ _ _ => some task
  | _ => none

/-- The tasks a process knows. -/
def refs : Proc Grant → List Nat
  | .starting _ _ => []
  | .sharing task _ _ => [task]
  | .snapshotted task _ _ _ => [task]
  | .shared task _ _ _ => [task]
  | .unsharing task _ _ => [task]
  | .found task _ _ _ => [task]
  | .invalidated task _ _ _ => [task]
  | .restoring task _ _ _ => [task]
  | .compensating task _ _ _ _ => [task]
  | .compensatingInTransaction _ => []
  | .discarding task _ => [task]
  | .deferring task _ _ _ => [task]
  | .fencing task replacement => [task, replacement]
  | .releasing task _ _ => [task]
  | .requeueing => []
  | .fetching task _ _ => [task]
  | .restoringTask task _ _ _ _ => [task]
  | .draining task _ _ _ => [task]

section
variable [DecidableEq Grant]

/-- Whether the reconciliation ends without another write to the entry if the row stays. -/
def written (row : Option Grant) : Sync Grant → Bool
  | .verify grant _ => row = some grant
  | .settle current _ => row = current
  | .finished => true
  | _ => false

/-- Whether the process goes on to remove the task without another write to the entry, or may. -/
def blocks (row : Option Grant) (p : Proc Grant) (T : Nat) : Bool :=
  match p with
  | .sharing task _ _ => task = T
  | .compensating task _ _ _ sync => task = T ∧ written row sync
  | .discarding task _ => task = T
  | .fencing task _ => task = T
  | .draining task _ _ sync => task = T ∧ written row sync
  | _ => false

end

theorem refs_withLease (l : Nat) (p : Proc Grant) : refs (withLease l p) = refs p := by
  cases p <;> rfl

theorem holds_withLease (l : Nat) (p : Proc Grant) : holds (withLease l p) = holds p := by
  cases p <;> rfl

/-- The task is in the outbox, and no other process knows it. -/
def Owns (s : State Grant) (id task : Nat) : Prop :=
  (s.store.outbox.get task).isSome = true ∧ ∀ e ∈ s.procs.entries, e.1 ≠ id → task ∉ refs e.2

instance (s : State Grant) (id task : Nat) : Decidable (Owns s id task) := by
  unfold Owns
  infer_instance

variable {s : State Grant} {row : Option Grant} {task id : Nat}

section
variable [DecidableEq Grant]

theorem blocks_withLease (row : Option Grant) (l : Nat) (p : Proc Grant) (T : Nat) :
    blocks row (withLease l p) T = blocks row p T := by
  cases p <;> rfl

theorem refs_of_blocks {p : Proc Grant} {T : Nat} (h : blocks row p T = true) : T ∈ refs p := by
  cases p <;> simp_all [blocks, refs]

/-! ## Careful steps -/

/-- The task is in the outbox, and no process blocks it. -/
def Responsible (s : State Grant) (T : Nat) : Prop :=
  (s.store.outbox.get T).isSome = true ∧ ∀ p ∈ s.procs.values, blocks s.store.row p T = false

/-- Once the row is as given and the process has moved on, some task is still to be worked on. -/
def Backed (s : State Grant) (id : Nat) (row : Option Grant) (q : Proc Grant) : Prop :=
  ∃ T ∈ s.store.outbox.keys,
    blocks row q T = false ∧ ∀ e ∈ s.procs.entries, e.1 ≠ id → blocks row e.2 T = false

instance (s : State Grant) (id : Nat) (row : Option Grant) (q : Proc Grant) :
    Decidable (Backed s id row q) := by
  unfold Backed
  infer_instance

theorem blocks_of_not_refs {p : Proc Grant} {T : Nat} (h : T ∉ refs p) :
    blocks row p T = false := by
  cases hblocks : blocks row p T with
  | false => rfl
  | true => exact absurd (refs_of_blocks hblocks) h

theorem backed_of_owns {q : Proc Grant} (howns : Owns s id task) (hq : blocks row q task = false) :
    Backed s id row q :=
  ⟨task, (OMap.mem_keys_iff_get _ _).mpr howns.1, hq,
    fun e he hne => blocks_of_not_refs (howns.2 e he hne)⟩

/-- Row and entry agree once they are as given, or a task is still to be worked on. -/
def CarefulWrite (s : State Grant) (id : Nat) (row directory : Option Grant) (q : Proc Grant) :
    Prop :=
  directory = row ∨ Backed s id row q

instance (s : State Grant) (id : Nat) (row directory : Option Grant) (q : Proc Grant) :
    Decidable (CarefulWrite s id row directory q) := by
  unfold CarefulWrite
  infer_instance

/-- The condition on a write of a reconciliation by the process `work`. -/
def CarefulSync (s : State Grant) (id : Nat) (work : Sync Grant → Proc Grant) : Sync Grant → Prop
  | .remove => CarefulWrite s id s.store.row none (work .finished)
  | .index grant attempt =>
    CarefulWrite s id s.store.row (some grant) (work (.verify grant attempt))
  | .removeRevoked => CarefulWrite s id s.store.row none (work .finished)
  | .write current attempt => CarefulWrite s id s.store.row current (work (.settle current attempt))
  | _ => True

instance (s : State Grant) (id : Nat) (work : Sync Grant → Proc Grant) (sync : Sync Grant) :
    Decidable (CarefulSync s id work sync) := by
  unfold CarefulSync
  split <;> infer_instance

/-- The condition on an event of a process. A mutation that owns its task may write anything. -/
def CarefulEvent (s : State Grant) (id : Nat) : Proc Grant → Event → Prop
  | .snapshotted task l grant prior, .writeGrant =>
    Owns s id task ∨ CarefulWrite s id (some grant) s.store.directory (.shared task l grant prior)
  | .found task l transactional existing, .invalidate =>
    Owns s id task ∨ CarefulWrite s id s.store.row none (.invalidated task l transactional existing)
  | .invalidated task l _ true, .removeGrant rethrow =>
    Owns s id task ∨ CarefulWrite s id none s.store.directory (.releasing task l rethrow)
  | .restoring task l expected prior, .restore =>
    Owns s id task ∨ CarefulWrite s id (restoreRow s.store expected prior).row s.store.directory
      (.compensating task l expected prior (.read 0))
  | .restoringTask task claim ofMutation expected prior, .restore =>
    CarefulWrite s id (restoreRow s.store expected prior).row s.store.directory
      (.draining task claim ofMutation (.read 0))
  | .shared task l _ _, .inheritanceFails =>
    CarefulWrite s id s.store.row s.store.directory (.discarding task l)
  | .compensating task l expected prior sync, .syncStep =>
    CarefulSync s id (.compensating task l expected prior) sync
  | .compensatingInTransaction sync, .syncStep => CarefulSync s id .compensatingInTransaction sync
  | .draining task claim ofMutation sync, .syncStep =>
    CarefulSync s id (.draining task claim ofMutation) sync
  | _, _ => True

instance (s : State Grant) (id : Nat) (p : Proc Grant) (e : Event) :
    Decidable (CarefulEvent s id p e) := by
  unfold CarefulEvent
  split <;> infer_instance

def Careful (s : State Grant) : Action Grant → Prop
  | .event id e => ∀ p ∈ s.procs.get id, CarefulEvent s id p e
  | _ => True

instance (s : State Grant) (a : Action Grant) : Decidable (Careful s a) := by
  unfold Careful
  split <;> infer_instance

end

/-! ## What an event does -/

/-- The process keeps to the tasks it knew. -/
structure Follows (p : Proc Grant) (p' : Option (Proc Grant)) : Prop where
  refs : ∀ q, p' = some q → refs q ⊆ refs p
  holds : ∀ q, p' = some q → ∀ T, holds q = some T → holds p = some T

/-- The tasks in the outbox are the same, if not their contents. -/
structure SameTasks (st st' : Store Grant) : Prop where
  nextTask : st'.nextTask = st.nextTask
  outbox : ∀ T, (st'.outbox.get T).isSome = (st.outbox.get T).isSome

/-- There is one more task. -/
structure OneMore (st st' : Store Grant) : Prop where
  nextTask : st'.nextTask = st.nextTask + 1
  outbox : ∀ T, (st'.outbox.get T).isSome = ((st.outbox.get T).isSome || decide (T = st.nextTask))

/-- One task is gone. -/
structure OneLess (st st' : Store Grant) (task : Nat) : Prop where
  nextTask : st'.nextTask = st.nextTask
  outbox : ∀ T, (st'.outbox.get T).isSome = ((st.outbox.get T).isSome && decide (T ≠ task))

theorem SameTasks.refl (st : Store Grant) : SameTasks st st := ⟨rfl, fun _ => rfl⟩

theorem sameTasks_setTask {st : Store Grant} (t : OutboxTask Grant)
    (h : (st.outbox.get task).isSome = true) : SameTasks st (st.setTask task t) := by
  refine ⟨rfl, fun T => ?_⟩
  rw [Store.setTask, OMap.get_set]
  split_ifs with hT
  · rw [hT, h]
    rfl
  · rfl

theorem isSome_of_matching {st : Store Grant} {claim : Option Nat} {t : OutboxTask Grant}
    (h : st.matching task claim = some t) : (st.outbox.get task).isSome = true := by
  obtain ⟨hget, -⟩ := filter_eq_some_iff.mp h
  rw [hget]
  rfl

theorem sameTasks_reschedule (st : Store Grant) (task : Nat) (claim : Option Nat) (at' : Nat) :
    SameTasks st (st.reschedule task claim at') := by
  unfold Store.reschedule
  split
  · next t ht => exact sameTasks_setTask _ (isSome_of_matching ht)
  · exact SameTasks.refl st

theorem reschedule_row (st : Store Grant) (task : Nat) (claim : Option Nat) (at' : Nat) :
    (st.reschedule task claim at').row = st.row := by
  unfold Store.reschedule
  split <;> rfl

theorem reschedule_directory (st : Store Grant) (task : Nat) (claim : Option Nat) (at' : Nat) :
    (st.reschedule task claim at').directory = st.directory := by
  unfold Store.reschedule
  split <;> rfl

theorem oneMore_enqueue (st : Store Grant) (at' : Nat) (work : Work Grant) :
    OneMore st (st.enqueue at' work) := by
  refine ⟨rfl, fun T => ?_⟩
  rw [Store.enqueue, OMap.get_set]
  split_ifs with hT
  · simp [hT]
  · simp [hT]

theorem SameTasks.oneMore {st st' : Store Grant} (h : SameTasks st st') (at' : Nat)
    (work : Work Grant) : OneMore st (st'.enqueue at' work) := by
  refine ⟨?_, fun T => ?_⟩
  · rw [← h.nextTask]
    rfl
  · rw [(oneMore_enqueue st' at' work).outbox, h.outbox, h.nextTask]

theorem oneLess_deleteTask (st : Store Grant) (task : Nat) :
    OneLess st (st.deleteTask task) task := by
  refine ⟨rfl, fun T => ?_⟩
  rw [Store.deleteTask, OMap.get_delete]
  split_ifs with hT
  · simp [hT]
  · simp [hT]

theorem follows_none (p : Proc Grant) : Follows p none where
  refs _ h := by cases h
  holds _ h := by cases h

theorem follows_some {p q : Proc Grant} (hrefs : refs q ⊆ refs p := by simp [refs])
    (hholds : ∀ T, holds q = some T → holds p = some T := by simp [holds]) :
    Follows p (some q) where
  refs _ h := by
    cases h
    exact hrefs
  holds _ h := by
    cases h
    exact hholds

variable {p' : Option (Proc Grant)}

theorem follows_unless {p : Proc Grant} (rethrow : Bool) (h : Follows p p') :
    Follows p (if rethrow then none else p') := by
  split_ifs
  · exact follows_none p
  · exact h

section
variable [DecidableEq Grant]

def BlocksNoMore (row : Option Grant) (p : Proc Grant) (p' : Option (Proc Grant)) : Prop :=
  ∀ q, p' = some q → ∀ T, blocks row q T = true → blocks row p T = true

/-- The ways in which an event can change the row, the entry and the outbox. -/
inductive Effect (backed : Option Grant → Proc Grant → Prop) (st : Store Grant) (p : Proc Grant) :
    Store Grant → Option (Proc Grant) → Prop
  | quiet {st' p'} (hrow : st'.row = st.row) (hdirectory : st'.directory = st.directory)
      (htasks : SameTasks st st') (hfollows : Follows p p') (hblocks : BlocksNoMore st.row p p') :
      Effect backed st p st' p'
  | enqueued {st' q} (hrow : st'.row = st.row) (hdirectory : st'.directory = st.directory)
      (htasks : OneMore st st') (hrefs : refs q = [st.nextTask]) :
      Effect backed st p st' (some q)
  | replaced {st' q} (htasks : OneMore st st')
      (hrefs : ∀ T ∈ refs q, T ∈ refs p ∨ T = st.nextTask) (hholds : holds q = none)
      (hblocks : blocks st'.row q st.nextTask = false) : Effect backed st p st' (some q)
  | wrote {st' q} (hbacked : st'.directory = st'.row ∨ backed st'.row q)
      (htasks : SameTasks st st') (hfollows : Follows p (some q)) : Effect backed st p st' (some q)
  | dropped {st' p' T} (hrow : st'.row = st.row) (hdirectory : st'.directory = st.directory)
      (hblocked : blocks st.row p T = true) (hholds : holds p = none) (htasks : OneLess st st' T)
      (hfollows : Follows p p') (hblocks : ∀ q, p' = some q → ∀ T, blocks st.row q T = false) :
      Effect backed st p st' p'

theorem blocksNoMore_none (row : Option Grant) (p : Proc Grant) : BlocksNoMore row p none := by
  exact nofun

theorem blocksNoMore_some {p q : Proc Grant}
    (h : ∀ T, blocks row q T = true → blocks row p T = true) : BlocksNoMore row p (some q) := by
  intro q' hq
  cases hq
  exact h

theorem blocksNoMore_unless {p : Proc Grant} (rethrow : Bool) (h : BlocksNoMore row p p') :
    BlocksNoMore row p (if rethrow then none else p') := by
  split_ifs
  · exact blocksNoMore_none row p
  · exact h

section
variable {backed : Option Grant → Proc Grant → Prop} {st : Store Grant} {p q : Proc Grant}

theorem effect_move (hrefs : refs q ⊆ refs p := by simp [refs])
    (hholds : ∀ T, holds q = some T → holds p = some T := by simp [holds])
    (hblocks : ∀ T, blocks st.row q T = true → blocks st.row p T = true := by simp [blocks]) :
    Effect backed st p st (some q) :=
  .quiet rfl rfl (SameTasks.refl st) (follows_some hrefs hholds) (blocksNoMore_some hblocks)

theorem effect_end : Effect backed st p st none :=
  .quiet rfl rfl (SameTasks.refl st) (follows_none p) (blocksNoMore_none st.row p)

theorem effect_renew {claim : Option Nat} {at' l : Nat} (hq : q = withLease l p ∨ q = p) :
    Effect backed st p (st.reschedule task claim at') (some q) := by
  have hrefs : refs q = refs p := by
    rcases hq with h | h
    · rw [h, refs_withLease]
    · rw [h]
  have hholds : holds q = holds p := by
    rcases hq with h | h
    · rw [h, holds_withLease]
    · rw [h]
  have hblocks : ∀ T, blocks st.row q T = blocks st.row p T := by
    intro T
    rcases hq with h | h
    · rw [h, blocks_withLease]
    · rw [h]
  refine .quiet (reschedule_row st task claim at') (reschedule_directory st task claim at')
    (sameTasks_reschedule st task claim at') (follows_some ?_ ?_) (blocksNoMore_some ?_)
  · rw [hrefs]
    exact List.Subset.refl _
  · intro T hT
    rw [← hholds, hT]
  · intro T hT
    rw [← hblocks, hT]

theorem effect_delete (hblocked : blocks st.row p task = true) (hholds : holds p = none)
    (hfollows : Follows p p') (hblocks : ∀ q, p' = some q → ∀ T, blocks st.row q T = false) :
    Effect backed st p (st.deleteTask task) p' :=
  .dropped rfl rfl hblocked hholds (oneLess_deleteTask st task) hfollows hblocks

end

/-- A step of a reconciliation is a careful write, or it leaves the store as it is and is done
only if there is nothing to write. -/
theorem perform_spec {work : Sync Grant → Proc Grant} {sync : Sync Grant}
    {next : Store Grant × Sync Grant} (h : perform s.store sync = some next)
    (hcareful : CarefulSync s id work sync) : SameTasks s.store next.1 ∧
      (CarefulWrite s id next.1.row next.1.directory (work next.2) ∨
        next.1 = s.store ∧
          (written s.store.row next.2 = true → written s.store.row sync = true)) := by
  cases sync with
  | lookup =>
    rw [perform] at h
    split at h <;>
      · cases h
        exact ⟨SameTasks.refl s.store, Or.inr ⟨rfl, by simp [written]⟩⟩
  | remove | index grant attempt | removeRevoked | write current attempt =>
    cases h
    exact ⟨⟨rfl, fun _ => rfl⟩, Or.inl hcareful⟩
  | verify grant attempt =>
    rw [perform] at h
    split at h
    · cases h
      exact ⟨SameTasks.refl s.store, Or.inr ⟨rfl, by simp [written]⟩⟩
    next current hrow =>
    split_ifs at h with hcurrent
    · cases h
      exact ⟨SameTasks.refl s.store, Or.inr ⟨rfl, by simp [written, hrow, hcurrent]⟩⟩
    · cases h
      exact ⟨SameTasks.refl s.store, Or.inr ⟨rfl, by simp [written]⟩⟩
    · cases h
      exact ⟨SameTasks.refl s.store, Or.inr ⟨rfl, by simp [written]⟩⟩
  | read attempt =>
    cases h
    exact ⟨SameTasks.refl s.store, Or.inr ⟨rfl, by simp [written]⟩⟩
  | settle current attempt =>
    rw [perform] at h
    split_ifs at h with hcurrent
    · cases h
      exact ⟨SameTasks.refl s.store, Or.inr ⟨rfl, by simp [written, hcurrent]⟩⟩
    · cases h
      exact ⟨SameTasks.refl s.store, Or.inr ⟨rfl, by simp [written]⟩⟩
    · cases h
      exact ⟨SameTasks.refl s.store, Or.inr ⟨rfl, by simp [written]⟩⟩
  | finished => cases h
  | failed => cases h

theorem effect_perform {work : Sync Grant → Proc Grant} {sync : Sync Grant}
    {next : Store Grant × Sync Grant} (h : perform s.store sync = some next)
    (hcareful : CarefulSync s id work sync) (hfollows : Follows (work sync) (some (work next.2)))
    (hblocks : (written s.store.row next.2 = true → written s.store.row sync = true) →
      BlocksNoMore s.store.row (work sync) (some (work next.2))) :
    Effect (Backed s id) s.store (work sync) next.1 (some (work next.2)) := by
  obtain ⟨htasks, hbacked | ⟨hstay, hwritten⟩⟩ := perform_spec h hcareful
  · exact .wrote hbacked htasks hfollows
  · exact .quiet (by rw [hstay]) (by rw [hstay]) htasks hfollows (hblocks hwritten)

theorem carefulWrite_of_owns {directory : Option Grant} {q : Proc Grant}
    (h : Owns s id task ∨ CarefulWrite s id row directory q) (hq : blocks row q task = false) :
    CarefulWrite s id row directory q := by
  rcases h with howns | hcareful
  · exact Or.inr (backed_of_owns howns hq)
  · exact hcareful

theorem sameTasks_restoreRow (st : Store Grant) (expected : Grant) (prior : Option Grant) :
    SameTasks st (restoreRow st expected prior) := by
  unfold restoreRow
  split_ifs
  · exact ⟨rfl, fun _ => rfl⟩
  · exact SameTasks.refl st

theorem directory_restoreRow (st : Store Grant) (expected : Grant) (prior : Option Grant) :
    (restoreRow st expected prior).directory = st.directory := by
  unfold restoreRow
  split_ifs <;> rfl

omit [DecidableEq Grant] in
theorem sameTasks_updated (store : Store Grant) (task l : Nat) (applied : Bool)
    (t : OutboxTask Grant) :
    SameTasks store (match store.matching task (some l) with
      | some _ => if applied then store.setTask task t else store
      | none => store) := by
  split
  · next held hheld =>
    split_ifs
    · exact sameTasks_setTask _ (isSome_of_matching hheld)
    · exact SameTasks.refl store
  · exact SameTasks.refl store

theorem advance_effect {p : Proc Grant} {e : Event} {next : Store Grant × Option (Proc Grant)}
    (h : advance s.store p e = some next) (hcareful : CarefulEvent s id p e)
    (hnumbered : ∀ T ∈ refs p, T < s.store.nextTask) :
    Effect (Backed s id) s.store p next.1 next.2 := by
  unfold advance at h
  split at h
  · -- commitShare
    cases h
    exact .replaced ⟨rfl, (oneMore_enqueue s.store _ _).outbox⟩ (by simp [refs]) rfl rfl
  · -- compensateInTransaction
    cases h
    exact effect_move
  · -- persistTask of a share
    cases h
    exact .enqueued rfl rfl (oneMore_enqueue s.store _ _) rfl
  · -- persistTask of an unshare
    cases h
    exact .enqueued rfl rfl (oneMore_enqueue s.store _ _) rfl
  · -- snapshot
    cases h
    exact effect_move
  · -- refuse of a share
    cases h
    exact effect_move
  · -- writeGrant
    cases h
    exact .wrote (carefulWrite_of_owns hcareful rfl) ⟨rfl, fun _ => rfl⟩ follows_some
  · -- writeThrows
    cases h
    exact effect_move
  · -- mirrorThrows
    cases h
    exact effect_move
  · -- inheritanceFails
    cases h
    exact .wrote hcareful (SameTasks.refl s.store) follows_some
  · -- trackingThrows
    cases h
    exact effect_move
  · -- succeed
    cases h
    exact effect_move
  · -- lookupGrant
    cases h
    exact effect_move
  · -- refuse of an unshare before the lookup
    cases h
    exact effect_move
  · -- invalidate
    cases h
    exact .wrote (carefulWrite_of_owns hcareful rfl) ⟨rfl, fun _ => rfl⟩ follows_some
  · -- refuse of an unshare behind the lookup
    cases h
    exact effect_move
  · -- removeGrant
    split at h
    · cases h
    · cases h
      exact .wrote (carefulWrite_of_owns hcareful rfl) ⟨rfl, fun _ => rfl⟩ follows_some
  · -- keepGrant
    cases h
    exact effect_move
  · -- restore of a live share
    cases h
    have hwrite := carefulWrite_of_owns hcareful (by simp [blocks, written])
    rw [← directory_restoreRow] at hwrite
    exact .wrote hwrite (sameTasks_restoreRow s.store _ _) follows_some
  · -- the restore throws
    cases h
    exact effect_move
  · -- syncStep of a live compensation
    obtain ⟨n, hn, rfl⟩ := map_eq_some_iff.mp h
    refine effect_perform hn hcareful follows_some ?_
    intro hwritten
    refine blocksNoMore_some fun T hT => ?_
    simp only [blocks, decide_eq_true_eq] at hT ⊢
    exact ⟨hT.1, hwritten hT.2⟩
  · -- the reconciliation of a live compensation throws
    cases h
    exact effect_move
  · -- compensated
    cases h
    exact effect_move (by simp [refs]) (by simp [holds]) (by simp [blocks, written])
  · -- syncStep within a transaction
    obtain ⟨n, hn, rfl⟩ := map_eq_some_iff.mp h
    exact effect_perform hn hcareful follows_some fun _ => blocksNoMore_some (by simp [blocks])
  · -- discard
    obtain ⟨t, -, rfl⟩ := map_eq_some_iff.mp h
    exact effect_delete (by simp [blocks]) rfl (follows_none _) (by simp)
  · -- discardMissed
    cases h
    exact .enqueued rfl rfl (oneMore_enqueue s.store _ _) rfl
  · -- deferInPlace
    obtain ⟨t, ht, rfl⟩ := map_eq_some_iff.mp h
    exact .quiet rfl rfl (sameTasks_setTask _ (isSome_of_matching ht))
      follows_some (blocksNoMore_some (by simp [blocks]))
  · -- deferToReplacement
    next task l expected prior now applied =>
      cases h
      have htask : task < s.store.nextTask := hnumbered task (by simp [refs])
      refine .replaced ((sameTasks_updated _ _ _ _ _).oneMore _ _) (by simp [refs]) rfl ?_
      simp only [blocks, decide_eq_false_iff_not]
      omega
  · -- fence
    split at h
    · cases h
      refine effect_delete (by simp [blocks]) rfl follows_some ?_
      intro q hq T
      cases hq
      rfl
    · cases h
      exact effect_move
  · -- release
    split at h
    · next t ht =>
      cases h
      exact .quiet rfl rfl (sameTasks_setTask _ (isSome_of_matching ht))
        (follows_unless _ follows_some)
        (blocksNoMore_unless _ (blocksNoMore_some (by simp [blocks])))
    · cases h
      exact .quiet rfl rfl (SameTasks.refl s.store) (follows_unless _ follows_some)
        (blocksNoMore_unless _ (blocksNoMore_some (by simp [blocks])))
  · -- releaseThrows
    cases h
    exact .quiet rfl rfl (SameTasks.refl s.store) (follows_unless _ follows_some)
      (blocksNoMore_unless _ (blocksNoMore_some (by simp [blocks])))
  · -- requeue
    cases h
    exact .enqueued rfl rfl (oneMore_enqueue s.store _ _) rfl
  · -- fetch
    split at h
    · cases h
      exact effect_move (by simp [refs]) (by simp [holds]) (by simp [blocks, written])
    · cases h
      exact effect_move
    · cases h
      exact effect_end
  · -- restore of a deferred compensation
    cases h
    have hwrite := hcareful
    rw [CarefulEvent, ← directory_restoreRow] at hwrite
    exact .wrote hwrite (sameTasks_restoreRow s.store _ _) follows_some
  · -- retryLater of a deferred compensation
    cases h
    exact .quiet (reschedule_row s.store _ _ _) (reschedule_directory s.store _ _ _)
      (sameTasks_reschedule s.store _ _ _) (follows_none _) (blocksNoMore_none _ _)
  · -- syncStep of a drained task
    obtain ⟨n, hn, rfl⟩ := map_eq_some_iff.mp h
    refine effect_perform hn hcareful follows_some ?_
    intro hwritten
    refine blocksNoMore_some fun T hT => ?_
    simp only [blocks, decide_eq_true_eq] at hT ⊢
    exact ⟨hT.1, hwritten hT.2⟩
  · -- acknowledge
    split at h
    · cases h
      exact effect_delete (by simp [blocks, written]) rfl (follows_none _) (by simp)
    · cases h
      exact effect_end
  · -- retryLater of a drained task
    cases h
    exact .quiet (reschedule_row s.store _ _ _) (reschedule_directory s.store _ _ _)
      (sameTasks_reschedule s.store _ _ _) (follows_none _) (blocksNoMore_none _ _)
  · -- renew
    next now reply =>
      obtain ⟨held, -, rfl⟩ := map_eq_some_iff.mp h
      refine effect_renew (l := now + precommitTaskLeaseMs) ?_
      split_ifs
      · exact Or.inl rfl
      · exact Or.inr rfl
  · cases h

end

end SuperFunctions.Datafn.Server.PermissionDirectoryEffects
