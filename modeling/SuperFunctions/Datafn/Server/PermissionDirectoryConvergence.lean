import SuperFunctions.Datafn.Server.PermissionDirectoryEffects

/-!
# Convergence of the permission directory

A mismatch between the row of a grant and its directory entry stays covered by a task that nobody
is about to remove, in every run whose steps are careful.
-/
namespace SuperFunctions.Datafn.Server.PermissionDirectoryConvergence

open Lib.OrderedMap Lib.Transition PermissionDirectory PermissionDirectoryEffects OMap Option

variable {Grant : Type}

/-! ## Tasks -/

theorem get_putProc (procs : OMap Nat (Proc Grant)) (id id' : Nat) (p' : Option (Proc Grant)) :
    (putProc procs id p').get id' = if id' = id then p' else procs.get id' := by
  cases p' with
  | none => exact get_delete procs id id'
  | some p => exact get_set procs id id' p

/-- The tasks in the outbox are numbered below the next one. -/
def Numbered (st : Store Grant) : Prop :=
  ∀ T, (st.outbox.get T).isSome = true → T < st.nextTask

variable {st' st : Store Grant}

theorem SameTasks.numbered (h : SameTasks st st') (hn : Numbered st) : Numbered st' := by
  intro T hT
  rw [h.outbox] at hT
  rw [h.nextTask]
  exact hn T hT

theorem OneMore.numbered (h : OneMore st st') (hn : Numbered st) : Numbered st' := by
  intro T hT
  rw [h.outbox, Bool.or_eq_true, decide_eq_true_eq] at hT
  rw [h.nextTask]
  rcases hT with hold | hnew
  · have := hn T hold
    omega
  · omega

theorem OneLess.numbered {task : Nat} (h : OneLess st st' task) (hn : Numbered st) :
    Numbered st' := by
  intro T hT
  rw [h.outbox, Bool.and_eq_true] at hT
  rw [h.nextTask]
  exact hn T hT.1

/-- The process knows tasks that have been numbered only. -/
def Knows (nextTask : Nat) (p : Proc Grant) : Prop := ∀ T ∈ refs p, T < nextTask

variable {p : Proc Grant}

theorem OneMore.knows {q : Proc Grant} (h : OneMore st st') (hp : Knows st.nextTask p)
    (hrefs : ∀ T ∈ refs q, T ∈ refs p ∨ T = st.nextTask) : Knows st'.nextTask q := by
  intro T hT
  rw [h.nextTask]
  rcases hrefs T hT with hold | hnew
  · have := hp T hold
    omega
  · omega

/-- What the tasks of an effect are, and which of them the process knows and holds. -/
structure Known (st st' : Store Grant) (p' : Option (Proc Grant)) : Prop where
  numbered : Numbered st'
  nextTask : st.nextTask ≤ st'.nextTask
  knows : ∀ q, p' = some q → Knows st'.nextTask q

variable {p' : Option (Proc Grant)}

section
variable [DecidableEq Grant]

theorem known_of_effect {backed : Option Grant → Proc Grant → Prop} (hn : Numbered st)
    (hp : Knows st.nextTask p) (heffect : Effect backed st p st' p') : Known st st' p' := by
  have hfollow : Follows p p' → st'.nextTask = st.nextTask →
      ∀ q, p' = some q → Knows st'.nextTask q := by
    intro hfollows hnext q hq T hT
    rw [hnext]
    exact hp T (hfollows.refs q hq hT)
  cases heffect with
  | quiet hrow hdirectory htasks hfollows hblocks =>
    exact ⟨SameTasks.numbered htasks hn, Nat.le_of_eq htasks.nextTask.symm,
      hfollow hfollows htasks.nextTask⟩
  | enqueued hrow hdirectory htasks hrefs =>
    refine ⟨OneMore.numbered htasks hn, by rw [htasks.nextTask]; omega, fun q hq => ?_⟩
    cases hq
    refine OneMore.knows htasks hp fun T hT => ?_
    rw [hrefs] at hT
    exact Or.inr (List.mem_singleton.mp hT)
  | replaced htasks hrefs hholds hblocks =>
    refine ⟨OneMore.numbered htasks hn, by rw [htasks.nextTask]; omega, fun q hq => ?_⟩
    cases hq
    exact OneMore.knows htasks hp hrefs
  | wrote hbacked htasks hfollows =>
    exact ⟨SameTasks.numbered htasks hn, Nat.le_of_eq htasks.nextTask.symm,
      hfollow hfollows htasks.nextTask⟩
  | dropped hrow hdirectory hblocked hholds htasks hfollows hblocks =>
    exact ⟨OneLess.numbered htasks hn, Nat.le_of_eq htasks.nextTask.symm,
      hfollow hfollows htasks.nextTask⟩

/-! ## The invariant -/

structure Sound (s : State Grant) : Prop where
  numbered : Numbered s.store
  knows : ∀ id p, s.procs.get id = some p → Knows s.store.nextTask p
  covered : Converged s ∨ ∃ T, Responsible s T

variable {s : State Grant} {id : Nat}

theorem sound_put (hs : Sound s) (hknown : Known s.store st' p')
    (hcovered : st'.directory = st'.row ∨ ∃ T, Responsible ⟨st', putProc s.procs id p'⟩ T) :
    Sound ⟨st', putProc s.procs id p'⟩ := { hknown with
  knows id' q hget T hT := by
    have hq : (putProc s.procs id p').get id' = some q := hget
    rw [get_putProc] at hq
    split_ifs at hq with hid
    · exact hknown.knows q hq T hT
    · have hlt := hs.knows id' q hq T hT
      have hnext := hknown.nextTask
      show T < st'.nextTask
      omega
  covered := hcovered }

variable {T : Nat}

/-- A task is responsible if neither the process that moved nor another one blocks it. -/
theorem responsible_put (hin : (st'.outbox.get T).isSome = true)
    (hmoved : ∀ q, p' = some q → blocks st'.row q T = false)
    (hothers : ∀ id' q, id' ≠ id → s.procs.get id' = some q → blocks st'.row q T = false) :
    Responsible ⟨st', putProc s.procs id p'⟩ T := by
  refine ⟨hin, fun q hq => ?_⟩
  obtain ⟨id', hget⟩ := (mem_values_iff_get _ _).mp hq
  have hget' : (putProc s.procs id p').get id' = some q := hget
  rw [get_putProc] at hget'
  split_ifs at hget' with hid
  · exact hmoved q hget'
  · exact hothers id' q hid hget'

theorem Responsible.get (h : Responsible s T) (hget : s.procs.get id = some p) :
    blocks s.store.row p T = false :=
  h.2 p ((mem_values_iff_get _ _).mpr ⟨id, hget⟩)

/-- A responsible task stays so if it is still there, the row is what it was and the process does
not begin to block it. -/
theorem responsible_keep (h : Responsible s T) (hrow : st'.row = s.store.row)
    (hin : (st'.outbox.get T).isSome = true)
    (hmoved : ∀ q, p' = some q → blocks s.store.row q T = false) :
    Responsible ⟨st', putProc s.procs id p'⟩ T := by
  refine responsible_put hin ?_ ?_
  · rwa [hrow]
  · intro id' q _ hget
    rw [hrow]
    exact Responsible.get h hget

theorem BlocksNoMore.not_blocks (hp : s.procs.get id = some p)
    (hblocks : BlocksNoMore s.store.row p p') (h : Responsible s T) :
    ∀ q, p' = some q → blocks s.store.row q T = false := by
  intro q hq
  cases hT : blocks s.store.row q T with
  | false => rfl
  | true =>
    have hblocked := hblocks q hq T hT
    rw [Responsible.get h hp] at hblocked
    cases hblocked

section

variable (hs : Sound s)
include hs

theorem covered_keep (hrow : st'.row = s.store.row) (hdirectory : st'.directory = s.store.directory)
    (htask : ∀ T, Responsible s T → (st'.outbox.get T).isSome = true ∧
      ∀ q, p' = some q → blocks s.store.row q T = false) :
    st'.directory = st'.row ∨ ∃ T, Responsible ⟨st', putProc s.procs id p'⟩ T := by
  rcases hs.covered with hagreed | ⟨T, hT⟩
  · left
    rwa [hdirectory, hrow]
  · obtain ⟨hin, hmoved⟩ := htask T hT
    exact Or.inr ⟨T, responsible_keep hT hrow hin hmoved⟩

theorem covered_of_effect (hp : s.procs.get id = some p)
    (heffect : Effect (Backed s id) s.store p st' p') :
    st'.directory = st'.row ∨ ∃ T, Responsible ⟨st', putProc s.procs id p'⟩ T := by
  cases heffect with
  | quiet hrow hdirectory htasks hfollows hblocks =>
    refine covered_keep hs hrow hdirectory fun T hT => ?_
    exact ⟨by rw [htasks.outbox]; exact hT.1, BlocksNoMore.not_blocks hp hblocks hT⟩
  | enqueued hrow hdirectory htasks hrefs =>
    refine covered_keep hs hrow hdirectory fun T hT => ⟨by rw [htasks.outbox, hT.1]; rfl, ?_⟩
    intro q hq
    cases hq
    refine blocks_of_not_refs fun hmem => ?_
    rw [hrefs] at hmem
    have hlt := hs.numbered T hT.1
    have hnew := List.mem_singleton.mp hmem
    omega
  | replaced htasks hrefs hholds hblocks =>
    refine Or.inr ⟨s.store.nextTask, responsible_put (by rw [htasks.outbox]; simp) ?_ ?_⟩
    · intro q hq
      cases hq
      exact hblocks
    · intro id' q _ hq
      refine blocks_of_not_refs fun hmem => ?_
      have hlt := hs.knows id' q hq _ hmem
      omega
  | wrote hbacked htasks hfollows =>
    rcases hbacked with hagreed | ⟨T, hmem, hq, hothers⟩
    · exact Or.inl hagreed
    have hin := (mem_keys_iff_get _ _).mp hmem
    refine Or.inr ⟨T, responsible_put (by rw [htasks.outbox, hin]) ?_ ?_⟩
    · intro q' hq'
      cases hq'
      exact hq
    · intro id' q' hne hq'
      exact hothers (id', q') ((mem_entries_iff_get _ _ _).mpr hq') hne
  | @dropped _ T hrow hdirectory hblocked hholds htasks hfollows hblocks =>
    refine covered_keep hs hrow hdirectory fun T' hT' => ⟨?_, fun q hq => hblocks q hq T'⟩
    have hne : T' ≠ T := by
      intro heq
      have hfree := Responsible.get hT' hp
      rw [heq, hblocked] at hfree
      cases hfree
    rw [htasks.outbox, hT'.1]
    simp [hne]

theorem sound_effect (hp : s.procs.get id = some p)
    (heffect : Effect (Backed s id) s.store p st' p') : Sound ⟨st', putProc s.procs id p'⟩ :=
  sound_put hs (known_of_effect hs.numbered (hs.knows id p hp) heffect)
    (covered_of_effect hs hp heffect)

theorem sound_quiet (hrow : st'.row = s.store.row) (hdirectory : st'.directory = s.store.directory)
    (htasks : SameTasks s.store st') (hknows : ∀ q, p' = some q → Knows s.store.nextTask q)
    (hblocks : ∀ q, p' = some q → ∀ T, blocks s.store.row q T = false) :
    Sound ⟨st', putProc s.procs id p'⟩ := by
  refine sound_put hs ⟨SameTasks.numbered htasks hs.numbered, Nat.le_of_eq htasks.nextTask.symm, ?_⟩
    (covered_keep hs hrow hdirectory ?_)
  · rwa [htasks.nextTask]
  · intro T hT
    exact ⟨by rw [htasks.outbox]; exact hT.1, fun q hq => hblocks q hq T⟩

theorem sound_step {s' : State Grant} {a : Action Grant} (hcareful : Careful s a)
    (h : step s a = some s') : Sound s' := by
  cases a with
  | start id operation transactional =>
    rw [step] at h
    split at h
    · cases h
      show Sound ⟨s.store, putProc s.procs id (some (.starting operation transactional))⟩
      refine sound_quiet hs rfl rfl (SameTasks.refl s.store) ?_ ?_
      · intro q hq
        cases hq
        exact nofun
      · intro q hq T
        cases hq
        rfl
    · cases h
  | claim id task now =>
    rw [step] at h
    split at h
    · next t hfree ht =>
      split_ifs at h
      cases h
      have hin : (s.store.outbox.get task).isSome = true := by
        rw [ht]
        rfl
      show Sound ⟨_, putProc s.procs id
        (some (.fetching task (some (now + drainClaimLeaseMs)) false))⟩
      refine sound_quiet hs rfl rfl (sameTasks_setTask _ hin) ?_ ?_
      · intro q hq
        cases hq
        intro T hT
        cases List.mem_singleton.mp hT
        exact hs.numbered task hin
      · intro q hq T
        cases hq
        rfl
    · cases h
  | crash id =>
    cases h
    show Sound ⟨s.store, putProc s.procs id none⟩
    refine sound_quiet hs rfl rfl (SameTasks.refl s.store) ?_ ?_
    · exact nofun
    · exact nofun
  | event id e =>
    obtain ⟨p, hp, hnext⟩ := bind_eq_some_iff.mp h
    obtain ⟨next, hadvance, rfl⟩ := map_eq_some_iff.mp hnext
    exact sound_effect hs hp (advance_effect hadvance (hcareful p hp) (hs.knows id p hp))

end

end

/-! ## Runs of a region -/

section
variable [DecidableEq Grant] {s : State Grant}

theorem sound_of_settled (h : Settled s) : Sound s where
  numbered T hT := by
    have hmem := (mem_keys_iff_get _ _).mpr hT
    rw [h.2.1] at hmem
    cases hmem
  knows id p hp := by
    have hmem := (mem_keys_iff_get s.procs id).mpr (by rw [hp]; rfl)
    rw [h.1] at hmem
    cases hmem
  covered := Or.inl h.2.2

theorem converged_of_sound (hs : Sound s) (houtbox : s.store.outbox.keys = []) : Converged s := by
  rcases hs.covered with hagreed | ⟨T, hT⟩
  · exact hagreed
  · have hmem := (mem_keys_iff_get _ _).mpr hT.1
    rw [houtbox] at hmem
    cases hmem

/-- What every step of a grant id preserves, every step of the region does. -/
theorem regionStep_invariant {inv : State Grant → Prop} {guard : State Grant → Action Grant → Prop}
    (hstep : ∀ s a s', inv s → guard s a → step s a = some s' → inv s')
    (region : Region Grant) (a : String × Action Grant) (region' : Region Grant)
    (hinv : ∀ id, inv (region id)) (hguard : guard (region a.1) a.2)
    (h : regionStep region a = some region') : ∀ id, inv (region' id) := by
  obtain ⟨s', hs', rfl⟩ := map_eq_some_iff.mp h
  intro id
  by_cases hid : id = a.1
  · rw [hid, Function.update_self]
    exact hstep _ _ _ (hinv a.1) hguard hs'
  · rw [Function.update_of_ne hid]
    exact hinv id

/-- A region without grants. -/
def emptyRegion : Region Nat := fun _ => ⟨⟨none, none, OMap.empty, 0⟩, OMap.empty⟩

theorem settled_emptyRegion (id : String) : Settled (emptyRegion id) := ⟨rfl, rfl, rfl⟩

/-- A share whose lease runs out behind its write, and who crashes before it adds a new task. -/
def expiredRun : List (String × Action Nat) :=
  [("grant", .start 0 (.share 7) false), ("grant", .event 0 (.persistTask 0)),
    ("grant", .event 0 .snapshot), ("grant", .event 0 .writeGrant), ("grant", .claim 1 0 300000),
    ("grant", .event 1 .fetch), ("grant", .event 1 .syncStep), ("grant", .event 1 .syncStep),
    ("grant", .event 1 .syncStep), ("grant", .event 1 .acknowledge), ("grant", .event 0 .succeed),
    ("grant", .event 0 (.release 300001)), ("grant", .crash 0)]

def expiredRegion : Region Nat := (run regionStep emptyRegion expiredRun).get (by decide)

/-- An unshare has found no row and is about to remove the entry. A share of the grant commits, and
its task is drained. Then the unshare removes the entry of the new grant, and its own task. -/
def staleRemovalRun : List (String × Action Nat) :=
  [("grant", .start 0 .unshare false), ("grant", .event 0 (.persistTask 0)),
    ("grant", .event 0 .lookupGrant), ("grant", .event 0 .invalidate),
    ("grant", .event 0 .keepGrant), ("grant", .event 0 (.release 1)), ("grant", .event 0 .fetch),
    ("grant", .event 0 .syncStep), ("grant", .start 1 (.share 7) true),
    ("grant", .event 1 (.commitShare 2)), ("grant", .event 1 .fetch), ("grant", .event 1 .syncStep),
    ("grant", .event 1 .syncStep), ("grant", .event 1 .syncStep), ("grant", .event 1 .acknowledge),
    ("grant", .event 0 .syncStep), ("grant", .event 0 .acknowledge)]

def staleRegion : Region Nat := (run regionStep emptyRegion staleRemovalRun).get (by decide)

end

end SuperFunctions.Datafn.Server.PermissionDirectoryConvergence
