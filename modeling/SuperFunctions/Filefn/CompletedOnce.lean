import SuperFunctions.Filefn.SessionMoves

/-!
# A session is completed once

Between its checks and its mark a completion has the session for itself when no other one starts
in that time and nothing else touches the row. Then the first version is the only one, and a
completion that fails has written nothing.
-/
namespace SuperFunctions.Filefn.CompletedOnce

open Lib.Processes Storage UploadSessions SessionMoves List Option

variable {stage : Stage} {call : Call}

section Conditions

variable (sid : String)

/-- A completion of the session between its checks and its mark. -/
def Storing : Call → Prop
  | ⟨.completeSession id _, .completing _ _⟩ => id = sid
  | _ => False

instance : DecidablePred (Storing sid) := fun call => by
  unfold Storing
  split <;> infer_instance

/-- A completion of the session that has yet to record its usage as well. -/
def Owning : Call → Prop
  | ⟨.completeSession id _, .completing _ _⟩ => id = sid
  | ⟨.completeSession id _, .closing _ _ _ stage⟩ => id = sid ∧ stage ≠ .triggerProcessing
  | _ => False

theorem owning_of_storing (h : Storing sid call) : Owning sid call := by
  obtain ⟨request, phase⟩ := call
  cases request with
  | completeSession id caller =>
    cases phase with
    | completing session stage => exact h
    | _ => exact False.elim h
  | _ => exact False.elim h

/-- Neither completed nor given up. -/
def Live (store : Store) : Prop :=
  ∃ row, rowsFor sid store = [row] ∧ row.status ≠ .completed ∧ row.status ≠ .aborted

/-- Given up, or gone. -/
def Closed (store : Store) : Prop :=
  ∀ row ∈ rowsFor sid store, row.status = .aborted

def Completed (fileId versionId : String) (store : Store) : Prop :=
  ∃ row, rowsFor sid store = [row] ∧ row.status = .completed ∧ row.fileId = some fileId ∧
    row.completionVersionId = some versionId ∧ fileId ≠ "" ∧ versionId ≠ ""

variable {sid} {store store' : Store} {fileId versionId : String}

theorem not_live_of_completed (h : Completed sid fileId versionId store) : ¬ Live sid store := by
  rintro ⟨row, hrow, hcompleted, -⟩
  obtain ⟨other, hother, hstatus, -⟩ := h
  have hsame : row = other := by
    have hlist := hrow.symm.trans hother
    simpa using hlist
  exact hcompleted (hsame ▸ hstatus)

theorem not_live_of_closed (h : Closed sid store) : ¬ Live sid store := by
  rintro ⟨row, hrow, -, haborted⟩
  exact haborted (h row (by rw [hrow]; exact mem_singleton_self row))

theorem not_closed_of_completed (h : Completed sid fileId versionId store) : ¬ Closed sid store := by
  intro hclosed
  obtain ⟨row, hrow, hstatus, -⟩ := h
  have haborted := hclosed row (by rw [hrow]; exact mem_singleton_self row)
  rw [hstatus] at haborted
  cases haborted

/-- The versions that a stage of the completion has yielded. -/
def yielded : Stage → List (String × String)
  | .markCompleted fileId versionId => [(fileId, versionId)]
  | _ => []

theorem yielded_of_not_mark (h : Stage.isMark stage = false) : yielded stage = [] := by
  cases stage with
  | markCompleted fileId versionId => cases h
  | _ => rfl

variable (sid)

/-- What a completion of the session knows in each of its phases. -/
def CompletionOk (store : Store) : Phase → Prop
  | .completing _ stage => Live sid store ∧ createdFor sid store = yielded stage ∧
      usageFor sid store = []
  | .closing _ fileId versionId stage => Completed sid fileId versionId store ∧
      createdFor sid store = [(fileId, versionId)] ∧
      (stage ≠ .triggerProcessing → usageFor sid store = [])
  | .completed fileId versionId => createdFor sid store = [(fileId, versionId)]
  | .legacyFile _ => False
  | _ => True

/-- What a call knows of the session. -/
def CallOk (store : Store) : Call → Prop
  | ⟨.completeSession id _, phase⟩ => id = sid → CompletionOk sid store phase
  | ⟨.abortSession id _, .finished⟩ => id = sid → Closed sid store
  | _ => True

structure Inv (s : Deployment) : Prop where
  own : Each (fun _ _ call => Own call) s
  calls : Each (fun store _ call => CallOk sid store call) s
  single : Pairs (fun i p j q => i ≠ j → Owning sid p → ¬ Owning sid q) s
  unique : (rowsFor sid s.shared).length ≤ 1
  row : Live sid s.shared ∨
    (∃ fileId versionId, Completed sid fileId versionId s.shared ∧
      createdFor sid s.shared = [(fileId, versionId)]) ∨
    Closed sid s.shared ∧ createdFor sid s.shared = [] ∧ usageFor sid s.shared = []
  idle : Live sid s.shared → (∀ call ∈ s.procs, ¬ Storing sid call) →
    createdFor sid s.shared = [] ∧ usageFor sid s.shared = []
  usage : (usageFor sid s.shared).length ≤ 1

/-- What a stage of the completion finds when it goes through. -/
def Smooth (config : Config) (store : Store) (session : UploadSession) (c : Choice) : Stage → Prop
  | .completeMultipart parts => c.fails = false ∧
      (session.storageUploadId.bind fun uploadId => (store.uploads uploadId).bind fun stored =>
        (assemble stored (byPartNumber parts)).map fun bytes => (uploadId, bytes)).isSome = true
  | .stitch _ (part :: _) _ => c.fails = false ∧
      (store.objects (config.partRef session part.partNumber)).isSome = true
  | .dropParts _ => True
  | .stat => c.fails = false → ∀ bytes ∈ store.objects (config.uploadRef session),
      bytes.length = session.size
  | .hash => c.fails = false ∧ config.streams = true ∧
      (store.objects (config.uploadRef session)).isSome = true
  | .resolveDuplicates _ _ [] => True
  | .dropUpload _ => True
  | .writeFile _ fileId _ existing => c.fails = false ∧ (store.findFile fileId).isSome = existing
  | .createVersion _ _ versionId => c.fails = false ∧
      store.versions.any (·.versionId = versionId) = false
  | .markCompleted _ _ => c.fails = false ∧
      (store.findSession session.uploadSessionId).isSome = true
  | _ => c.fails = false

instance (config : Config) (store : Store) (session : UploadSession) (c : Choice) :
    DecidablePred (Smooth config store session c) := fun stage => by
  unfold Smooth
  split <;> infer_instance

def IsLive (row : UploadSession) : Prop := row.status ≠ .completed ∧ row.status ≠ .aborted

instance : DecidablePred IsLive := fun _ => inferInstanceAs (Decidable (_ ∧ _))

/-- A completion of the session goes on from its checks while the session is live and no other one
is between its checks and its mark, and from there every stage goes through. The row is given up
or removed while it is not completed and nothing is in that state, and put in progress while it is
live. -/
def Careful (config : Config) (s : Deployment) (call : Call) (c : Choice) : Prop :=
  match call.phase with
  | .checkWrite session _ => session.uploadSessionId = sid →
      (∃ row ∈ rowsFor sid s.shared, IsLive row) ∧ ∀ q ∈ s.procs, ¬ Storing sid q
  | .completing session stage => session.uploadSessionId = sid →
      Smooth config s.shared session c stage
  | .markInProgress _ => partSession call.request = some sid →
      ∀ row ∈ rowsFor sid s.shared, IsLive row
  | .markAborted session => session.uploadSessionId = sid →
      (∀ row ∈ rowsFor sid s.shared, row.status ≠ .completed) ∧ ∀ q ∈ s.procs, ¬ Storing sid q
  | .deleteSession session _ => session.uploadSessionId = sid →
      (∀ row ∈ rowsFor sid s.shared, row.status ≠ .completed) ∧ ∀ q ∈ s.procs, ¬ Storing sid q
  | .deleting (.dropSessions doomed _) =>
      (∃ row ∈ rowsFor sid s.shared, isOpenSessionOf doomed.file.fileId row = true) →
        ∀ q ∈ s.procs, ¬ Storing sid q
  | _ => True

instance (config : Config) (s : Deployment) (call : Call) (c : Choice) :
    Decidable (Careful sid config s call c) := by
  unfold Careful
  split <;> infer_instance

def Steady (config : Config) (s : Deployment) : Act Request Choice → Prop
  | .spawn _ => True
  | .move i c => ∀ call ∈ s.procs[i]?, Careful sid config s call c

instance (config : Config) (s : Deployment) : (a : Act Request Choice) →
    Decidable (Steady sid config s a)
  | .spawn _ => isTrue trivial
  | .move _ _ => inferInstanceAs (Decidable (∀ _ ∈ _, _))

end Conditions

section SameViews

variable {sid : String} {store store' : Store}

section

variable (hview : SameView sid store store')
include hview

theorem live_same (h : Live sid store) : Live sid store' := by
  obtain ⟨row, hrow, hstatus⟩ := h
  exact ⟨row, hview.rows.trans hrow, hstatus⟩

theorem sameView_symm : SameView sid store' store :=
  ⟨hview.rows.symm, hview.created.symm, hview.usage.symm⟩

theorem completed_same {fileId versionId : String} (h : Completed sid fileId versionId store) :
    Completed sid fileId versionId store' := by
  obtain ⟨row, hrow, hrest⟩ := h
  exact ⟨row, hview.rows.trans hrow, hrest⟩

theorem closed_same (h : Closed sid store) : Closed sid store' := by
  intro row hrow
  rw [hview.rows] at hrow
  exact h row hrow

theorem callOk_same (h : CallOk sid store call) : CallOk sid store' call := by
  obtain ⟨request, phase⟩ := call
  cases request with
  | completeSession id caller =>
    intro hid
    have hok : CompletionOk sid store phase := h hid
    cases phase with
    | completing session stage =>
      exact ⟨live_same hview hok.1, hview.created.trans hok.2.1, hview.usage.trans hok.2.2⟩
    | closing session fileId versionId stage =>
      exact ⟨completed_same hview hok.1, hview.created.trans hok.2.1,
        fun hstage => hview.usage.trans (hok.2.2 hstage)⟩
    | completed fileId versionId => exact hview.created.trans hok
    | _ => exact hok
  | abortSession id caller =>
    cases phase with
    | finished => exact fun hid => closed_same hview (h hid)
    | _ => trivial
  | _ => trivial

end

end SameViews

variable {w : Write} {c : Choice}

section Steps

variable {sid : String} {config : Config} {s : Deployment} {i : Nat} {call : Call} {store' : Store}
  {phase : Phase}

theorem storing_set {procs : List Call} {i : Nat} {call' : Call} (hcall : procs[i]? = some call)
    (hstoring : Storing sid call → Storing sid call')
    (hnone : ∀ q ∈ procs.set i call', ¬ Storing sid q) : ∀ q ∈ procs, ¬ Storing sid q := by
  intro q hq hq'
  rcases exists_set call' hcall ⟨q, hq, hq'⟩ with hmoved | ⟨r, hr, hr'⟩
  · exact hnone call' (moved_mem call' hcall) (hstoring hmoved)
  · exact hnone r hr hr'

theorem inv_same (hinv : Inv sid s) (hcall : s.procs[i]? = some call)
    (hview : SameView sid s.shared store') (hown : Own ⟨call.request, phase⟩)
    (hok : CallOk sid store' ⟨call.request, phase⟩)
    (hsingle : Owning sid ⟨call.request, phase⟩ →
      ∀ j q, j ≠ i → s.procs[j]? = some q → ¬ Owning sid q)
    (hstoring : Storing sid call → Storing sid ⟨call.request, phase⟩) :
    Inv sid ⟨store', s.procs.set i { call with phase := phase }⟩ := by
  refine ⟨?_, ?_, ?_, ?_, ?_, ?_, ?_⟩
  · exact each_move hown fun j q _ hq => hinv.own j q hq
  · exact each_move hok fun j q _ hq => callOk_same hview (hinv.calls j q hq)
  · refine pairs_move hinv.single (fun hne => absurd rfl hne) ?_ ?_
    · exact fun j q hne hq _ howning => hsingle howning j q hne hq
    · exact fun j q hne hq _ hother howning => hsingle howning j q hne hq hother
  · show (rowsFor sid store').length ≤ 1
    rw [hview.rows]
    exact hinv.unique
  · rcases hinv.row with hlive | ⟨fileId, versionId, hcompleted, hcreated⟩ | ⟨hclosed, hcreated, husage⟩
    · exact .inl (live_same hview hlive)
    · exact .inr (.inl ⟨fileId, versionId, completed_same hview hcompleted,
        hview.created.trans hcreated⟩)
    · exact .inr (.inr ⟨closed_same hview hclosed, hview.created.trans hcreated,
        hview.usage.trans husage⟩)
  · intro hlive hnone
    obtain ⟨hcreated, husage⟩ := hinv.idle (live_same (sameView_symm hview) hlive)
      (storing_set hcall hstoring hnone)
    exact ⟨hview.created.trans hcreated, hview.usage.trans husage⟩
  · show (usageFor sid store').length ≤ 1
    rw [hview.usage]
    exact hinv.usage

theorem inv_spawn (hinv : Inv sid s) (request : Request) :
    Inv sid ⟨s.shared, s.procs ++ [⟨request, .entered⟩]⟩ := by
  have howning : ¬ Owning sid ⟨request, .entered⟩ := by
    cases request with
    | completeSession id caller => exact fun h => h
    | _ => exact id
  have hok : CallOk sid s.shared ⟨request, .entered⟩ := by
    cases request with
    | completeSession id caller => exact fun _ => trivial
    | _ => trivial
  refine ⟨each_spawn hinv.own (own_of_none rfl), each_spawn hinv.calls hok, ?_, hinv.unique,
    hinv.row, ?_, hinv.usage⟩
  · refine pairs_spawn hinv.single (fun hne => absurd rfl hne) ?_ ?_
    · exact fun j q _ _ h => absurd h howning
    · exact fun j q _ _ _ h => howning h
  · intro hlive hnone
    exact hinv.idle hlive fun q hq => hnone q (mem_append_left _ hq)

/-- A write about the session by a call that is not one of its completions. -/
theorem inv_change (hinv : Inv sid s) (hcall : s.procs[i]? = some call)
    (hown : Own ⟨call.request, phase⟩)
    (hrequest : ∀ id caller, call.request ≠ .completeSession id caller)
    (hnot : ∀ fileId versionId, ¬ Completed sid fileId versionId s.shared)
    (hcreated : createdFor sid store' = createdFor sid s.shared)
    (husage : usageFor sid store' = usageFor sid s.shared)
    (hrows : (rowsFor sid store').length ≤ 1)
    (hchange : (Live sid s.shared ∧ Live sid store') ∨
      (∀ q ∈ s.procs, ¬ Storing sid q) ∧ Closed sid store')
    (hfinished : ∀ caller, call.request = .abortSession sid caller → phase = .finished →
      Closed sid store') :
    Inv sid ⟨store', s.procs.set i { call with phase := phase }⟩ := by
  have howning : ∀ phase, ¬ Owning sid ⟨call.request, phase⟩ := by
    intro phase h
    cases hreq : call.request with
    | completeSession id caller => exact hrequest id caller hreq
    | _ =>
      rwa [hreq] at h
  have hempty : Closed sid store' → createdFor sid s.shared = [] ∧ usageFor sid s.shared = [] := by
    intro hclosed
    rcases hinv.row with hlive | ⟨fileId, versionId, hcompleted, -⟩ | ⟨-, hnone⟩
    · rcases hchange with ⟨-, hlive'⟩ | ⟨hidle, -⟩
      · exact absurd hlive' (not_live_of_closed hclosed)
      · exact hinv.idle hlive hidle
    · exact absurd hcompleted (hnot fileId versionId)
    · exact hnone
  have hothers : ∀ (j : Nat) (q : Call), s.procs[j]? = some q → CallOk sid store' q := by
    intro j q hq
    have hok : CallOk sid s.shared q := hinv.calls j q hq
    obtain ⟨request, phase'⟩ := q
    cases request with
    | completeSession id caller =>
      intro hid
      have hphase : CompletionOk sid s.shared phase' := hok hid
      cases phase' with
      | completing session stage =>
        obtain ⟨hlive, hyielded, hnone⟩ := hphase
        rcases hchange with ⟨-, hlive'⟩ | ⟨hidle, -⟩
        · exact ⟨hlive', hcreated.trans hyielded, husage.trans hnone⟩
        · exact absurd hid (hidle _ (mem_of_getElem? hq))
      | closing session fileId versionId stage => exact absurd hphase.1 (hnot fileId versionId)
      | completed fileId versionId => exact hcreated.trans hphase
      | _ => exact hphase
    | abortSession id caller =>
      cases phase' with
      | finished =>
        intro hid
        have hclosed : Closed sid s.shared := hok hid
        rcases hchange with ⟨hlive, -⟩ | ⟨-, hclosed'⟩
        · exact absurd hlive (not_live_of_closed hclosed)
        · exact hclosed'
      | _ => trivial
    | _ => trivial
  have hmine : CallOk sid store' ⟨call.request, phase⟩ := by
    cases hreq : call.request with
    | completeSession id caller => exact absurd hreq (hrequest id caller)
    | abortSession id caller =>
      cases hphase : phase with
      | finished =>
        intro hid
        exact hfinished caller (hid ▸ hreq) hphase
      | _ => trivial
    | _ => trivial
  refine ⟨?_, ?_, ?_, hrows, ?_, ?_, ?_⟩
  · exact each_move hown fun j q _ hq => hinv.own j q hq
  · exact each_move hmine fun j q _ hq => hothers j q hq
  · refine pairs_move hinv.single (fun hne => absurd rfl hne) ?_ ?_
    · exact fun j q _ _ _ h => absurd h (howning phase)
    · exact fun j q _ _ _ _ h => howning phase h
  · rcases hchange with ⟨-, hlive'⟩ | ⟨-, hclosed'⟩
    · exact .inl hlive'
    · exact .inr (.inr ⟨hclosed', hcreated.trans (hempty hclosed').1,
        husage.trans (hempty hclosed').2⟩)
  · intro hlive' hnone
    rcases hchange with ⟨hlive, -⟩ | ⟨-, hclosed'⟩
    · have hstoring : ∀ q ∈ s.procs, ¬ Storing sid q := by
        refine storing_set hcall (fun h => ?_) hnone
        exact absurd (owning_of_storing sid h) (howning call.phase)
      obtain ⟨hc, hu⟩ := hinv.idle hlive hstoring
      exact ⟨hcreated.trans hc, husage.trans hu⟩
    · exact absurd hlive' (not_live_of_closed hclosed')
  · show (usageFor sid store').length ≤ 1
    rw [husage]
    exact hinv.usage

theorem rowsFor_delete (store : Store) :
    rowsFor sid ((Write.deleteSession sid).apply store) = [] := by
  have hrows : rowsFor sid ((Write.deleteSession sid).apply store) =
      (rowsFor sid store).filter (·.uploadSessionId ≠ sid) := rowsFor_filter _
  rw [hrows, filter_eq_nil_iff]
  intro row hrow
  simpa using mem_rowsFor hrow

theorem rowsFor_setStatus (sid : String) (store : Store) (status : SessionStatus) :
    rowsFor sid ((Write.setStatus sid status).apply store) =
      (rowsFor sid store).map fun row => { row with status := status } :=
  rowsFor_change fun _ => rfl

theorem exists_live (hunique : (rowsFor sid s.shared).length ≤ 1)
    (h : ∃ row ∈ rowsFor sid s.shared, IsLive row) : Live sid s.shared := by
  obtain ⟨row, hrow, hlive⟩ := h
  cases hrows : rowsFor sid s.shared with
  | nil =>
    rw [hrows] at hrow
    cases hrow
  | cons first rest =>
    rw [hrows, length_cons] at hunique
    have hrest : rest = [] := eq_nil_of_length_eq_zero (by omega)
    subst hrest
    rw [hrows] at hrow
    have hsame : row = first := mem_singleton.mp hrow
    exact ⟨first, hrows, hsame ▸ hlive⟩

variable {store : Store}

theorem completed_mem {fileId versionId : String} (h : Completed sid fileId versionId store) :
    ∃ row ∈ rowsFor sid store, row.status = .completed := by
  obtain ⟨row, hrow, hstatus, -⟩ := h
  exact ⟨row, by rw [hrow]; exact mem_singleton_self row, hstatus⟩

theorem inv_other (hinv : Inv sid s) (hcall : s.procs[i]? = some call)
    (hcareful : Careful sid config s call c) (hnext : next config s.shared call c = some (w, phase))
    (hrequest : ∀ id caller, call.request ≠ .completeSession id caller) :
    Inv sid ⟨w.apply s.shared, s.procs.set i { call with phase := phase }⟩ := by
  have howning : ∀ phase, ¬ Owning sid ⟨call.request, phase⟩ := by
    intro phase h
    cases hreq : call.request with
    | completeSession id caller => exact hrequest id caller hreq
    | _ =>
      rwa [hreq] at h
  have hpair : Own call := hinv.own i call hcall
  have habort : ∀ id caller, call.request = .abortSession id caller →
      Own ⟨.abortSession id caller, phase⟩ ∧ (phase = .finished → w = .setStatus id .aborted) := by
    intro id caller hreq
    unfold UploadSessions.next at hnext
    rw [hreq] at hnext
    have hstart : Own ⟨.abortSession id caller, call.phase⟩ := by
      rwa [← hreq]
    obtain ⟨hown, hfinished⟩ := own_abort hnext hstart
    refine ⟨hown, fun hphase => ?_⟩
    obtain ⟨session, -, -, hw⟩ := hfinished hphase
    exact hw
  have hown : Own ⟨call.request, phase⟩ := by
    cases hreq : call.request with
    | completeSession id caller => exact absurd hreq (hrequest id caller)
    | abortSession id caller => exact (habort id caller hreq).1
    | _ => trivial
  have hsame : SameView sid s.shared (w.apply s.shared) →
      (∀ id caller, call.request = .abortSession id caller → phase = .finished → id ≠ sid) →
      Inv sid ⟨w.apply s.shared, s.procs.set i { call with phase := phase }⟩ := by
    intro hview hfinished
    refine inv_same hinv hcall hview hown ?_ ?_ ?_
    · cases hreq : call.request with
      | completeSession id caller => exact absurd hreq (hrequest id caller)
      | abortSession id caller =>
        cases hphase : phase with
        | finished => exact fun hid => absurd hid (hfinished id caller hreq hphase)
        | _ => trivial
      | _ => trivial
    · exact fun h => absurd h (howning phase)
    · intro h
      exact absurd (owning_of_storing sid h) (howning call.phase)
  by_cases htouch : Touches sid w
  · have houtside := next_outside hnext hrequest htouch
    unfold Careful at hcareful
    generalize hphase : call.phase = before at houtside
    rw [hphase] at hcareful
    cases houtside with
    | inProgress session hpart =>
      have hlive : ∀ row ∈ rowsFor sid s.shared, IsLive row := hcareful hpart
      have hrows := rowsFor_setStatus sid s.shared .in_progress
      cases hfirst : rowsFor sid s.shared with
      | nil =>
        refine hsame ⟨?_, rfl, rfl⟩ ?_
        · rw [hrows, hfirst]
          rfl
        · intro id caller hreq
          rw [hreq] at hpart
          cases hpart
      | cons first rest =>
        have hstart : Live sid s.shared :=
          exists_live hinv.unique ⟨first, by simp [hfirst], hlive first (by simp [hfirst])⟩
        refine inv_change hinv hcall hown hrequest ?_ rfl rfl ?_ (.inl ⟨hstart, ?_⟩) ?_
        · intro fileId versionId hcompleted
          exact not_live_of_completed hcompleted hstart
        · rw [hrows, length_map]
          exact hinv.unique
        · obtain ⟨row, hrow, -⟩ := hstart
          refine ⟨{ row with status := .in_progress }, ?_, nofun, nofun⟩
          rw [hrows, hrow]
          rfl
        · intro caller hreq
          rw [hreq] at hpart
          cases hpart
    | aborted session hid =>
      obtain ⟨hnot, hidle⟩ := hcareful hid
      have hrows := rowsFor_setStatus sid s.shared .aborted
      have hclosed : Closed sid ((Write.setStatus sid .aborted).apply s.shared) := by
        intro row hrow
        rw [hrows] at hrow
        obtain ⟨old, -, rfl⟩ := mem_map.mp hrow
        rfl
      refine inv_change hinv hcall hown hrequest ?_ rfl rfl ?_ (.inr ⟨hidle, hclosed⟩)
        fun _ _ _ => hclosed
      · intro fileId versionId hcompleted
        obtain ⟨row, hrow, hstatus⟩ := completed_mem hcompleted
        exact hnot row hrow hstatus
      · rw [hrows, length_map]
        exact hinv.unique
    | deleted session rest phase hid =>
      obtain ⟨hnot, hidle⟩ := hcareful hid
      have hclosed : Closed sid ((Write.deleteSession sid).apply s.shared) := by
        intro row hrow
        rw [rowsFor_delete] at hrow
        cases hrow
      refine inv_change hinv hcall hown hrequest ?_ rfl rfl ?_ (.inr ⟨hidle, hclosed⟩)
        fun _ _ _ => hclosed
      · intro fileId versionId hcompleted
        obtain ⟨row, hrow, hstatus⟩ := completed_mem hcompleted
        exact hnot row hrow hstatus
      · rw [rowsFor_delete]
        decide
    | dropped doomed refs phase =>
      have hrows : rowsFor sid ((Write.deleteOpenSessions doomed.file.fileId).apply s.shared) =
          (rowsFor sid s.shared).filter fun row => !isOpenSessionOf doomed.file.fileId row :=
        rowsFor_filter _
      by_cases hopen : ∃ row ∈ rowsFor sid s.shared, isOpenSessionOf doomed.file.fileId row = true
      · obtain ⟨row, hrow, hrowOpen⟩ := hopen
        have honly : rowsFor sid s.shared = [row] := by
          cases hlist : rowsFor sid s.shared with
          | nil => simp [hlist] at hrow
          | cons first rest =>
            have hlength := hinv.unique
            rw [hlist, length_cons] at hlength
            have hrest : rest = [] := eq_nil_of_length_eq_zero (by omega)
            rw [hlist, hrest] at hrow
            rw [hrest, mem_singleton.mp hrow]
        have hnil : rowsFor sid ((Write.deleteOpenSessions doomed.file.fileId).apply s.shared) =
            [] := by
          rw [hrows, honly]
          simp [hrowOpen]
        have hclosed : Closed sid
            ((Write.deleteOpenSessions doomed.file.fileId).apply s.shared) := by
          intro other hother
          rw [hnil] at hother
          cases hother
        refine inv_change hinv hcall hown hrequest ?_ rfl rfl ?_
          (.inr ⟨hcareful ⟨row, hrow, hrowOpen⟩, hclosed⟩) fun _ _ _ => hclosed
        · intro fileId versionId hcompleted
          obtain ⟨other, hother, hstatus⟩ := completed_mem hcompleted
          rw [honly] at hother
          have hsameRow : other = row := mem_singleton.mp hother
          subst hsameRow
          simp [isOpenSessionOf, hstatus] at hrowOpen
        · rw [hnil]
          decide
      · refine hsame ⟨?_, rfl, rfl⟩ ?_
        · rw [hrows, filter_eq_self]
          intro row hrow
          rw [Bool.not_eq_true']
          by_contra hrowOpen
          exact hopen ⟨row, hrow, by simpa using hrowOpen⟩
        · intro id caller hreq hfinished
          exact absurd ((habort id caller hreq).2 hfinished) nofun
  · refine hsame (sameView_apply htouch) ?_
    intro id caller hreq hfinished hid
    have hw : w = .setStatus id .aborted := (habort id caller hreq).2 hfinished
    subst hw
    exact htouch hid

/-- A write about the session by the completion that has it. -/
theorem inv_owner (hinv : Inv sid s) (hcall : s.procs[i]? = some call)
    (howner : Owning sid call) (hown : Own ⟨call.request, phase⟩)
    (hok : CallOk sid store' ⟨call.request, phase⟩)
    (hcreated : createdFor sid store' = createdFor sid s.shared ∨ createdFor sid s.shared = [])
    (hrows : rowsFor sid store' = rowsFor sid s.shared ∨ Live sid s.shared)
    (hunique : (rowsFor sid store').length ≤ 1)
    (hrow : Live sid store' ∨ ∃ fileId versionId, Completed sid fileId versionId store' ∧
      createdFor sid store' = [(fileId, versionId)])
    (hidle : Live sid store' → Storing sid ⟨call.request, phase⟩)
    (husage : (usageFor sid store').length ≤ 1) :
    Inv sid ⟨store', s.procs.set i { call with phase := phase }⟩ := by
  have hyields : ∀ fileId versionId, createdFor sid s.shared = [(fileId, versionId)] →
      createdFor sid store' = [(fileId, versionId)] := by
    intro fileId versionId h
    rcases hcreated with hsame | hnone
    · exact hsame.trans h
    · rw [hnone] at h
      cases h
  have hothers : ∀ (j : Nat) (q : Call), j ≠ i → s.procs[j]? = some q → CallOk sid store' q := by
    intro j q hne hq
    have hfree : ¬ Owning sid q := hinv.single i j call q hcall hq (fun h => hne h.symm) howner
    have hold : CallOk sid s.shared q := hinv.calls j q hq
    obtain ⟨request, phase'⟩ := q
    cases request with
    | completeSession id caller =>
      intro hid
      have hphase : CompletionOk sid s.shared phase' := hold hid
      cases phase' with
      | completing session stage => exact absurd hid hfree
      | closing session fileId versionId stage =>
        have hstage : stage = .triggerProcessing := by
          by_contra hstage
          exact hfree ⟨hid, hstage⟩
        obtain ⟨hcompleted, hyield, -⟩ := hphase
        rcases hrows with hsame | hlive
        · obtain ⟨row, hrow, hrest⟩ := hcompleted
          exact ⟨⟨row, hsame.trans hrow, hrest⟩, hyields _ _ hyield, fun hnot => absurd hstage hnot⟩
        · exact absurd hlive (not_live_of_completed hcompleted)
      | completed fileId versionId => exact hyields _ _ hphase
      | _ => exact hphase
    | abortSession id caller =>
      cases phase' with
      | finished =>
        intro hid
        have hclosed : Closed sid s.shared := hold hid
        rcases hrows with hsame | hlive
        · intro row hrow
          rw [hsame] at hrow
          exact hclosed row hrow
        · exact absurd hlive (not_live_of_closed hclosed)
      | _ => trivial
    | _ => trivial
  refine ⟨?_, ?_, ?_, hunique, ?_, ?_, husage⟩
  · exact each_move hown fun j q _ hq => hinv.own j q hq
  · exact each_move hok fun j q hne hq => hothers j q hne hq
  · refine pairs_move hinv.single (fun hne => absurd rfl hne) ?_ ?_
    · exact fun j q hne hq _ _ hother =>
        hinv.single i j call q hcall hq (fun h => hne h.symm) howner hother
    · exact fun j q hne hq _ hother _ =>
        hinv.single i j call q hcall hq (fun h => hne h.symm) howner hother
  · rcases hrow with hlive | hcompleted
    · exact .inl hlive
    · exact .inr (.inl hcompleted)
  · intro hlive hnone
    exact absurd (hidle hlive) (hnone _ (moved_mem _ hcall))

variable {session : UploadSession}

theorem complete_smooth (hsmooth : Smooth config store session c stage) (error : FileFnError) :
    (complete config store session stage c).2 ≠ .threw error := by
  cases stage with
  | completeMultipart parts =>
    obtain ⟨hfails, hthere⟩ := hsmooth
    obtain ⟨found, hfound⟩ := isSome_iff_exists.mp hthere
    dsimp only [complete]
    rw [hfails, hfound]
    exact nofun
  | openUpload parts =>
    have hfails : c.fails = false := hsmooth
    simp [complete, hfails]
  | stitch parts rest stitched =>
    cases rest with
    | nil =>
      have hfails : c.fails = false := hsmooth
      simp [complete, hfails]
    | cons part rest =>
      obtain ⟨hfails, hthere⟩ := hsmooth
      obtain ⟨bytes, hbytes⟩ := isSome_iff_exists.mp hthere
      dsimp only [complete]
      rw [hfails, hbytes]
      exact nofun
  | dropParts rest =>
    cases rest with
    | nil => exact nofun
    | cons part rest => exact nofun
  | stat =>
    dsimp only [complete]
    split
    · rename_i bytes hfails hbytes
      have hsize : bytes.length = session.size := hsmooth hfails bytes hbytes
      rw [if_neg (fun h => h hsize)]
      exact nofun
    · exact nofun
  | hash =>
    obtain ⟨hfails, hstreams, hthere⟩ := hsmooth
    obtain ⟨bytes, hbytes⟩ := isSome_iff_exists.mp hthere
    dsimp only [complete]
    rw [hfails, hstreams, hbytes]
    exact nofun
  | findDuplicates checksum content | findFile upload =>
    have hfails : c.fails = false := hsmooth
    dsimp only [complete]
    rw [if_neg (by simp [hfails])]
    split
    · exact nofun
    · exact nofun
  | resolveDuplicates checksum content rest =>
    cases rest with
    | nil => exact nofun
    | cons version rest =>
      have hfails : c.fails = false := hsmooth
      dsimp only [complete]
      rw [if_neg (by simp [hfails])]
      split
      · exact nofun
      · exact nofun
  | dropUpload upload => exact nofun
  | writeFile upload fileId versionId existing =>
    obtain ⟨hfails, hexists⟩ := hsmooth
    cases existing with
    | true => simp [complete, hfails, ← not_isSome, hexists]
    | false => simp [complete, hfails, hexists]
  | createVersion upload fileId versionId =>
    obtain ⟨hfails, hfresh⟩ := hsmooth
    dsimp only [complete]
    rw [if_neg (by simp [hfails, hfresh])]
    exact nofun
  | markCompleted fileId versionId =>
    obtain ⟨hfails, hthere⟩ := hsmooth
    simp [complete, hfails, ← not_isSome, hthere]

theorem createdFor_create (store : Store) (creation : Creation)
    (hid : creation.uploadSessionId = sid) :
    createdFor sid ((Write.createVersion creation).apply store) = createdFor sid store ++
      [(creation.version.fileId, creation.version.versionId)] := by
  simp [createdFor, Write.apply, hid]

theorem usageFor_record (store : Store) (record : UsageRecord)
    (hid : record.uploadSessionId = some sid) :
    usageFor sid ((Write.recordUsage record).apply store) = usageFor sid store ++ [record] := by
  simp [usageFor, Write.apply, hid]

theorem isFalsy_some {value : Option String} {text : String} (h : value = some text)
    (hne : text ≠ "") : isFalsy value = false := by
  subst h
  simp [isFalsy, hne]

theorem checkStatus_ok {now : Int} (hinv : Inv sid s)
    (hfind : s.shared.findSession sid = some session) :
    CompletionOk sid s.shared (checkStatus session now) := by
  have hrows : rowsFor sid s.shared = [session] := by
    rw [findSession_eq] at hfind
    cases hlist : rowsFor sid s.shared with
    | nil => simp [hlist] at hfind
    | cons first rest =>
      have hlength := hinv.unique
      rw [hlist, length_cons] at hlength
      have hrest : rest = [] := eq_nil_of_length_eq_zero (by omega)
      rw [hlist, head?_cons] at hfind
      rw [hrest, some.inj hfind]
  have hcompleted : session.status = .completed → ∃ fileId versionId,
      session.fileId = some fileId ∧ session.completionVersionId = some versionId ∧
        fileId ≠ "" ∧ versionId ≠ "" ∧ createdFor sid s.shared = [(fileId, versionId)] := by
    intro hstatus
    rcases hinv.row with ⟨row, hrow, hnot, -⟩ | ⟨fileId, versionId, hcompleted, hcreated⟩ |
      ⟨hclosed, -⟩
    · have hsame : session = row := by
        have hlist := hrows.symm.trans hrow
        simpa using hlist
      exact absurd (hsame ▸ hstatus) hnot
    · obtain ⟨row, hrow, -, hfile, hversion, hfileNe, hversionNe⟩ := hcompleted
      have hsame : row = session := by
        have hlist := hrow.symm.trans hrows
        simpa using hlist
      subst hsame
      exact ⟨fileId, versionId, hfile, hversion, hfileNe, hversionNe, hcreated⟩
    · have haborted := hclosed session (by rw [hrows]; exact mem_singleton_self session)
      rw [hstatus] at haborted
      cases haborted
  rcases checkStatus_cases session now with
    ⟨_, heq⟩ | ⟨hstatus, -, -, heq⟩ | ⟨hstatus, hfalsy, _, heq⟩ | ⟨-, -, heq⟩
  · rw [heq]
    trivial
  · rw [heq]
    obtain ⟨fileId, versionId, hfile, hversion, -, -, hcreated⟩ := hcompleted hstatus
    rwa [hfile, hversion]
  · obtain ⟨fileId, versionId, hfile, hversion, hfileNe, hversionNe, -⟩ := hcompleted hstatus
    rw [isFalsy_some hfile hfileNe, isFalsy_some hversion hversionNe] at hfalsy
    rcases hfalsy with h | h
    · cases h
    · cases h
  · rw [heq]
    trivial

variable {caller : Caller}

theorem inv_stage (hinv : Inv sid s)
    (hcall : s.procs[i]? = some ⟨.completeSession sid caller, .completing session stage⟩)
    (hstage : Completes config s.shared session stage w phase)
    (hgoes : ∀ error, phase ≠ .threw error) (hown : Own ⟨.completeSession sid caller, phase⟩) :
    Inv sid ⟨w.apply s.shared, s.procs.set i ⟨.completeSession sid caller, phase⟩⟩ := by
  have hmine : CompletionOk sid s.shared (.completing session stage) := hinv.calls i _ hcall rfl
  have hnamed : Own ⟨.completeSession sid caller, .completing session stage⟩ := hinv.own i _ hcall
  have hid : session.uploadSessionId = sid := hnamed.1 session rfl
  have howner : Owning sid ⟨.completeSession sid caller, .completing session stage⟩ := rfl
  obtain ⟨hlive, hyielded, hnone⟩ := hmine
  cases hstage with
  | threw error => exact absurd rfl (hgoes error)
  | goesOn w stage' huntouched hmark hname hbefore =>
    have hview : SameView sid s.shared (w.apply s.shared) := sameView_apply (huntouched sid)
    refine inv_same hinv hcall hview hown ?_ ?_ (fun _ => rfl)
    · intro _
      refine ⟨live_same hview hlive, ?_, hview.usage.trans hnone⟩
      rw [hview.created, hyielded, yielded_of_not_mark hmark, yielded_of_not_mark hbefore]
    · intro _ j q hne hq
      exact hinv.single i j _ q hcall hq (fun h => hne h.symm) howner
  | creates upload fileId versionId content hcreate =>
    subst hcreate
    have hcreated := createdFor_create s.shared
      ⟨session.uploadSessionId, newVersion session upload fileId versionId, content⟩ hid
    have hempty : createdFor sid s.shared = [] := hyielded
    rw [hempty, nil_append] at hcreated
    refine inv_owner hinv hcall howner hown ?_ (.inr hempty) (.inl rfl) hinv.unique (.inl hlive)
      (fun _ => rfl) hinv.usage
    exact fun _ => ⟨hlive, hcreated, hnone⟩
  | marks fileId versionId hmark hrow =>
    subst hmark
    have hrows : rowsFor sid
        ((Write.setCompleted session.uploadSessionId fileId versionId).apply s.shared) =
        (rowsFor sid s.shared).map fun row => { row with
          status := .completed, fileId := some fileId, completionVersionId := some versionId } := by
      rw [hid]
      exact rowsFor_change fun _ => rfl
    obtain ⟨row, honly, -⟩ := id hlive
    have hproper : fileId ≠ "" ∧ versionId ≠ "" := hnamed.2 session _ rfl fileId versionId rfl
    have hcompleted : Completed sid fileId versionId
        ((Write.setCompleted session.uploadSessionId fileId versionId).apply s.shared) := by
      refine ⟨{ row with
        status := .completed, fileId := some fileId, completionVersionId := some versionId }, ?_,
        rfl, rfl, rfl, hproper.1, hproper.2⟩
      rw [hrows, honly]
      rfl
    refine inv_owner hinv hcall howner hown ?_ (.inl rfl) (.inr hlive) ?_
      (.inr ⟨fileId, versionId, hcompleted, hyielded⟩) ?_ hinv.usage
    · exact fun _ => ⟨hcompleted, hyielded, fun _ => hnone⟩
    · rw [hrows, length_map]
      exact hinv.unique
    · exact fun h => absurd h (not_live_of_completed hcompleted)

theorem inv_completion {before : Phase} (hinv : Inv sid s)
    (hcall : s.procs[i]? = some ⟨.completeSession sid caller, before⟩)
    (hcareful : Careful sid config s ⟨.completeSession sid caller, before⟩ c)
    (hnext : completeSession config s.shared sid caller before c = some (w, phase)) :
    Inv sid ⟨w.apply s.shared, s.procs.set i ⟨.completeSession sid caller, phase⟩⟩ := by
  have hmove := completeSession_completion hnext
  have hbefore : Own ⟨.completeSession sid caller, before⟩ := hinv.own i _ hcall
  have hown : Own ⟨.completeSession sid caller, phase⟩ := own_completion hmove hbefore
  have hmine : CompletionOk sid s.shared before := hinv.calls i _ hcall rfl
  cases hmove with
  | fails before error =>
    have hnot : ∀ session stage, before ≠ .completing session stage := by
      intro session stage heq
      subst heq
      have hid : session.uploadSessionId = sid := hbefore.1 session rfl
      have hpair : complete config s.shared session stage c = (.nothing, .threw error) :=
        some.inj hnext
      exact complete_smooth (hcareful hid) error (by rw [hpair])
    refine inv_same hinv hcall sameView_refl hown (fun _ => trivial) (fun h => False.elim h) ?_
    intro h
    cases before with
    | completing session stage => exact absurd rfl (hnot session stage)
    | _ => exact False.elim h
  | found session now hfind =>
    have hok : CompletionOk sid s.shared (checkStatus session now) := checkStatus_ok hinv hfind
    refine inv_same hinv hcall sameView_refl hown (fun _ => hok) ?_ (fun h => False.elim h)
    intro h
    rcases checkStatus_cases session now with ⟨_, heq⟩ | ⟨-, -, -, heq⟩ | ⟨-, -, _, heq⟩ | ⟨-, -, heq⟩
    all_goals
      rw [heq] at h
      exact False.elim h
  | legacy fileId found versionId => exact False.elim hmine
  | checks session before phase hfrom hto hold hsame =>
    refine inv_same hinv hcall sameView_refl hown (fun _ => ?_) (fun h => ?_) (fun h => ?_)
    · cases phase with
      | readParts session => trivial
      | checkQuota session parts => trivial
      | checkWrite session parts => trivial
      | _ => cases hto
    · cases phase with
      | readParts session | checkQuota session parts => exact False.elim h
      | checkWrite session parts => exact False.elim h
      | _ => cases hto
    · cases before with
      | readParts session => exact False.elim h
      | checkQuota session parts | checkWrite session parts => exact False.elim h
      | _ => cases hfrom
  | starts session parts stage hnamed hmark =>
    have hid : session.uploadSessionId = sid := hbefore.1 session rfl
    obtain ⟨hrow, hidle⟩ := hcareful hid
    have hlive : Live sid s.shared := exists_live hinv.unique hrow
    obtain ⟨hcreated, husage⟩ := hinv.idle hlive hidle
    refine inv_same hinv hcall sameView_refl hown (fun _ => ⟨hlive, ?_, husage⟩) ?_ (fun _ => rfl)
    · exact hcreated.trans (yielded_of_not_mark hmark).symm
    intro _ j q _ hq howning
    have hok : CallOk sid s.shared q := hinv.calls j q hq
    have hfree : ¬ Storing sid q := hidle q (mem_of_getElem? hq)
    obtain ⟨request, phase'⟩ := q
    cases request with
    | completeSession other caller' =>
      cases phase' with
      | completing session' stage' => exact hfree howning
      | closing session' fileId versionId stage' =>
        have hclosing : CompletionOk sid s.shared (.closing session' fileId versionId stage') :=
          hok howning.1
        exact not_live_of_completed hclosing.1 hlive
      | _ => exact howning
    | _ => exact howning
  | stage session stage w phase hstage =>
    refine inv_stage hinv hcall hstage (fun error heq => ?_) hown
    subst heq
    have hid : session.uploadSessionId = sid := hbefore.1 session rfl
    have hpair : complete config s.shared session stage c = (w, .threw error) :=
      some.inj hnext
    exact complete_smooth (hcareful hid) error (by rw [hpair])
  | rowsDeleted session fileId versionId stage hstage =>
    have hview : SameView sid s.shared
        ((Write.deleteParts session.uploadSessionId).apply s.shared) := ⟨rfl, rfl, rfl⟩
    obtain ⟨hcompleted, hcreated, hnone⟩ := hmine
    refine inv_same hinv hcall hview hown ?_ ?_ (fun h => False.elim h)
    · exact fun _ => ⟨hcompleted, hcreated, fun _ => hnone nofun⟩
    · intro _ j q hne hq
      exact hinv.single i j _ q hcall hq (fun h => hne h.symm) ⟨rfl, nofun⟩
  | recorded session fileId versionId record hrecord =>
    have hid : session.uploadSessionId = sid := hbefore.1 session rfl
    obtain ⟨hcompleted, hcreated, hnone⟩ := hmine
    have husage := usageFor_record s.shared record (hrecord.trans (congrArg some hid))
    rw [hnone nofun, nil_append] at husage
    refine inv_owner hinv hcall ⟨rfl, nofun⟩ hown ?_ (.inl rfl) (.inl rfl) hinv.unique
      (.inr ⟨fileId, versionId, hcompleted, hcreated⟩) ?_ ?_
    · exact fun _ => ⟨hcompleted, hcreated, fun h => absurd rfl h⟩
    · exact fun h => absurd h (not_live_of_completed hcompleted)
    · rw [husage]
      exact le_rfl
  | done session fileId versionId =>
    exact inv_same hinv hcall sameView_refl hown (fun _ => hmine.2.1) (fun h => False.elim h)
      (fun h => False.elim h)

theorem completion_touches {id : String} {before : Phase}
    (hmove : Completion config store id before w phase)
    (hown : Own ⟨.completeSession id caller, before⟩) (htouch : Touches sid w) : id = sid := by
  cases hmove with
  | stage session stage w phase hstage =>
    have hid : session.uploadSessionId = id := hown.1 session rfl
    cases hstage with
    | threw => cases htouch
    | goesOn w stage' huntouched => exact absurd htouch (huntouched sid)
    | creates | marks => exact hid.symm.trans htouch
  | recorded session fileId versionId record hrecord =>
    have hid : session.uploadSessionId = id := hown.1 session rfl
    have hsame : some session.uploadSessionId = some sid := hrecord.symm.trans htouch
    exact hid.symm.trans (some.inj hsame)
  | _ => cases htouch

theorem inv_step (s : Deployment) (a : Act Request Choice) (s' : Deployment) (hinv : Inv sid s)
    (hsteady : Steady sid config s a) (hstep : deploymentStep config s a = some s') :
    Inv sid s' := by
  rcases act_cases hstep with ⟨request, rfl, rfl⟩ | ⟨i, c, call, store', call', rfl, hcall, hnext, rfl⟩
  · exact inv_spawn hinv request
  obtain ⟨⟨w, phase⟩, hpair, hresult⟩ := map_eq_some_iff.mp hnext
  obtain ⟨rfl, rfl⟩ := Prod.mk.inj hresult
  have hcareful : Careful sid config s call c := hsteady call hcall
  by_cases hrequest : ∃ id caller, call.request = .completeSession id caller
  · obtain ⟨id, caller, hreq⟩ := hrequest
    obtain ⟨request, before⟩ := call
    subst hreq
    have hmove : completeSession config s.shared id caller before c = some (w, phase) := hpair
    have hcompletion := completeSession_completion hmove
    have hown : Own ⟨.completeSession id caller, before⟩ := hinv.own i _ hcall
    by_cases hid : id = sid
    · subst hid
      exact inv_completion hinv hcall hcareful hmove
    have huntouched : ¬ Touches sid w := fun h => hid (completion_touches hcompletion hown h)
    have hfree : ∀ phase, ¬ Owning sid ⟨.completeSession id caller, phase⟩ := by
      intro phase h
      cases phase with
      | completing session stage => exact hid h
      | closing session fileId versionId stage => exact hid h.1
      | _ => exact h
    refine inv_same hinv hcall (sameView_apply huntouched) (own_completion hcompletion hown)
      (fun h => absurd h hid) (fun h => absurd h (hfree phase)) (fun h => ?_)
    exact absurd (owning_of_storing sid h) (hfree before)
  · exact inv_other hinv hcall hcareful hpair fun id caller hreq => hrequest ⟨id, caller, hreq⟩

end Steps

end SuperFunctions.Filefn.CompletedOnce
