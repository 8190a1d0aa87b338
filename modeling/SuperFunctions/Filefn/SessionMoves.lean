import SuperFunctions.Filefn.UploadSessions

/-!
# What the calls do to one session

The row of a session, the versions it has yielded and the usage recorded for it change by few
writes. Outside the completions of the session these are the change of its status and the removal
of its row.
-/
namespace SuperFunctions.Filefn.SessionMoves

open Storage UploadSessions List Option

section View

variable (sid : String)

/-- The versions the session has yielded, by their file. -/
def createdFor (store : Store) : List (String × String) :=
  (store.created.filter (·.uploadSessionId = sid)).map fun creation =>
    (creation.version.fileId, creation.version.versionId)

def usageFor (store : Store) : List UsageRecord :=
  store.usage.filter (·.uploadSessionId = some sid)

/-- The write is about the session. -/
def Touches : Write → Prop
  | .setStatus id _ => id = sid
  | .setCompleted id _ _ => id = sid
  | .deleteSession id => id = sid
  | .deleteOpenSessions _ => True
  | .createVersion creation => creation.uploadSessionId = sid
  | .recordUsage record => record.uploadSessionId = some sid
  | _ => False

/-- The row of the session: one at most, as its id is unique. -/
def rowsFor (store : Store) : List UploadSession :=
  store.sessions.filter (·.uploadSessionId = sid)

structure SameView (store store' : Store) : Prop where
  rows : rowsFor sid store' = rowsFor sid store
  created : createdFor sid store' = createdFor sid store
  usage : usageFor sid store' = usageFor sid store

variable {sid} {store : Store}

theorem sameView_refl : SameView sid store store := ⟨rfl, rfl, rfl⟩

theorem findSession_eq (store : Store) : store.findSession sid = (rowsFor sid store).head? :=
  (head?_filter ..).symm

theorem rowsFor_updateSession (id : String) (change : UploadSession → UploadSession)
    (hid : ∀ session, (change session).uploadSessionId = session.uploadSessionId) :
    rowsFor sid (store.updateSession id change) =
      (rowsFor sid store).map fun session =>
        if session.uploadSessionId = id then change session else session := by
  unfold rowsFor Store.updateSession
  rw [List.filter_map]
  congr 1
  apply filter_congr
  intro session _
  dsimp only [Function.comp]
  split
  · rw [hid]
  · rfl

theorem rowsFor_filter (keep : UploadSession → Bool) :
    rowsFor sid { store with sessions := store.sessions.filter keep } =
      (rowsFor sid store).filter keep := by
  unfold rowsFor
  rw [List.filter_filter, List.filter_filter]
  congr 1
  funext session
  exact Bool.and_comm ..

theorem mem_rowsFor {row : UploadSession} (h : row ∈ rowsFor sid store) :
    row.uploadSessionId = sid := by
  have hrow := (mem_filter.mp h).2
  simpa using hrow

theorem rowsFor_change {change : UploadSession → UploadSession}
    (hid : ∀ session, (change session).uploadSessionId = session.uploadSessionId) :
    rowsFor sid (store.updateSession sid change) = (rowsFor sid store).map change := by
  rw [rowsFor_updateSession sid change hid]
  apply map_congr_left
  intro row hrow
  rw [if_pos (mem_rowsFor hrow)]

theorem rowsFor_other {id : String} {change : UploadSession → UploadSession} (hne : id ≠ sid)
    (hid : ∀ session, (change session).uploadSessionId = session.uploadSessionId) :
    rowsFor sid (store.updateSession id change) = rowsFor sid store := by
  rw [rowsFor_updateSession id change hid]
  calc (rowsFor sid store).map (fun session =>
        if session.uploadSessionId = id then change session else session)
      = (rowsFor sid store).map fun session => session := by
        apply map_congr_left
        intro row hrow
        rw [if_neg (fun heq => hne (heq.symm.trans (mem_rowsFor hrow)))]
    _ = rowsFor sid store := map_id' _

theorem sameView_apply {w : Write} (h : ¬ Touches sid w) : SameView sid store (w.apply store) := by
  cases w with
  | setStatus id status => exact ⟨rowsFor_other h fun _ => rfl, rfl, rfl⟩
  | setCompleted id fileId versionId => exact ⟨rowsFor_other h fun _ => rfl, rfl, rfl⟩
  | deleteSession id =>
    refine ⟨?_, rfl, rfl⟩
    have hrows : rowsFor sid ((Write.deleteSession id).apply store) =
        (rowsFor sid store).filter (·.uploadSessionId ≠ id) := rowsFor_filter _
    rw [hrows, filter_eq_self]
    intro row hrow
    have hne : row.uploadSessionId ≠ id := fun heq => h (heq.symm.trans (mem_rowsFor hrow))
    simpa using hne
  | deleteOpenSessions fileId => exact absurd trivial h
  | createVersion creation =>
    have hid : creation.uploadSessionId ≠ sid := h
    refine ⟨rfl, ?_, rfl⟩
    simp [Write.apply, createdFor, hid]
  | recordUsage record =>
    have hid : record.uploadSessionId ≠ some sid := h
    refine ⟨rfl, rfl, ?_⟩
    simp [Write.apply, usageFor, hid]
  | _ => exact ⟨rfl, rfl, rfl⟩

end View

section Completions

/-- The file and the version that a completion has chosen. -/
def Stage.named : Stage → Option (String × String)
  | .writeFile _ fileId versionId _ => some (fileId, versionId)
  | .createVersion _ fileId versionId => some (fileId, versionId)
  | .markCompleted fileId versionId => some (fileId, versionId)
  | _ => none

def Stage.isMark : Stage → Bool
  | .markCompleted _ _ => true
  | _ => false

/-- Both ids are proper ones. -/
def NamedOk (stage : Stage) : Prop :=
  ∀ fileId versionId, Stage.named stage = some (fileId, versionId) → fileId ≠ "" ∧ versionId ≠ ""

variable {config : Config} {store : Store} {session : UploadSession} {stage : Stage} {c : Choice}

theorem namedOk_of_none (h : Stage.named stage = none) : NamedOk stage := by
  intro fileId versionId hnamed
  rw [h] at hnamed
  cases hnamed

theorem namedOk_of_eq {stage' : Stage} (h : Stage.named stage' = Stage.named stage)
    (hok : NamedOk stage) : NamedOk stage' := by
  intro fileId versionId hnamed
  exact hok fileId versionId (h ▸ hnamed)

/-- Everything a stage of a completion can do. -/
inductive Completes (config : Config) (store : Store) (session : UploadSession) (stage : Stage) :
    Write → Phase → Prop
  | threw (error : FileFnError) : Completes config store session stage .nothing (.threw error)
  | goesOn (w : Write) (stage' : Stage) (huntouched : ∀ sid, ¬ Touches sid w)
      (hmark : Stage.isMark stage' = false) (hnamed : NamedOk stage → NamedOk stage')
      (hbefore : Stage.isMark stage = false) :
      Completes config store session stage w (.completing session stage')
  | creates (upload : Upload) (fileId versionId : String) (content : Bytes)
      (hstage : stage = .createVersion upload fileId versionId) :
      Completes config store session stage
        (.createVersion ⟨session.uploadSessionId, newVersion session upload fileId versionId, content⟩)
        (.completing session (.markCompleted fileId versionId))
  | marks (fileId versionId : String) (hstage : stage = .markCompleted fileId versionId)
      (hrow : (store.findSession session.uploadSessionId).isSome = true) :
      Completes config store session stage
        (.setCompleted session.uploadSessionId fileId versionId)
        (.closing session fileId versionId .deletePartRows)

theorem Completes.passes {w : Write} {stage' : Stage} (huntouched : ∀ sid, ¬ Touches sid w)
    (hmark : Stage.isMark stage' = false) (hnamed : Stage.named stage' = none)
    (hbefore : Stage.isMark stage = false) :
    Completes config store session stage w (.completing session stage') :=
  .goesOn w stage' huntouched hmark (fun _ => namedOk_of_none hnamed) hbefore

theorem useDuplicate_named (checksum : String) (content : Bytes)
    (found : Option FileVersionRecord) :
    Stage.named (useDuplicate session checksum content found) = none ∧
      Stage.isMark (useDuplicate session checksum content found) = false := by
  unfold useDuplicate
  split
  · exact ⟨rfl, rfl⟩
  split
  · exact ⟨rfl, rfl⟩
  · split
    · exact ⟨rfl, rfl⟩
    · exact ⟨rfl, rfl⟩

theorem not_falsy {value : Option String} (h : ¬ isFalsy value = true) : value.getD "" ≠ "" := by
  intro hempty
  apply h
  cases value with
  | none => rfl
  | some text =>
    have htext : text = "" := hempty
    rw [htext]
    rfl

theorem append_ne_empty (text : String) : "ver_" ++ text ≠ "" ∧ "file_" ++ text ≠ "" := by
  constructor
  · intro h
    have hleft := congrArg String.length h
    simp at hleft
  · intro h
    have hleft := congrArg String.length h
    simp at hleft

theorem complete_completes :
    Completes config store session stage (complete config store session stage c).1
      (complete config store session stage c).2 := by
  cases stage with
  | completeMultipart parts | hash =>
    dsimp only [complete]
    split
    · exact .passes (fun _ => id) rfl rfl rfl
    · exact .threw _
  | openUpload parts =>
    dsimp only [complete]
    split
    · exact .threw _
    · exact .passes (fun _ => id) rfl rfl rfl
  | stitch parts rest stitched =>
    cases rest with
    | nil =>
      dsimp only [complete]
      split
      · exact .threw _
      · exact .passes (fun _ => id) rfl rfl rfl
    | cons part rest =>
      dsimp only [complete]
      split
      · exact .passes (fun _ => id) rfl rfl rfl
      · exact .threw _
  | dropParts rest =>
    cases rest with
    | nil => exact .passes (fun _ => id) rfl rfl rfl
    | cons part rest =>
      dsimp only [complete]
      refine .passes (fun _ => ?_) rfl rfl rfl
      split
      · exact id
      · exact id
  | stat =>
    have hnext : ∀ dedup : Bool, Completes config store session .stat .nothing
        (.completing session (if dedup = true then .hash
          else .findFile ⟨session.storageKey, none, none⟩)) := by
      intro dedup
      cases dedup
      · exact .passes (fun _ => id) rfl rfl rfl
      · exact .passes (fun _ => id) rfl rfl rfl
    dsimp only [complete]
    split
    · split
      · exact .threw _
      · exact hnext _
    · exact hnext _
  | findDuplicates checksum content =>
    dsimp only [complete]
    split
    · exact .threw _
    · split
      · exact .passes (fun _ => id) (useDuplicate_named _ _ _).2 (useDuplicate_named _ _ _).1 rfl
      · exact .passes (fun _ => id) rfl rfl rfl
  | resolveDuplicates checksum content rest =>
    cases rest with
    | nil =>
      exact .passes (fun _ => id) (useDuplicate_named _ _ _).2 (useDuplicate_named _ _ _).1 rfl
    | cons version rest =>
      dsimp only [complete]
      split
      · exact .threw _
      · split
        · exact .passes (fun _ => id) (useDuplicate_named _ _ _).2 (useDuplicate_named _ _ _).1 rfl
        · exact .passes (fun _ => id) rfl rfl rfl
  | dropUpload upload =>
    dsimp only [complete]
    refine .passes (fun _ => ?_) rfl rfl rfl
    split
    · exact id
    · exact id
  | findFile upload =>
    dsimp only [complete]
    split
    · exact .threw _
    split
    · refine .goesOn _ _ (fun _ => id) rfl (fun _ => ?_) rfl
      intro fileId versionId hnamed
      cases hnamed
      exact ⟨(append_ne_empty _).2, (append_ne_empty _).1⟩
    · rename_i hproper
      refine .goesOn _ _ (fun _ => id) rfl (fun _ => ?_) rfl
      intro fileId versionId hnamed
      cases hnamed
      exact ⟨not_falsy hproper, (append_ne_empty _).1⟩
  | writeFile upload fileId versionId existing =>
    cases existing with
    | true | false =>
      dsimp only [complete]
      split
      · exact .threw _
      · exact .goesOn _ _ (fun _ => id) rfl (namedOk_of_eq rfl) rfl
  | createVersion upload fileId versionId =>
    dsimp only [complete]
    split
    · exact .threw _
    · exact .creates upload fileId versionId _ rfl
  | markCompleted fileId versionId =>
    dsimp only [complete]
    split
    · exact .threw _
    · rename_i hrow
      refine .marks fileId versionId rfl ?_
      simp only [Bool.or_eq_true, not_or, isNone_iff_eq_none] at hrow
      exact isSome_iff_ne_none.mpr hrow.2

end Completions

section Calls

variable {config : Config} {store : Store} {c : Choice} {w : Write} {phase phase' : Phase}
  {id sid : String} {caller : Caller}

/-- The session that a completion or an abort works on. -/
def sessionOf : Phase → Option UploadSession
  | .readParts session => some session
  | .checkQuota session _ => some session
  | .checkWrite session _ => some session
  | .completing session _ => some session
  | .closing session _ _ _ => some session
  | .discarding session _ _ => some session
  | .markAborted session => some session
  | _ => none

def isChecking : Phase → Bool
  | .readParts _ => true
  | .checkQuota _ _ => true
  | .checkWrite _ _ => true
  | _ => false

/-- Everything a step of a completion can do. -/
inductive Completion (config : Config) (store : Store) (id : String) : Phase → Write → Phase → Prop
  | fails (phase : Phase) (error : FileFnError) :
      Completion config store id phase .nothing (.threw error)
  | found (session : UploadSession) (now : Int) (hfind : store.findSession id = some session) :
      Completion config store id .entered .nothing (checkStatus session now)
  | legacy (fileId found versionId : String) :
      Completion config store id (.legacyFile fileId) .nothing (.completed found versionId)
  | checks (session : UploadSession) (phase phase' : Phase) (hfrom : isChecking phase = true)
      (hto : isChecking phase' = true) (hsession : sessionOf phase = some session)
      (hsame : sessionOf phase' = some session) :
      Completion config store id phase .nothing phase'
  | starts (session : UploadSession) (parts : List UploadPart) (stage : Stage)
      (hnamed : Stage.named stage = none) (hmark : Stage.isMark stage = false) :
      Completion config store id (.checkWrite session parts) .nothing (.completing session stage)
  | stage (session : UploadSession) (stage : Stage) (w : Write) (phase : Phase)
      (hstage : Completes config store session stage w phase) :
      Completion config store id (.completing session stage) w phase
  | rowsDeleted (session : UploadSession) (fileId versionId : String) (stage : ClosingStage)
      (hstage : stage ≠ .deletePartRows) :
      Completion config store id (.closing session fileId versionId .deletePartRows)
        (.deleteParts session.uploadSessionId) (.closing session fileId versionId stage)
  | recorded (session : UploadSession) (fileId versionId : String) (record : UsageRecord)
      (hrecord : record.uploadSessionId = some session.uploadSessionId) :
      Completion config store id (.closing session fileId versionId .recordUsage)
        (.recordUsage record) (.closing session fileId versionId .triggerProcessing)
  | done (session : UploadSession) (fileId versionId : String) :
      Completion config store id (.closing session fileId versionId .triggerProcessing) .nothing
        (.completed fileId versionId)

theorem withSession_cases (config : Config) (store : Store) (id : String) (caller : Caller)
    (onFound : UploadSession → Phase) :
    (∃ error, withSession config store id caller onFound = .threw error) ∨
      ∃ session, store.findSession id = some session ∧
        withSession config store id caller onFound = onFound session := by
  unfold withSession
  cases hfind : store.findSession id with
  | none => exact .inl ⟨_, rfl⟩
  | some session =>
    dsimp only
    cases assertSessionAccess config session caller with
    | error error => exact .inl ⟨_, rfl⟩
    | ok _ => exact .inr ⟨session, rfl, rfl⟩

variable {session : UploadSession}

theorem findSession_id (h : store.findSession id = some session) :
    session.uploadSessionId = id := by
  have hfound := find?_some h
  simpa using hfound

theorem startCompletion_cases (config : Config) (session : UploadSession) (parts : List UploadPart) :
    (∃ error, startCompletion config session parts = .threw error) ∨
      ∃ stage, startCompletion config session parts = .completing session stage ∧
        Stage.named stage = none ∧ Stage.isMark stage = false := by
  unfold startCompletion
  split
  · exact .inr ⟨_, rfl, rfl, rfl⟩
  split
  · split
    · exact .inr ⟨_, rfl, rfl, rfl⟩
    · exact .inl ⟨_, rfl⟩
  · exact .inr ⟨_, rfl, rfl, rfl⟩

theorem starts_completion (session : UploadSession) (parts : List UploadPart) :
    Completion config store id (.checkWrite session parts) .nothing
      (startCompletion config session parts) := by
  rcases startCompletion_cases config session parts with
    ⟨error, heq⟩ | ⟨stage, heq, hnamed, hmark⟩
  · rw [heq]
    exact .fails _ _
  · rw [heq]
    exact .starts session parts stage hnamed hmark

theorem close_completion {fileId versionId : String} {stage : ClosingStage} :
    Completion config store id (.closing session fileId versionId stage)
      (close config session caller fileId versionId stage c).1
      (close config session caller fileId versionId stage c).2 := by
  unfold close
  split
  · exact .fails _ _
  cases stage with
  | deletePartRows =>
    apply Completion.rowsDeleted
    split
    · decide
    · decide
  | recordUsage => exact .recorded session fileId versionId _ rfl
  | triggerProcessing => exact .done session fileId versionId

theorem completeSession_completion
    (h : completeSession config store id caller phase c = some (w, phase')) :
    Completion config store id phase w phase' := by
  cases phase with
  | entered =>
    cases h
    split
    · exact .fails _ _
    rcases withSession_cases config store id caller fun session => checkStatus session c.now with
      ⟨error, heq⟩ | ⟨session, hfind, heq⟩
    · rw [heq]
      exact .fails _ _
    · rw [heq]
      exact .found session c.now hfind
  | legacyFile fileId =>
    cases h
    split
    · exact .fails _ _
    · split
      · exact .legacy fileId _ _
      · exact .fails _ _
  | readParts session =>
    cases h
    split
    · exact .fails _ _
    · split
      · exact .fails _ _
      · exact .checks session _ _ rfl rfl rfl rfl
  | checkQuota session parts =>
    cases h
    split
    · exact .checks session _ _ rfl rfl rfl rfl
    split
    · exact .fails _ _
    · split
      · exact .fails _ _
      · exact .checks session _ _ rfl rfl rfl rfl
  | checkWrite session parts =>
    cases h
    split
    · exact starts_completion session parts
    split
    · exact .fails _ _
    · split
      · exact .fails _ _
      · exact starts_completion session parts
  | completing session stage =>
    have hpair : complete config store session stage c = (w, phase') := some.inj h
    have hcompletes : Completes config store session stage
        (complete config store session stage c).1 (complete config store session stage c).2 :=
      complete_completes
    rw [hpair] at hcompletes
    exact .stage session stage w phase' hcompletes
  | closing session fileId versionId stage =>
    have hpair : close config session caller fileId versionId stage c = (w, phase') :=
      some.inj h
    have hcloses : Completion config store id (.closing session fileId versionId stage)
        (close config session caller fileId versionId stage c).1
        (close config session caller fileId versionId stage c).2 := close_completion
    rwa [hpair] at hcloses
  | _ => cases h

theorem checkStatus_cases (session : UploadSession) (now : Int) :
    (∃ error, checkStatus session now = .threw error) ∨
      (session.status = .completed ∧ isFalsy session.fileId = false ∧
        isFalsy session.completionVersionId = false ∧
        checkStatus session now =
          .completed (session.fileId.getD "") (session.completionVersionId.getD "")) ∨
      (session.status = .completed ∧
        (isFalsy session.fileId = true ∨ isFalsy session.completionVersionId = true) ∧
        ∃ fileId, checkStatus session now = .legacyFile fileId) ∨
      session.status ≠ .completed ∧ session.status ≠ .aborted ∧
        checkStatus session now = .readParts session := by
  unfold checkStatus
  split
  · exact .inl ⟨_, rfl⟩
  · rename_i hcompleted
    by_cases hfile : isFalsy session.fileId = true
    · rw [if_neg (by simp [hfile])]
      exact .inr (.inr (.inl ⟨hcompleted, .inl hfile, _, rfl⟩))
    by_cases hversion : isFalsy session.completionVersionId = true
    · rw [if_neg (by simp [hversion])]
      exact .inr (.inr (.inl ⟨hcompleted, .inr hversion, _, rfl⟩))
    · rw [Bool.not_eq_true] at hfile hversion
      rw [if_pos (by simp [hfile, hversion])]
      exact .inr (.inl ⟨hcompleted, hfile, hversion, rfl⟩)
  · rename_i haborted hcompleted
    split
    · exact .inl ⟨_, rfl⟩
    · exact .inr (.inr (.inr ⟨hcompleted, haborted, rfl⟩))

/-- A completion and an abort work on the session they were called for. -/
def Own : Call → Prop
  | ⟨.completeSession id _, phase⟩ =>
    (∀ session, sessionOf phase = some session → session.uploadSessionId = id) ∧
      ∀ session stage, phase = .completing session stage → NamedOk stage
  | ⟨.abortSession id _, phase⟩ =>
    (∀ session, sessionOf phase = some session → session.uploadSessionId = id) ∧
      ∀ session discarder stage, phase = .discarding session discarder stage →
        discarder = .abortSession
  | _ => True

theorem own_of_none {call : Call} (h : sessionOf call.phase = none) : Own call := by
  obtain ⟨request, phase⟩ := call
  have hnone : ∀ session, sessionOf phase ≠ some session := by
    intro session hsome
    rw [show sessionOf phase = none from h] at hsome
    cases hsome
  cases request with
  | completeSession id caller =>
    refine ⟨fun session hsome => absurd hsome (hnone session), ?_⟩
    intro session stage heq
    subst heq
    cases h
  | abortSession id caller =>
    refine ⟨fun session hsome => absurd hsome (hnone session), ?_⟩
    intro session discarder stage heq
    subst heq
    cases h
  | _ => trivial

theorem own_completion (hmove : Completion config store id phase w phase')
    (hown : Own ⟨.completeSession id caller, phase⟩) :
    Own ⟨.completeSession id caller, phase'⟩ := by
  obtain ⟨hsession, hstages⟩ := hown
  cases hmove with
  | fails | legacy | done session fileId versionId => exact own_of_none rfl
  | found session now hfind =>
    rcases checkStatus_cases session now with ⟨_, heq⟩ | ⟨-, -, -, heq⟩ | ⟨-, -, _, heq⟩ | ⟨-, -, heq⟩
    · rw [heq]
      exact own_of_none rfl
    · rw [heq]
      exact own_of_none rfl
    · rw [heq]
      exact own_of_none rfl
    · rw [heq]
      refine ⟨fun other h => ?_, fun _ _ h => by cases h⟩
      have hsame : session = other := some.inj h
      exact hsame ▸ findSession_id hfind
  | checks session phase phase' hfrom hto hold hnew =>
    refine ⟨fun other h => ?_, fun other stage h => ?_⟩
    · have hsame : session = other := some.inj (hnew.symm.trans h)
      exact hsame ▸ hsession session hold
    · rw [h] at hto
      cases hto
  | starts session parts stage hnamed hmark =>
    refine ⟨hsession, fun other stage' h => ?_⟩
    cases h
    exact namedOk_of_none hnamed
  | stage session stage w phase hstage =>
    have hname : NamedOk stage := hstages session stage rfl
    cases hstage with
    | threw => exact own_of_none rfl
    | goesOn w stage' huntouched hmark hnamed hbefore =>
      refine ⟨hsession, fun other stage'' h => ?_⟩
      cases h
      exact hnamed hname
    | creates upload fileId versionId content hcreate =>
      refine ⟨hsession, fun other stage'' h => ?_⟩
      cases h
      subst hcreate
      exact namedOk_of_eq rfl hname
    | marks fileId versionId hcreate hrow => exact ⟨hsession, fun _ _ h => by cases h⟩
  | rowsDeleted session fileId versionId stage hstage
  | recorded session fileId versionId record hrecord =>
    exact ⟨hsession, fun _ _ h => by cases h⟩

theorem discard_cases (config : Config) (store : Store) (c : Choice) (session : UploadSession)
    (discarder : Discarder) (stage : DiscardStage) :
    (∀ sid, ¬ Touches sid (discardSession config store session discarder stage c).1) ∧
      ((∃ error, (discardSession config store session discarder stage c).2 = .threw error) ∨
        (∃ stage', (discardSession config store session discarder stage c).2 =
          .discarding session discarder stage') ∨
        (discardSession config store session discarder stage c).2 = afterDiscard session discarder) := by
  cases stage with
  | abortMultipart =>
    refine ⟨fun sid => ?_, .inr (.inl ⟨_, rfl⟩)⟩
    show ¬ Touches sid (abortMultipart config session discarder c)
    unfold abortMultipart
    dsimp only
    split
    · exact id
    · exact id
  | readParts =>
    unfold discardSession
    dsimp only
    split
    · exact ⟨fun _ => id, .inl ⟨_, rfl⟩⟩
    · split
      · exact ⟨fun _ => id, .inr (.inl ⟨_, rfl⟩)⟩
      · exact ⟨fun _ => id, .inr (.inl ⟨_, rfl⟩)⟩
  | dropParts rest =>
    cases rest with
    | nil => exact ⟨fun _ => id, .inr (.inl ⟨_, rfl⟩)⟩
    | cons part rest =>
      refine ⟨fun sid => ?_, .inr (.inl ⟨_, rfl⟩)⟩
      dsimp only [discardSession]
      split
      · exact id
      · exact id
  | deleteRows =>
    unfold discardSession
    dsimp only
    split
    · exact ⟨fun _ => id, .inl ⟨_, rfl⟩⟩
    · exact ⟨fun _ => id, .inr (.inr rfl)⟩

theorem own_abort (h : abortSession config store id caller phase c = some (w, phase'))
    (hown : Own ⟨.abortSession id caller, phase⟩) :
    Own ⟨.abortSession id caller, phase'⟩ ∧ (phase' = .finished →
      ∃ session, phase = .markAborted session ∧ session.uploadSessionId = id ∧
        w = .setStatus id .aborted) := by
  obtain ⟨hsession, hdiscarder⟩ := hown
  have hnone : ∀ error, Own ⟨.abortSession id caller, .threw error⟩ :=
    fun error => own_of_none rfl
  cases phase with
  | entered =>
    cases h
    split
    · exact ⟨hnone _, fun h => by cases h⟩
    rcases withSession_cases config store id caller fun session =>
      if session.status = .completed then .threw .uploadAlreadyCompleted
      else .discarding session .abortSession .abortMultipart with
      ⟨error, heq⟩ | ⟨session, hfind, heq⟩
    · rw [heq]
      exact ⟨hnone _, fun h => by cases h⟩
    rw [heq]
    split
    · exact ⟨hnone _, fun h => by cases h⟩
    refine ⟨⟨fun other h => ?_, fun other discarder stage h => ?_⟩, fun h => by cases h⟩
    · have hsame : session = other := some.inj h
      exact hsame ▸ findSession_id hfind
    · cases h
      rfl
  | discarding session discarder stage =>
    have hpair : discardSession config store session discarder stage c = (w, phase') := some.inj h
    have hmine : discarder = .abortSession := hdiscarder session discarder stage rfl
    obtain ⟨-, hcases⟩ := discard_cases config store c session discarder stage
    rw [hpair] at hcases
    rcases hcases with ⟨error, heq⟩ | ⟨stage', heq⟩ | heq
    · dsimp only at heq
      subst heq
      exact ⟨hnone _, fun h => by cases h⟩
    · dsimp only at heq
      subst heq
      refine ⟨⟨hsession, fun other discarder' stage'' h => ?_⟩, fun h => by cases h⟩
      cases h
      exact hmine
    · dsimp only at heq
      subst hmine heq
      exact ⟨⟨hsession, fun _ _ _ h => by cases h⟩, fun h => by cases h⟩
  | markAborted session =>
    unfold abortSession at h
    dsimp only at h
    have hid : session.uploadSessionId = id := hsession session rfl
    split at h
    · cases h
      exact ⟨hnone _, fun h => by cases h⟩
    · cases h
      exact ⟨own_of_none rfl, fun _ => ⟨session, rfl, hid, by rw [hid]⟩⟩
  | _ => cases h

/-- The session that a part is uploaded to. -/
def partSession : Request → Option String
  | .uploadPartBytes id _ _ _ => some id
  | .completePart id _ _ _ _ => some id
  | _ => none

/-- What the other calls can do to the session. -/
inductive Outside (sid : String) (request : Request) : Phase → Write → Phase → Prop
  | inProgress (session : UploadSession) (hpart : partSession request = some sid) :
      Outside sid request (.markInProgress session) (.setStatus sid .in_progress) .finished
  | aborted (session : UploadSession) (hid : session.uploadSessionId = sid) :
      Outside sid request (.markAborted session) (.setStatus sid .aborted) .finished
  | deleted (session : UploadSession) (rest : List UploadSession) (phase : Phase)
      (hid : session.uploadSessionId = sid) :
      Outside sid request (.deleteSession session rest) (.deleteSession sid) phase
  | dropped (doomed : Doomed) (refs : List Ref) (phase : Phase) :
      Outside sid request (.deleting (.dropSessions doomed refs))
        (.deleteOpenSessions doomed.file.fileId) phase

variable {request : Request}

theorem recordPart_outside {partNumber : Nat} {input : PartInput}
    (hpart : partSession request = some id)
    (h : recordPart config store id partNumber input caller phase c = some (w, phase'))
    (htouch : Touches sid w) : Outside sid request phase w phase' := by
  cases phase with
  | entered | findPart session =>
    cases h
    cases htouch
  | writePart session | createPart session =>
    unfold recordPart at h
    dsimp only at h
    split at h
    · cases h
      cases htouch
    · cases h
      cases htouch
  | markInProgress session =>
    unfold recordPart at h
    dsimp only at h
    split at h
    · cases h
      cases htouch
    · cases h
      have hid : id = sid := htouch
      subst hid
      exact .inProgress session hpart
  | _ => cases h

theorem discard_outside {discarder : Discarder} {stage : DiscardStage}
    (h : some (discardSession config store session discarder stage c) = some (w, phase')) :
    ¬ Touches sid w := by
  have hpair : discardSession config store session discarder stage c = (w, phase') := some.inj h
  have huntouched := (discard_cases config store c session discarder stage).1 sid
  rwa [hpair] at huntouched

theorem abortSession_outside (h : abortSession config store id caller phase c = some (w, phase'))
    (htouch : Touches sid w) : Outside sid request phase w phase' := by
  cases phase with
  | entered =>
    cases h
    cases htouch
  | discarding session discarder stage => exact absurd htouch (discard_outside h)
  | markAborted session =>
    unfold abortSession at h
    dsimp only at h
    split at h
    · cases h
      cases htouch
    · cases h
      have hid : session.uploadSessionId = sid := htouch
      rw [hid]
      exact .aborted session hid
  | _ => cases h

theorem cleanup_outside (h : cleanupExpiredSessions config store phase c = some (w, phase'))
    (htouch : Touches sid w) : Outside sid request phase w phase' := by
  cases phase with
  | entered =>
    cases h
    cases htouch
  | discarding session discarder stage => exact absurd htouch (discard_outside h)
  | deleteSession session rest =>
    unfold cleanupExpiredSessions at h
    dsimp only at h
    split at h
    · cases h
      cases htouch
    · cases h
      have hid : session.uploadSessionId = sid := htouch
      rw [hid]
      exact .deleted session rest _ hid
  | _ => cases h

theorem deleteFile_outside {fileId : String}
    (h : deleteFile config store fileId phase c = some (w, phase')) (htouch : Touches sid w) :
    Outside sid request phase w phase' := by
  cases phase with
  | entered =>
    cases h
    cases htouch
  | discarding session discarder stage => exact absurd htouch (discard_outside h)
  | deleting stage =>
    have hpair : delete config store stage c = (w, phase') := some.inj h
    have hwrite : w = (delete config store stage c).1 := by rw [hpair]
    cases stage with
    | dropObjects doomed rest freed =>
      cases rest with
      | nil =>
        subst hwrite
        cases htouch
      | cons ref rest =>
        subst hwrite
        dsimp only [delete] at htouch
        split at htouch
        · cases htouch
        · cases htouch
    | dropSessions doomed refs =>
      dsimp only [delete] at hpair
      split at hpair
      · obtain ⟨rfl, rfl⟩ := Prod.mk.inj hpair
        cases htouch
      · obtain ⟨rfl, rfl⟩ := Prod.mk.inj hpair
        exact .dropped doomed refs _
    | _ =>
      subst hwrite
      dsimp only [delete] at htouch
      split at htouch
      · cases htouch
      · cases htouch
  | _ => cases h

theorem next_outside {call : Call} (h : next config store call c = some (w, phase'))
    (hrequest : ∀ id caller, call.request ≠ .completeSession id caller)
    (htouch : Touches sid w) : Outside sid call.request call.phase w phase' := by
  unfold UploadSessions.next at h
  cases hcall : call.request with
  | completeSession id caller => exact absurd hcall (hrequest id caller)
  | abortSession id caller =>
    rw [hcall] at h
    exact abortSession_outside h htouch
  | uploadPartBytes id partNumber body caller | completePart id partNumber etag size caller =>
    rw [hcall] at h
    exact recordPart_outside rfl h htouch
  | cleanupExpiredSessions =>
    rw [hcall] at h
    exact cleanup_outside h htouch
  | deleteFile fileId caller =>
    rw [hcall] at h
    exact deleteFile_outside h htouch
  | putStoredPart uploadId part =>
    rw [hcall] at h
    dsimp only at h
    split at h
    · cases h
      cases htouch
    · cases h

end Calls

end SuperFunctions.Filefn.SessionMoves
