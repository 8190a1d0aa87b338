import SuperFunctions.Filefn.CompletedOnce

/-!
# A completion that is tried again

As long as a session is live and its parts are there, a completion that meets no failure goes
through and yields a version with the bytes of the parts.
-/
namespace SuperFunctions.Filefn.Retries

open Lib.Processes Lib.Transition Storage UploadSessions SessionMoves CompletedOnce Option Function

section Reaching

variable (config : Config) (request : Request) (c : Choice)

/-- One step of the call, with nothing in between. -/
def Step (a b : Store × Phase) : Prop :=
  ∃ w, next config a.1 ⟨request, a.2⟩ c = some (w, b.2) ∧ b.1 = w.apply a.1

abbrev Reaches : Store × Phase → Store × Phase → Prop := Relation.ReflTransGen (Step config request c)

variable {config request c}

theorem step_intro {store : Store} {phase phase' : Phase} {w : Write}
    (h : next config store ⟨request, phase⟩ c = some (w, phase')) :
    Step config request c (store, phase) (w.apply store, phase') := ⟨w, h, rfl⟩

theorem reaches_run {a b : Store × Phase} (h : Reaches config request c a b) {procs : List Call}
    {i : Nat} (hcall : procs[i]? = some ⟨request, a.2⟩) :
    ∃ n, run (deploymentStep config) ⟨a.1, procs⟩ (List.replicate n (.move i c)) =
      some ⟨b.1, procs.set i ⟨request, b.2⟩⟩ := by
  induction h using Relation.ReflTransGen.head_induction_on generalizing procs with
  | refl =>
    refine ⟨0, ?_⟩
    have hset : procs.set i ⟨request, b.2⟩ = procs := by
      obtain ⟨hlt, hget⟩ := List.getElem?_eq_some_iff.mp hcall
      rw [← hget, List.set_getElem_self]
    rw [hset]
    rfl
  | @head x y hstep hrest ih =>
    obtain ⟨w, hnext, hstore⟩ := hstep
    have hlt : i < procs.length := (List.getElem?_eq_some_iff.mp hcall).1
    have hmoved : (procs.set i ⟨request, y.2⟩)[i]? = some ⟨request, y.2⟩ :=
      List.getElem?_set_self hlt
    obtain ⟨n, hrun⟩ := ih hmoved
    refine ⟨n + 1, ?_⟩
    have hmove : deploymentStep config ⟨x.1, procs⟩ (.move i c) =
        some ⟨y.1, procs.set i ⟨request, y.2⟩⟩ := by
      unfold deploymentStep act step
      dsimp only
      rw [hcall, Option.bind_some, hnext, hstore]
      rfl
    rw [List.replicate_succ, run, hmove]
    rwa [List.set_set] at hrun

end Reaching

section Bytes

variable (config : Config) (store : Store) (session : UploadSession)

/-- The part objects one after the other. -/
def stitched : List UploadPart → Option Bytes
  | [] => some []
  | part :: rest =>
    (store.objects (config.partRef session part.partNumber)).bind fun bytes =>
      (stitched rest).map fun more => bytes ++ more

/-- The bytes that a completion finds in the storage, by the mode of the session. -/
def Held (parts : List UploadPart) (bytes : Bytes) : Prop :=
  match startCompletion config session parts with
  | .completing _ (.completeMultipart _) =>
    ∃ uploadId stored, session.storageUploadId = some uploadId ∧
      store.uploads uploadId = some stored ∧ assemble stored (byPartNumber parts) = some bytes
  | .completing _ (.openUpload _) => stitched config store session (byPartNumber parts) = some bytes
  | .completing _ _ => store.objects (config.uploadRef session) = some bytes
  | _ => False

/-- The session can be completed with these bytes. -/
structure Ready (sid : String) (caller : Caller) (now : Int) (bytes : Bytes) : Prop where
  row : rowsFor sid store = [session]
  live : IsLive session
  access : assertSessionAccess config session caller = .ok ()
  unexpired : isExpiredAt session.expiresAt now = false
  parts : (store.partsOf sid).length = session.totalParts
  held : Held config store session (store.partsOf sid) bytes
  size : bytes.length = session.size
  streams : config.dedup = true → config.streams = true

end Bytes

/-- Nothing but objects, multipart uploads and rows of parts has changed. -/
structure SameTables (store store' : Store) : Prop where
  files : store'.files = store.files
  versions : store'.versions = store.versions
  sessions : store'.sessions = store.sessions
  created : store'.created = store.created

theorem SameTables.trans {a b c : Store} (h : SameTables a b) (h' : SameTables b c) :
    SameTables a c :=
  ⟨h'.files.trans h.files, h'.versions.trans h.versions, h'.sessions.trans h.sessions,
    h'.created.trans h.created⟩

section Stages

variable {config : Config} {store : Store} {session : UploadSession} {caller : Caller} {c : Choice}
  {sid : String} {bytes : Bytes}

theorem proxyPartKey_ne (key : String) (n : Nat) : Config.proxyPartKey key n ≠ key := by
  intro h
  have hlength := congrArg String.length h
  have hpart : ".part".length = 5 := rfl
  simp only [Config.proxyPartKey, String.length_append] at hlength
  omega

theorem partRef_ne (config : Config) (session : UploadSession) (n : Nat) :
    config.partRef session n ≠ config.uploadRef session := by
  intro h
  exact proxyPartKey_ne _ _ (congrArg Ref.key h)

theorem completing_step {stage : Stage} {w : Write} {phase : Phase}
    (h : complete config store session stage c = (w, phase)) :
    Step config (.completeSession sid caller) c (store, .completing session stage)
      (w.apply store, phase) :=
  step_intro (congrArg some h)

theorem reaches_checked {now : Int} (hready : Ready config store session sid caller now bytes)
    (hnow : c.now = now) (hfails : c.fails = false) (hallowed : c.allowed = true)
    (hauthorized : c.authorized = true) :
    Reaches config (.completeSession sid caller) c (store, .entered)
      (store, startCompletion config session (store.partsOf sid)) := by
  have hfind : store.findSession sid = some session := by
    rw [findSession_eq, hready.row]
    rfl
  have hstatus : checkStatus session c.now = .readParts session := by
    obtain ⟨hcompleted, haborted⟩ := hready.live
    unfold checkStatus
    split
    · exact absurd ‹_› haborted
    · exact absurd ‹_› hcompleted
    · rw [hnow, hready.unexpired]
      rfl
  have hentered : next config store ⟨.completeSession sid caller, .entered⟩ c =
      some (.nothing, .readParts session) := by
    show completeSession config store sid caller .entered c = _
    simp only [completeSession, withSession, hfails, hfind, hready.access, hstatus]
    rfl
  have hread : next config store ⟨.completeSession sid caller, .readParts session⟩ c =
      some (.nothing, .checkQuota session (store.partsOf sid)) := by
    show completeSession config store sid caller (.readParts session) c = _
    simp [completeSession, hfails, hready.parts]
  have hquota : next config store
      ⟨.completeSession sid caller, .checkQuota session (store.partsOf sid)⟩ c =
      some (.nothing, .checkWrite session (store.partsOf sid)) := by
    show completeSession config store sid caller (.checkQuota session (store.partsOf sid)) c = _
    simp [completeSession, hfails, hallowed]
  have hwrite : next config store
      ⟨.completeSession sid caller, .checkWrite session (store.partsOf sid)⟩ c =
      some (.nothing, startCompletion config session (store.partsOf sid)) := by
    show completeSession config store sid caller (.checkWrite session (store.partsOf sid)) c = _
    simp [completeSession, hfails, hauthorized]
  exact ((((Relation.ReflTransGen.refl).tail (step_intro hentered)).tail (step_intro hread)).tail
    (step_intro hquota)).tail (step_intro hwrite)

theorem sameTables_refl : SameTables store store := ⟨rfl, rfl, rfl, rfl⟩

theorem stitched_put (content : Bytes) (rest : List UploadPart) :
    stitched config ((Write.putObject (config.uploadRef session) content).apply store) session rest =
      stitched config store session rest := by
  induction rest with
  | nil => rfl
  | cons part rest ih =>
    have hobject : ((Write.putObject (config.uploadRef session) content).apply store).objects
        (config.partRef session part.partNumber) =
        store.objects (config.partRef session part.partNumber) :=
      update_of_ne (partRef_ne config session part.partNumber) _ _
    unfold stitched
    rw [hobject, ih]

theorem reaches_stitched (config : Config) (session : UploadSession) (sid : String)
    (caller : Caller) (parts : List UploadPart) (hfails : c.fails = false) :
    ∀ (rest : List UploadPart) (store : Store) (acc more : Bytes),
      store.objects (config.uploadRef session) = some acc →
      stitched config store session rest = some more →
      ∃ store', Reaches config (.completeSession sid caller) c
          (store, .completing session (.stitch parts rest acc))
          (store', .completing session (.stitch parts [] (acc ++ more))) ∧
        SameTables store store' ∧
        store'.objects (config.uploadRef session) = some (acc ++ more) := by
  intro rest
  induction rest with
  | nil =>
    intro store acc more hacc hmore
    have hnil : more = [] := (some.inj hmore).symm
    subst hnil
    rw [List.append_nil]
    exact ⟨store, .refl, sameTables_refl, hacc⟩
  | cons part rest ih =>
    intro store acc more hacc hmore
    obtain ⟨bytes, hbytes, htail⟩ := bind_eq_some_iff.mp hmore
    obtain ⟨tail, hstitched, htailEq⟩ := map_eq_some_iff.mp htail
    subst htailEq
    have hstep : Step config (.completeSession sid caller) c
        (store, .completing session (.stitch parts (part :: rest) acc))
        ((Write.putObject (config.uploadRef session) (acc ++ bytes)).apply store,
          .completing session (.stitch parts rest (acc ++ bytes))) := by
      apply completing_step
      simp [complete, hfails, hbytes]
    obtain ⟨store', hreach, hsame, hobject⟩ := ih
      ((Write.putObject (config.uploadRef session) (acc ++ bytes)).apply store) (acc ++ bytes) tail
      (update_self _ _ _) (by rw [stitched_put]; exact hstitched)
    rw [List.append_assoc] at hreach hobject
    exact ⟨store', .head hstep hreach, { hsame with }, hobject⟩

theorem reaches_dropped (config : Config) (session : UploadSession) (sid : String)
    (caller : Caller) (hfails : c.fails = false) :
    ∀ (rest : List UploadPart) (store : Store), ∃ store',
      Reaches config (.completeSession sid caller) c
        (store, .completing session (.dropParts rest)) (store', .completing session .stat) ∧
      SameTables store store' ∧
      store'.objects (config.uploadRef session) = store.objects (config.uploadRef session) := by
  intro rest
  induction rest with
  | nil =>
    intro store
    exact ⟨store, .single (completing_step (w := .nothing) rfl), sameTables_refl, rfl⟩
  | cons part rest ih =>
    intro store
    obtain ⟨store', hreach, hsame, hobject⟩ :=
      ih ((Write.deleteObject (config.partRef session part.partNumber)).apply store)
    have hstep : Step config (.completeSession sid caller) c
        (store, .completing session (.dropParts (part :: rest)))
        ((Write.deleteObject (config.partRef session part.partNumber)).apply store,
          .completing session (.dropParts rest)) := by
      apply completing_step
      simp [complete, hfails]
    refine ⟨store', .head hstep hreach,
      { hsame with }, ?_⟩
    exact hobject.trans (update_of_ne (partRef_ne config session _).symm _ _)

theorem reaches_stored (sid : String) (caller : Caller) (parts : List UploadPart) (hfails : c.fails = false)
    (hheld : Held config store session parts bytes) :
    ∃ store', Reaches config (.completeSession sid caller) c
        (store, startCompletion config session parts) (store', .completing session .stat) ∧
      SameTables store store' ∧ store'.objects (config.uploadRef session) = some bytes := by
  unfold Held at hheld
  unfold startCompletion at hheld ⊢
  split at hheld
  · rename_i hmode
    split at hmode
    · rename_i hmultipart
      rw [if_pos hmultipart]
      cases hmode
      obtain ⟨uploadId, stored, hid, hstored, hassembled⟩ := hheld
      refine ⟨_, .single (completing_step (w :=
        .completeUpload uploadId (config.uploadRef session) bytes) ?_), ⟨rfl, rfl, rfl, rfl⟩,
        update_self _ _ _⟩
      simp [complete, hfails, hid, hstored, hassembled]
    · split at hmode
      · split at hmode
        · cases hmode
        · cases hmode
      · cases hmode
  · rename_i hmode
    split at hmode
    · cases hmode
    rename_i hmultipart
    split at hmode
    · rename_i hproxy
      split at hmode
      · rename_i hstreams
        rw [if_neg hmultipart, if_pos hproxy, if_pos hstreams]
        cases hmode
        have hopen : Step config (.completeSession sid caller) c
            (store, .completing session (.openUpload parts))
            ((Write.putObject (config.uploadRef session) []).apply store,
              .completing session (.stitch (byPartNumber parts) (byPartNumber parts) [])) := by
          apply completing_step
          simp [complete, hfails]
        obtain ⟨middle, hstitch, hsame, hobject⟩ := reaches_stitched config session sid caller
          (byPartNumber parts) hfails (byPartNumber parts)
          ((Write.putObject (config.uploadRef session) []).apply store) [] bytes
          (update_self _ _ _) (by rw [stitched_put]; exact hheld)
        have hclose : Step config (.completeSession sid caller) c
            (middle, .completing session (.stitch (byPartNumber parts) [] ([] ++ bytes)))
            (middle, .completing session (.dropParts (byPartNumber parts))) := by
          apply completing_step (w := .nothing)
          simp [complete, hfails]
        obtain ⟨store', hdrop, hsame', hobject'⟩ := reaches_dropped config session sid caller
          hfails (byPartNumber parts) middle
        have htables := hsame.trans hsame'
        exact ⟨store', .head hopen (hstitch.trans (.head hclose hdrop)),
          { htables with },
          hobject'.trans hobject⟩
      · cases hmode
    · cases hmode
  · rename_i hmultipartNe hopenNe hmode
    split at hmode
    · cases hmode
      exact (hmultipartNe parts rfl).elim
    rename_i hmultipart
    split at hmode
    · split at hmode
      · cases hmode
        exact (hopenNe parts rfl).elim
      · cases hmode
    · rename_i hproxy
      rw [if_neg hmultipart, if_neg hproxy]
      exact ⟨store, .refl, sameTables_refl, hheld⟩
  · exact False.elim hheld

/-- What the completion has kept of the bytes is the bytes. -/
def Keeps (config : Config) (store : Store) (session : UploadSession) (upload : Upload)
    (bytes : Bytes) : Prop :=
  upload.content = some bytes ∨
    upload.content = none ∧ store.objects (config.uploadRef session) = some bytes

theorem reaches_used (config : Config) (store : Store) (session : UploadSession) (sid : String)
    (caller : Caller) (bytes : Bytes) (checksum : String) (found : Option FileVersionRecord)
    (hfails : c.fails = false) :
    ∃ store' upload, Reaches config (.completeSession sid caller) c
        (store, .completing session (useDuplicate session checksum bytes found))
        (store', .completing session (.findFile upload)) ∧
      SameTables store store' ∧ Keeps config store' session upload bytes := by
  unfold useDuplicate
  split
  · exact ⟨store, _, .refl, sameTables_refl, .inl rfl⟩
  split
  · exact ⟨store, _, .refl, sameTables_refl, .inl rfl⟩
  split
  · exact ⟨store, _, .refl, sameTables_refl, .inl rfl⟩
  rename_i version _ _
  refine ⟨(Write.deleteObject (config.uploadRef session)).apply store, _,
    .single (completing_step ?_), ⟨rfl, rfl, rfl, rfl⟩,
    .inl (rfl : (Upload.mk version.storageKey (some checksum) (some bytes)).content = _)⟩
  simp [complete, hfails]

theorem reaches_resolved (config : Config) (store : Store) (session : UploadSession)
    (sid : String) (caller : Caller) (bytes : Bytes) (checksum : String) (hfails : c.fails = false)
    (rest : List FileVersionRecord) :
    ∃ store' upload, Reaches config (.completeSession sid caller) c
        (store, .completing session (.resolveDuplicates checksum bytes rest))
        (store', .completing session (.findFile upload)) ∧
      SameTables store store' ∧ Keeps config store' session upload bytes := by
  induction rest with
  | nil =>
    obtain ⟨store', upload, hreach, hrest⟩ := reaches_used config store session sid caller
      bytes checksum none hfails
    exact ⟨store', upload, .head (completing_step (w := .nothing) rfl) hreach, hrest⟩
  | cons version rest ih =>
    by_cases htarget : config.policyStorageTarget session =
        some (config.fileTarget store version.fileId)
    · obtain ⟨store', upload, hreach, hrest⟩ := reaches_used config store session sid caller
        bytes checksum (some version) hfails
      refine ⟨store', upload, .head (completing_step (w := .nothing) ?_) hreach, hrest⟩
      simp [complete, hfails, htarget]
    · obtain ⟨store', upload, hreach, hrest⟩ := ih
      refine ⟨store', upload, .head (completing_step (w := .nothing) ?_) hreach, hrest⟩
      simp [complete, hfails, htarget]

theorem reaches_found (sid : String) (caller : Caller) (hfails : c.fails = false)
    (hobject : store.objects (config.uploadRef session) = some bytes)
    (hsize : bytes.length = session.size) (hstreams : config.dedup = true → config.streams = true) :
    ∃ store' upload, Reaches config (.completeSession sid caller) c
        (store, .completing session .stat) (store', .completing session (.findFile upload)) ∧
      SameTables store store' ∧ Keeps config store' session upload bytes := by
  cases hdedup : config.dedup with
  | false =>
    refine ⟨store, _, .single (completing_step (w := .nothing) ?_), sameTables_refl,
      .inr ⟨(rfl : (Upload.mk session.storageKey none none).content = none), hobject⟩⟩
    simp [complete, hfails, hobject, hsize, hdedup]
  | true =>
    have hstat : Step config (.completeSession sid caller) c (store, .completing session .stat)
        (store, .completing session .hash) := by
      apply completing_step (w := .nothing)
      simp [complete, hfails, hobject, hsize, hdedup]
    have hhash : Step config (.completeSession sid caller) c (store, .completing session .hash)
        (store, .completing session (.findDuplicates (config.sha256Base64 bytes) bytes)) := by
      apply completing_step (w := .nothing)
      simp [complete, hfails, hobject, hstreams hdedup]
    cases htarget : config.policyStorageTarget session with
    | none =>
      obtain ⟨store', upload, hreach, hrest⟩ := reaches_used config store session sid caller
        bytes (config.sha256Base64 bytes)
        (sameChecksum store session (config.sha256Base64 bytes)).head? hfails
      refine ⟨store', upload, .head hstat (.head hhash (.head (completing_step (w := .nothing) ?_)
        hreach)), hrest⟩
      simp [complete, hfails, htarget]
    | some target =>
      obtain ⟨store', upload, hreach, hrest⟩ := reaches_resolved config store session sid
        caller bytes (config.sha256Base64 bytes) hfails
        (sameChecksum store session (config.sha256Base64 bytes))
      refine ⟨store', upload, .head hstat (.head hhash (.head (completing_step (w := .nothing) ?_)
        hreach)), hrest⟩
      simp [complete, hfails, htarget]

theorem reaches_closed (config : Config) (store : Store) (session : UploadSession) (sid : String)
    (caller : Caller) (hfails : c.fails = false) (fileId versionId : String) :
    ∃ store', Reaches config (.completeSession sid caller) c
        (store, .closing session fileId versionId .deletePartRows)
        (store', .completed fileId versionId) ∧ store'.created = store.created := by
  have hlast : ∀ store : Store, Step config (.completeSession sid caller) c
      (store, .closing session fileId versionId .triggerProcessing)
      (store, .completed fileId versionId) := by
    intro store
    apply step_intro (w := .nothing)
    show some (close config session caller fileId versionId .triggerProcessing c) = _
    simp [close, hfails]
  have hdeleted : Step config (.completeSession sid caller) c
      (store, .closing session fileId versionId .deletePartRows)
      ((Write.deleteParts session.uploadSessionId).apply store, .closing session fileId versionId
        (if config.quota then .recordUsage else .triggerProcessing)) := by
    apply step_intro
    show some (close config session caller fileId versionId .deletePartRows c) = _
    simp [close, hfails]
  cases hquota : config.quota with
  | false =>
    rw [hquota] at hdeleted
    exact ⟨_, .head hdeleted (.single (hlast _)), rfl⟩
  | true =>
    rw [hquota] at hdeleted
    have hrecorded : Step config (.completeSession sid caller) c
        ((Write.deleteParts session.uploadSessionId).apply store,
          .closing session fileId versionId .recordUsage)
        ((Write.recordUsage ⟨some session.uploadSessionId, caller.principalId, caller.tenantId,
          session.size⟩).apply ((Write.deleteParts session.uploadSessionId).apply store),
          .closing session fileId versionId .triggerProcessing) := by
      apply step_intro
      show some (close config session caller fileId versionId .recordUsage c) = _
      simp [close, hfails]
    exact ⟨_, .head hdeleted (.head hrecorded (.single (hlast _))), rfl⟩

/-- The generated ids are not taken. -/
structure Fresh (store : Store) (c : Choice) : Prop where
  version : store.versions.any (·.versionId = "ver_" ++ c.versionId) = false
  file : store.findFile ("file_" ++ c.fileId) = none

theorem reaches_answered {upload : Upload} (caller : Caller) (hfails : c.fails = false) (hfresh : Fresh store c)
    (hrow : rowsFor sid store = [session]) (hkeeps : Keeps config store session upload bytes) :
    ∃ store' version, Reaches config (.completeSession sid caller) c
        (store, .completing session (.findFile upload))
        (store', .completed version.fileId version.versionId) ∧
      store'.created = store.created ++ [⟨sid, version, bytes⟩] := by
  have hid : session.uploadSessionId = sid := mem_rowsFor (by rw [hrow]; exact List.mem_singleton_self _)
  obtain ⟨fileId, existing, hfound, hexists⟩ : ∃ fileId existing,
      complete config store session (.findFile upload) c = (.nothing, .completing session
        (.writeFile upload fileId ("ver_" ++ c.versionId) existing)) ∧
      (store.findFile fileId).isSome = existing := by
    by_cases hfalsy : isFalsy session.fileId = true
    · refine ⟨"file_" ++ c.fileId, false, ?_, by rw [hfresh.file]; rfl⟩
      simp [complete, hfails, hfalsy]
    · refine ⟨session.fileId.getD "", _, ?_, rfl⟩
      simp [complete, hfails, hfalsy]
  have hwritten : ∃ middle, Step config (.completeSession sid caller) c
      (store, .completing session (.writeFile upload fileId ("ver_" ++ c.versionId) existing))
      (middle, .completing session (.createVersion upload fileId ("ver_" ++ c.versionId))) ∧
      middle.versions = store.versions ∧ middle.sessions = store.sessions ∧
      middle.created = store.created ∧ middle.objects = store.objects := by
    cases existing with
    | true =>
      refine ⟨_, completing_step (w := .updateFile fileId ("ver_" ++ c.versionId) session.mimeType
        session.size) ?_, rfl, rfl, rfl, rfl⟩
      simp [complete, hfails, ← not_isSome, hexists]
    | false =>
      refine ⟨_, completing_step (w := .createFile (newFile session fileId
        ("ver_" ++ c.versionId))) ?_, rfl, rfl, rfl, rfl⟩
      simp [complete, hfails, hexists]
  obtain ⟨middle, hmiddle, hversions, hsessions, hcreated, hobjects⟩ := hwritten
  have hcontent : upload.content.getD ((middle.objects (config.uploadRef session)).getD []) =
      bytes := by
    rcases hkeeps with hsome | ⟨hnone, hobject⟩
    · rw [hsome]
      rfl
    · rw [hnone, hobjects, hobject]
      rfl
  have hversion : Step config (.completeSession sid caller) c
      (middle, .completing session (.createVersion upload fileId ("ver_" ++ c.versionId)))
      ((Write.createVersion ⟨session.uploadSessionId, newVersion session upload fileId
        ("ver_" ++ c.versionId), bytes⟩).apply middle,
        .completing session (.markCompleted fileId ("ver_" ++ c.versionId))) := by
    apply completing_step
    unfold complete
    dsimp only
    rw [hversions, hfresh.version, hfails, hcontent]
    rfl
  have hthere : ((Write.createVersion ⟨session.uploadSessionId, newVersion session upload fileId
      ("ver_" ++ c.versionId), bytes⟩).apply middle).findSession session.uploadSessionId =
      some session := by
    rw [findSession_eq, hid]
    have hrows : rowsFor sid ((Write.createVersion ⟨sid, newVersion session upload fileId
        ("ver_" ++ c.versionId), bytes⟩).apply middle) = rowsFor sid store := by
      unfold rowsFor
      show middle.sessions.filter _ = _
      rw [hsessions]
    rw [hrows, hrow]
    rfl
  have hmarked : Step config (.completeSession sid caller) c
      ((Write.createVersion ⟨session.uploadSessionId, newVersion session upload fileId
        ("ver_" ++ c.versionId), bytes⟩).apply middle,
        .completing session (.markCompleted fileId ("ver_" ++ c.versionId)))
      ((Write.setCompleted session.uploadSessionId fileId ("ver_" ++ c.versionId)).apply
        ((Write.createVersion ⟨session.uploadSessionId, newVersion session upload fileId
          ("ver_" ++ c.versionId), bytes⟩).apply middle),
        .closing session fileId ("ver_" ++ c.versionId) .deletePartRows) := by
    apply completing_step
    simp [complete, hfails, hthere]
  obtain ⟨store', hclosed, hlast⟩ := reaches_closed config
    ((Write.setCompleted session.uploadSessionId fileId ("ver_" ++ c.versionId)).apply
      ((Write.createVersion ⟨session.uploadSessionId, newVersion session upload fileId
        ("ver_" ++ c.versionId), bytes⟩).apply middle))
    session sid caller hfails fileId ("ver_" ++ c.versionId)
  refine ⟨store', newVersion session upload fileId ("ver_" ++ c.versionId),
    .head (completing_step hfound) (.head hmiddle (.head hversion (.head hmarked hclosed))), ?_⟩
  rw [hlast, ← hid, ← hcreated]
  rfl

end Stages

end SuperFunctions.Filefn.Retries
