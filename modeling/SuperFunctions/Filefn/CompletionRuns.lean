import Mathlib.Algebra.Order.BigOperators.Group.List
import Mathlib.Algebra.Order.Group.Nat
import SuperFunctions.Filefn.Retries

/-!
# Runs with completions

Over every run whose steps are careful with a session, its completions agree on one version, and
one that fails leaves the session as it was. Two completions that pass their checks together yield
a version each.
-/
namespace SuperFunctions.Filefn.CompletionRuns

open Lib.Processes Lib.Transition Storage UploadSessions SessionMoves CompletedOnce Retries List Nat

section Fresh

theorem exists_longer (front : String) (taken : List String) :
    ∃ text, ∀ other ∈ taken, other ≠ front ++ text := by
  refine ⟨String.ofList (List.replicate ((taken.map String.length).sum + 1) 'x'), ?_⟩
  intro other hother heq
  have hle : other.length ≤ (taken.map String.length).sum :=
    single_le_sum (fun _ _ => zero_le _) _ (mem_map_of_mem hother)
  have hlength : other.length = front.length + ((taken.map String.length).sum + 1) := by
    rw [heq, String.length_append, String.length_ofList, length_replicate]
  omega

theorem exists_fresh (store : Store) (now : Int) : ∃ c : Choice,
    c.now = now ∧ c.fails = false ∧ c.allowed = true ∧ c.authorized = true ∧ Fresh store c := by
  obtain ⟨versionId, hversion⟩ := exists_longer "ver_" (store.versions.map (·.versionId))
  obtain ⟨fileId, hfile⟩ := exists_longer "file_" (store.files.map (·.fileId))
  refine ⟨⟨now, false, true, true, fileId, versionId⟩, rfl, rfl, rfl, rfl, ?_, ?_⟩
  · rw [List.any_eq_false]
    intro version hmem
    have hne := hversion version.versionId (mem_map_of_mem hmem)
    simpa using hne
  · apply find?_eq_none.mpr
    intro file hmem
    have hne := hfile file.fileId (mem_map_of_mem hmem)
    simpa using hne

end Fresh

section Runs

variable {config : Config} {sid : String} {s : Deployment} {caller : Caller}

/-- A call that starts alone on a session that is ready answers with a version of the bytes. -/
theorem retry_completes {store : Store} {session : UploadSession} {now : Int} {bytes : Bytes}
    (hready : Ready config store session sid caller now bytes) (procs : List Call) :
    ∃ acts store' version, run (deploymentStep config) ⟨store, procs⟩ acts =
        some ⟨store', procs ++ [⟨.completeSession sid caller,
          .completed version.fileId version.versionId⟩]⟩ ∧
      store'.created = store.created ++ [⟨sid, version, bytes⟩] := by
  obtain ⟨c, hnow, hfails, hallowed, hauthorized, hfresh⟩ := exists_fresh store now
  have hchecked := reaches_checked hready hnow hfails hallowed hauthorized
  obtain ⟨stored, hstored, htables, hobject⟩ :=
    reaches_stored sid caller (store.partsOf sid) hfails hready.held
  obtain ⟨found, upload, hfound, htables', hkeeps⟩ :=
    reaches_found sid caller hfails hobject hready.size hready.streams
  have hall := htables.trans htables'
  have hfresh' : Fresh found c := by
    refine ⟨?_, ?_⟩
    · rw [hall.versions]
      exact hfresh.version
    · unfold Store.findFile
      rw [hall.files]
      exact hfresh.file
  have hrow : rowsFor sid found = [session] := by
    unfold rowsFor
    rw [hall.sessions]
    exact hready.row
  obtain ⟨store', version, hanswered, hcreated⟩ :=
    reaches_answered caller hfails hfresh' hrow hkeeps
  have hreach := ((hchecked.trans hstored).trans hfound).trans hanswered
  have hcall : (procs ++ [Call.mk (.completeSession sid caller) .entered])[procs.length]? =
      some ⟨.completeSession sid caller, .entered⟩ := by
    simp
  obtain ⟨n, hrun⟩ := reaches_run hreach hcall
  refine ⟨.spawn (.completeSession sid caller) :: List.replicate n (.move procs.length c), store',
    version, ?_, ?_⟩
  · have hset : (procs ++ [Call.mk (.completeSession sid caller) .entered]).set procs.length
        ⟨.completeSession sid caller, .completed version.fileId version.versionId⟩ =
        procs ++ [⟨.completeSession sid caller, .completed version.fileId version.versionId⟩] := by
      rw [set_append_right _ _ le_rfl, Nat.sub_self]
      rfl
    rwa [← hset]
  · rw [hcreated, hall.created]

theorem created_le (hinv : Inv sid s) : (createdFor sid s.shared).length ≤ 1 := by
  by_cases hidle : ∀ call ∈ s.procs, ¬ Storing sid call
  · rcases hinv.row with hlive | ⟨fileId, versionId, -, hcreated⟩ | ⟨-, hcreated, -⟩
    · rw [(hinv.idle hlive hidle).1]
      exact zero_le _
    · rw [hcreated]
      exact le_refl _
    · rw [hcreated]
      exact zero_le _
  · push Not at hidle
    obtain ⟨call, hmem, hstoring⟩ := hidle
    obtain ⟨i, hcall⟩ := mem_iff_getElem?.mp hmem
    have hok : CallOk sid s.shared call := hinv.calls i call hcall
    obtain ⟨request, phase⟩ := call
    cases request with
    | completeSession id caller =>
      cases phase with
      | completing session stage =>
        obtain ⟨-, hcreated, -⟩ : CompletionOk sid s.shared (.completing session stage) :=
          hok hstoring
        rw [hcreated]
        unfold yielded
        split
        · exact le_refl _
        · exact zero_le _
      | _ => exact False.elim hstoring
    | _ => exact False.elim hstoring

theorem created_of_closed (hinv : Inv sid s) (hclosed : Closed sid s.shared) :
    createdFor sid s.shared = [] := by
  rcases hinv.row with hlive | ⟨fileId, versionId, hcompleted, -⟩ | ⟨-, hcreated, -⟩
  · exact absurd hlive (not_live_of_closed hclosed)
  · exact absurd hclosed (not_closed_of_completed hcompleted)
  · exact hcreated

/-- The step that makes a completion throw writes nothing, and it is not between the checks and the
mark. -/
theorem failing_step {s' : Deployment} {i : Nat} {c : Choice} {phase : Phase} {error : FileFnError}
    (hinv : Inv sid s) (hsteady : Steady sid config s (.move i c))
    (hcall : s.procs[i]? = some ⟨.completeSession sid caller, phase⟩)
    (hstep : deploymentStep config s (.move i c) = some s')
    (hthrew : s'.procs[i]? = some ⟨.completeSession sid caller, .threw error⟩) :
    s'.shared = s.shared ∧ ∀ session stage, phase ≠ .completing session stage := by
  rcases act_cases hstep with ⟨request, hact, -⟩ | ⟨j, d, call, store', call', hact, hmoved, hnext, rfl⟩
  · cases hact
  cases hact
  have hsame : call = ⟨.completeSession sid caller, phase⟩ := Option.some.inj (hmoved.symm.trans hcall)
  subst hsame
  obtain ⟨⟨w, phase'⟩, hpair, hresult⟩ := Option.map_eq_some_iff.mp hnext
  obtain ⟨rfl, rfl⟩ := Prod.mk.inj hresult
  have hlt : i < s.procs.length := (List.getElem?_eq_some_iff.mp hcall).1
  have hphase : phase' = .threw error := by
    rw [getElem?_set_self hlt] at hthrew
    exact congrArg Call.phase (Option.some.inj hthrew)
  subst hphase
  have hmove : completeSession config s.shared sid caller phase c = some (w, .threw error) := hpair
  have hcompletion := completeSession_completion hmove
  have hnot : ∀ session stage, phase ≠ .completing session stage := by
    intro session stage heq
    subst heq
    have hown : Own ⟨.completeSession sid caller, .completing session stage⟩ := hinv.own i _ hcall
    have hcareful : Careful sid config s _ c := hsteady _ hcall
    have hsmooth : Smooth config s.shared session c stage := hcareful (hown.1 session rfl)
    have hresult : complete config s.shared session stage c = (w, .threw error) :=
      Option.some.inj hmove
    exact complete_smooth hsmooth error (by rw [hresult])
  refine ⟨?_, hnot⟩
  generalize hafter : Phase.threw error = after at hcompletion
  cases hcompletion with
  | stage session stage w phase hstage => exact absurd rfl (hnot session stage)
  | fails => rfl
  | found => rfl
  | legacy => rfl
  | checks => rfl
  | starts => rfl
  | rowsDeleted | recorded => cases hafter
  | done => rfl

/-- One version and one record of usage, the same answer to every completion that succeeds, none
after the session was given up, and a completion that fails can be tried again. -/
theorem completed_once {db : Store} {acts : List (Act Request Choice)}
    (hunique : (rowsFor sid db).length ≤ 1)
    (hstart : ∀ row ∈ rowsFor sid db, row.status ≠ .completed)
    (hcreated : createdFor sid db = []) (husage : usageFor sid db = [])
    (hsteady : Guarded (deploymentStep config) (Steady sid config) ⟨db, []⟩ acts)
    (hrun : run (deploymentStep config) ⟨db, []⟩ acts = some s) :
    (createdFor sid s.shared).length ≤ 1 ∧ (usageFor sid s.shared).length ≤ 1 ∧
    (∀ caller fileId versionId, ⟨.completeSession sid caller, .completed fileId versionId⟩ ∈ s.procs →
      createdFor sid s.shared = [(fileId, versionId)]) ∧
    (((∃ caller, ⟨.abortSession sid caller, .finished⟩ ∈ s.procs) ∨ rowsFor sid s.shared = []) →
      createdFor sid s.shared = []) ∧
    (∀ before i c after m m', acts = before ++ .move i c :: after →
      run (deploymentStep config) ⟨db, []⟩ before = some m →
      deploymentStep config m (.move i c) = some m' →
      ∀ caller phase error, m.procs[i]? = some ⟨.completeSession sid caller, phase⟩ →
        m'.procs[i]? = some ⟨.completeSession sid caller, .threw error⟩ →
        m'.shared = m.shared ∧ ∀ session stage, phase ≠ .completing session stage) ∧
    (∀ session caller now bytes, Ready config s.shared session sid caller now bytes →
      ∃ more store' version, run (deploymentStep config) s more =
          some ⟨store', s.procs ++ [⟨.completeSession sid caller,
            .completed version.fileId version.versionId⟩]⟩ ∧
        store'.created = s.shared.created ++ [⟨sid, version, bytes⟩]) := by
  have hinit : Inv sid (System.mk db ([] : List Call)) := by
    refine ⟨each_nil _ _, each_nil _ _, pairs_nil _ _, hunique, ?_, fun _ _ => ⟨hcreated, husage⟩, ?_⟩
    · by_cases hlive : ∃ row ∈ rowsFor sid db, IsLive row
      · exact .inl (exists_live (s := ⟨db, []⟩) hunique hlive)
      · refine .inr (.inr ⟨fun row hrow => ?_, hcreated, husage⟩)
        by_contra haborted
        exact hlive ⟨row, hrow, hstart row hrow, haborted⟩
    · show (usageFor sid db).length ≤ 1
      rw [husage]
      exact zero_le _
  have hinv : Inv sid s := guarded_run_invariant _ inv_step hinit hsteady hrun
  refine ⟨created_le hinv, hinv.usage, ?_, ?_, ?_, ?_⟩
  · intro caller fileId versionId hmem
    obtain ⟨i, hcall⟩ := mem_iff_getElem?.mp hmem
    exact hinv.calls i _ hcall rfl
  · rintro (⟨caller, hmem⟩ | hgone)
    · obtain ⟨i, hcall⟩ := mem_iff_getElem?.mp hmem
      have hclosed : Closed sid s.shared := hinv.calls i _ hcall rfl
      exact created_of_closed hinv hclosed
    · refine created_of_closed hinv fun row hrow => ?_
      rw [hgone] at hrow
      cases hrow
  · intro before i c after m m' hacts hbefore hstep caller phase error hcall hthrew
    subst hacts
    obtain ⟨hguard, hnext⟩ := guarded_append _ hsteady hbefore
    exact failing_step (guarded_run_invariant _ inv_step hinit hguard hbefore) hnext.1 hcall hstep
      hthrew
  · intro session caller now bytes hready
    exact retry_completes hready s.procs

end Runs

section Samples

def sampleConfig : Config where
  policies := fun name => if name = "docs" then some ⟨none, none⟩ else none
  defaultTarget := "durable"
  multipart := fun _ => false
  multipartMethods := false
  streams := true
  dedup := false
  quota := true
  fileWriteChecker := false
  sha256Base64 := fun _ => ""
  sha256Hex := fun _ => ""
  hashUploadSessionToken := id

def ada : Caller := ⟨some "ada", none, none⟩

def replacement : UploadSession :=
  ⟨"upl_1", .in_progress, "docs", some "file_1", "a.txt", "text/plain", 2, .proxy, 1, "ada/a.txt",
    none, "ada", none, none, none, 100⟩

def firstVersion : FileVersionRecord := ⟨"ver_0", "file_1", "ada/old", "text/plain", 1, none, none⟩

/-- A file with one version, and a session that replaces it. -/
def sampleStore (parts : List UploadPart) (objects : Ref → Option Bytes) : Store where
  files := [⟨"file_1", "ver_0", "ada", none, "docs", "text/plain", 1, "a.txt"⟩]
  versions := [firstVersion]
  artifacts := []
  sessions := [replacement]
  parts := parts
  objects := objects
  uploads := fun _ => none
  usage := []
  created := []

def uploaded : Store :=
  sampleStore [⟨"upl_1", 1, "proxy-sha256-", 2⟩]
    (fun ref => if ref = ⟨"durable", "ada/a.txt.part1"⟩ then some [104, 105] else none)

def moves (count i : Nat) (versionId : String) : List (Act Request Choice) :=
  List.replicate count (.move i ⟨10, false, true, true, "", versionId⟩)

/-- Two completions that take their steps in turn. -/
def together : List (Act Request Choice) :=
  .spawn (.completeSession "upl_1" ada) :: .spawn (.completeSession "upl_1" ada) ::
    (List.range 17).flatMap fun _ => moves 1 0 "a" ++ moves 1 1 "b"

/-- Each of them creates a version, answers with it and records the usage. -/
theorem together_two_versions :
    (run (deploymentStep sampleConfig) ⟨uploaded, []⟩ together).map (fun s =>
      (createdFor "upl_1" s.shared, (usageFor "upl_1" s.shared).length, s.procs.map (·.phase))) =
      some ([("file_1", "ver_a"), ("file_1", "ver_b")], 2,
        [.completed "file_1" "ver_a", .completed "file_1" "ver_b"]) := by
  decide +kernel

/-- A completion before the part is there, the part, the completion, and once more. -/
def inTurn : List (Act Request Choice) :=
  .spawn (.completeSession "upl_1" ada) :: moves 2 0 "a" ++
    .spawn (.uploadPartBytes "upl_1" 1 [104, 105] ada) :: moves 4 1 "b" ++
    .spawn (.completeSession "upl_1" ada) :: moves 17 2 "c" ++
    .spawn (.completeSession "upl_1" ada) :: moves 1 3 "d"

theorem inTurn_one_version :
    ∃ s, run (deploymentStep sampleConfig) ⟨sampleStore [] fun _ => none, []⟩ inTurn = some s ∧
      createdFor "upl_1" s.shared = [("file_1", "ver_c")] ∧
      (usageFor "upl_1" s.shared).length ≤ 1 := by
  have hsteady : Guarded (deploymentStep sampleConfig) (Steady "upl_1" sampleConfig)
      ⟨sampleStore [] fun _ => none, []⟩ inTurn := by
    decide +kernel
  have hends : (run (deploymentStep sampleConfig) ⟨sampleStore [] fun _ => none, []⟩ inTurn).any
      (fun s => s.procs.any fun (call : Call) =>
        decide (call = ⟨.completeSession "upl_1" ada, .completed "file_1" "ver_c"⟩)) = true := by
    decide +kernel
  obtain ⟨s, hrun, hend⟩ := (Option.any_eq_true _ _).mp hends
  obtain ⟨call, hmem, hcall⟩ := any_eq_true.mp hend
  have hsame : call = ⟨.completeSession "upl_1" ada, .completed "file_1" "ver_c"⟩ :=
    of_decide_eq_true hcall
  subst hsame
  obtain ⟨-, husage, hanswer, -⟩ :=
    completed_once (by decide) (by decide) rfl rfl hsteady hrun
  exact ⟨s, hrun, hanswer ada "file_1" "ver_c" hmem, husage⟩

end Samples

end SuperFunctions.Filefn.CompletionRuns
