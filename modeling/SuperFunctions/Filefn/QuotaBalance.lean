import Mathlib.Algebra.BigOperators.Ring.Finset
import SuperFunctions.Filefn.CompletionRuns
import SuperFunctions.Lib.StableSort

/-!
# The balance of the quota

A completion charges its caller with the size of the version, and a deletion credits the owner of
the file with each object it frees. Calls come one after another and the storage deletes what it is
told to. The versions of a file are taken without their artifacts, which no call here makes.
-/

namespace SuperFunctions.Filefn.QuotaBalance

open Storage UploadSessions Lib.Transition List Option
open CompletionRuns (sampleConfig)

/-- The rows of files and versions, and the usage recorded with the quota provider. -/
structure Books where
  files : List FileRecord
  versions : List FileVersionRecord
  usage : List UsageRecord

/-- A completion that has passed its checks, with the ids it draws and the object that
`computeAndCheckDuplicate` finds. -/
structure Completion where
  session : UploadSession
  caller : Caller
  newFileId : String
  versionId : String
  checksum : Option String
  existingStorageKey : Option String

namespace Completion

def fileId (c : Completion) : String := c.session.fileId.getD c.newFileId

/-- `finalStorageKey` -/
def storageKey (c : Completion) : String := c.existingStorageKey.getD c.session.storageKey

def newFile (c : Completion) : FileRecord where
  fileId := c.fileId
  currentVersionId := c.versionId
  ownerId := c.session.ownerId
  tenantId := c.session.tenantId
  policy := c.session.policy
  mimeType := c.session.mimeType
  size := c.session.size
  name := c.session.fileName

def version (c : Completion) : FileVersionRecord where
  versionId := c.versionId
  fileId := c.fileId
  storageKey := c.storageKey
  mimeType := c.session.mimeType
  size := c.session.size
  checksumSha256Base64 := c.checksum
  tenantId := c.session.tenantId

end Completion

inductive Step
  | complete (c : Completion)
  | deleteFile (fileId : String)

def findFile (files : List FileRecord) (fileId : String) : Option FileRecord :=
  files.find? (·.fileId = fileId)

/-- Whose account a file is in. -/
def owner (files : List FileRecord) (fileId : String) : Option (String × Option String) :=
  (findFile files fileId).map fun file => (file.ownerId, file.tenantId)

/-- The update of a file that has a new version. -/
def Completion.renew (c : Completion) (file : FileRecord) : FileRecord :=
  if file.fileId = c.fileId then { file with
    currentVersionId := c.versionId, mimeType := c.session.mimeType, size := c.session.size }
  else file

/-- `completeSession`, from the writes of its rows on. -/
def complete (books : Books) (c : Completion) : Books where
  files := if (c.session.fileId.bind (findFile books.files)).isSome then books.files.map c.renew
    else books.files ++ [c.newFile]
  versions := books.versions ++ [c.version]
  usage := books.usage ++ [⟨some c.session.uploadSessionId, c.caller.principalId,
    c.caller.tenantId, c.session.size⟩]

/-- `totalBytesFreed`, when every delete of the storage succeeds. -/
def bytesFreed (config : Config) (books : Books) (doomed : Doomed) : Nat :=
  ((doomed.unreferenced config books.versions books.files []).map (doomed.bytesAt config)).sum

def deleteFile (config : Config) (books : Books) (fileId : String) : Books :=
  match findFile books.files fileId with
  | none => books
  | some file =>
    let freed := bytesFreed config books ⟨file, books.versions.filter (·.fileId = fileId), []⟩
    { files := books.files.filter (·.fileId ≠ fileId)
      versions := books.versions.filter (·.fileId ≠ fileId)
      usage := books.usage ++
        if 0 < freed then [⟨none, some file.ownerId, file.tenantId, -(freed : Int)⟩] else [] }

def step (config : Config) (books : Books) : Step → Option Books
  | .complete c => some (complete books c)
  | .deleteFile fileId => some (deleteFile config books fileId)

/-- The bytes recorded for the accounts selected: a principal, a tenant, or both together. -/
def recorded (select : Option String → Option String → Bool) (books : Books) : Int :=
  (books.usage.map fun r => if select r.principalId r.tenantId then r.bytes else 0).sum

/-- The caller owns the file, and the completion keeps an object that no other version has. -/
def Plain (books : Books) : Step → Prop
  | .complete c =>
    owner (complete books c).files c.fileId = c.caller.principalId.map (·, c.caller.tenantId) ∧
    ∀ v ∈ books.versions, v.storageKey ≠ c.storageKey
  | .deleteFile _ => True

/-- A version counts for the owner of its file. -/
def weight (select : Option String → Option String → Bool) (files : List FileRecord)
    (v : FileVersionRecord) : Int :=
  if (owner files v.fileId).any fun account => select (some account.1) account.2 then v.size else 0

instance (books : Books) : (s : Step) → Decidable (Plain books s)
  | .complete _ => inferInstanceAs (Decidable (_ ∧ _))
  | .deleteFile _ => isTrue trivial

structure Balanced (books : Books) : Prop where
  housed : ∀ v ∈ books.versions, (owner books.files v.fileId).isSome
  keys : (books.versions.map (·.storageKey)).Nodup
  balance : ∀ select, recorded select books = (books.versions.map (weight select books.files)).sum

/-! ## Completions -/

variable {books : Books} {c : Completion} {config : Config}

theorem owner_renew (files : List FileRecord) (id : String) :
    owner (files.map c.renew) id = owner files id := by
  have hid : (fun file : FileRecord => decide ((c.renew file).fileId = id)) =
      fun file => decide (file.fileId = id) := by
    funext file
    rw [Completion.renew]
    split
    · rfl
    · rfl
  have howner : ∀ file, ((c.renew file).ownerId, (c.renew file).tenantId) =
      (file.ownerId, file.tenantId) := by
    intro file
    rw [Completion.renew]
    split
    · rfl
    · rfl
  rw [owner, findFile, find?_map, Option.map_map, owner, findFile]
  simp only [Function.comp_def, hid, howner]

/-- Files keep their owners. -/
theorem complete_owner {id : String} {account : String × Option String}
    (h : owner books.files id = some account) :
    owner (complete books c).files id = some account := by
  rw [complete]
  split
  · rw [owner_renew, h]
  · obtain ⟨file, hfile, rfl⟩ := map_eq_some_iff.mp h
    rw [owner, findFile, find?_append, ← findFile, hfile]
    rfl

theorem complete_housed (books : Books) (c : Completion) :
    (owner (complete books c).files c.fileId).isSome := by
  rw [complete]
  split
  · next hexisting =>
    obtain ⟨file, hfile⟩ := isSome_iff_exists.mp hexisting
    obtain ⟨id, hid, hfound⟩ := bind_eq_some_iff.mp hfile
    rw [owner_renew, Completion.fileId, hid, getD_some, owner, hfound]
    rfl
  · rw [owner, findFile, find?_append]
    simp [Completion.newFile]

theorem complete_balanced (h : Balanced books) (hplain : Plain books (.complete c)) :
    Balanced (complete books c) := by
  obtain ⟨howner, hkey⟩ := hplain
  refine ⟨?_, ?_, fun select => ?_⟩
  · intro v hv
    rcases mem_append.mp hv with hv | hv
    · obtain ⟨account, haccount⟩ := isSome_iff_exists.mp (h.housed v hv)
      rw [complete_owner haccount]
      rfl
    · rw [mem_singleton.mp hv]
      exact complete_housed books c
  · show ((books.versions ++ [c.version]).map (·.storageKey)).Nodup
    rw [map_append, nodup_append]
    refine ⟨h.keys, by simp, ?_⟩
    simpa [Completion.version] using fun v hv => hkey v hv
  · have hold : ∀ v ∈ books.versions,
        weight select (complete books c).files v = weight select books.files v := by
      intro v hv
      obtain ⟨account, haccount⟩ := isSome_iff_exists.mp (h.housed v hv)
      rw [weight, weight, complete_owner haccount, haccount]
    have hnew : weight select (complete books c).files c.version =
        if select c.caller.principalId c.caller.tenantId then (c.session.size : Int) else 0 := by
      have hsome := complete_housed books c
      rw [weight, Completion.version, howner]
      rw [howner] at hsome
      cases hprincipal : c.caller.principalId with
      | none => simp [hprincipal] at hsome
      | some principal => simp
    show ((books.usage ++ [_]).map _).sum = ((books.versions ++ [c.version]).map _).sum
    rw [map_append, map_append, sum_append, sum_append, map_singleton,
      map_singleton, hnew, map_congr_left hold, ← h.balance select]
    rfl

/-! ## Deletions -/

variable {file : FileRecord} {versions : List FileVersionRecord}

/-- Every object of a file whose keys are its own is freed, and weighs what its version weighs. -/
theorem bytesFreed_eq (hkeys : (books.versions.map (·.storageKey)).Nodup)
    (hversions : versions = books.versions.filter (·.fileId = file.fileId)) :
    bytesFreed config books ⟨file, versions, []⟩ = (versions.map (·.size)).sum := by
  set doomed : Doomed := ⟨file, versions, []⟩
  let ref (v : FileVersionRecord) : Ref := ⟨doomed.fileTarget config, v.storageKey⟩
  have hinj : ∀ v ∈ books.versions, ∀ w ∈ books.versions, v.storageKey = w.storageKey → v = w :=
    fun v hv w hw heq => inj_on_of_nodup_map hkeys hv hw heq
  have hsub : ∀ v ∈ versions, v ∈ books.versions := fun v hv => by
    rw [hversions] at hv
    exact mem_of_mem_filter hv
  have hkeys' : (versions.map (·.storageKey)).Nodup := by
    rw [hversions]
    exact hkeys.sublist (filter_sublist.map _)
  have hnodup : (versions.map ref).Nodup := by
    refine List.Nodup.of_map Ref.key ?_
    rwa [List.map_map]
  have hcandidates : doomed.candidates config = (versions.map ref).eraseDups :=
    congrArg List.eraseDups (append_nil _)
  have hperm : (doomed.unreferenced config books.versions books.files []).Perm
      (versions.map ref) := by
    rw [Doomed.unreferenced, hcandidates]
    refine (perm_ext_iff_of_nodup ((Lib.StableSort.nodup_eraseDups _).filter _) hnodup).mpr ?_
    intro r
    rw [mem_filter, mem_eraseDups]
    refine ⟨And.left, fun hr => ⟨hr, ?_⟩⟩
    obtain ⟨v, hv, rfl⟩ := mem_map.mp hr
    simp only [any_nil, Bool.not_false, Bool.and_true, Bool.not_eq_true', List.any_eq_false]
    intro w hw hsame
    obtain ⟨hother, hsame⟩ := (Bool.and_eq_true _ _).mp hsame
    obtain rfl := hinj v (hsub v hv) w hw (congrArg Ref.key (of_decide_eq_true hsame)).symm
    rw [hversions] at hv
    exact of_decide_eq_true hother (of_decide_eq_true (mem_filter.mp hv).2)
  have hbytes : ∀ v ∈ versions, doomed.bytesAt config (ref v) = v.size := by
    intro v hv
    have honly : (versions.filter fun w => ref w = ref v) = [v] := by
      refine perm_singleton.mp
        ((perm_ext_iff_of_nodup (hkeys'.of_map _ |>.filter _) (by simp)).mpr fun w => ?_)
      rw [mem_filter, mem_singleton, decide_eq_true_eq]
      constructor
      · exact fun hw => hinj w (hsub w hw.1) v (hsub v hv) (congrArg Ref.key hw.2)
      · rintro rfl
        exact ⟨hv, rfl⟩
    exact (congrArg (List.foldl (fun bytes (w : FileVersionRecord) => max bytes w.size) 0)
      honly).trans (Nat.zero_max _)
  rw [bytesFreed, (hperm.map _).sum_eq, List.map_map]
  exact congrArg List.sum (map_congr_left hbytes)

theorem deleteFile_balanced (h : Balanced books) (fileId : String) :
    Balanced (deleteFile config books fileId) := by
  rw [deleteFile]
  cases hfile : findFile books.files fileId with
  | none => exact h
  | some file =>
    have hid : file.fileId = fileId := by simpa using find?_some hfile
    subst hid
    have howner : ∀ id, id ≠ file.fileId →
        owner (books.files.filter (·.fileId ≠ file.fileId)) id = owner books.files id := by
      intro id hne
      have hfind : findFile (books.files.filter (·.fileId ≠ file.fileId)) id =
          findFile books.files id := by
        rw [findFile, find?_filter, findFile]
        congr 1
        funext other
        by_cases heq : other.fileId = id
        · simp [heq, hne]
        · simp [heq]
      rw [owner, hfind, owner]
    refine ⟨?_, ?_, fun select => ?_⟩
    · intro v hv
      obtain ⟨hv, hother⟩ := mem_filter.mp hv
      rw [howner v.fileId (by simpa using hother)]
      exact h.housed v hv
    · exact h.keys.sublist (filter_sublist.map _)
    · have hsplit : ((books.versions.filter (·.fileId = file.fileId)).map
            (weight select books.files)).sum + ((books.versions.filter (·.fileId ≠ file.fileId)).map
            (weight select books.files)).sum = (books.versions.map (weight select books.files)).sum :=
        sum_map_filter_add_sum_map_filter_not _ _ _
      have hkept : ∀ v ∈ books.versions.filter (·.fileId ≠ file.fileId),
          weight select (books.files.filter (·.fileId ≠ file.fileId)) v =
            weight select books.files v := by
        intro v hv
        rw [weight, weight, howner v.fileId (by simpa using (mem_filter.mp hv).2)]
      have hgone : ((books.versions.filter (·.fileId = file.fileId)).map
          (weight select books.files)).sum = if select (some file.ownerId) file.tenantId then
            (bytesFreed config books
              ⟨file, books.versions.filter (·.fileId = file.fileId), []⟩ : Int) else 0 := by
        have hweight : ∀ v ∈ books.versions.filter (·.fileId = file.fileId),
            weight select books.files v = if select (some file.ownerId) file.tenantId then
              (v.size : Int) else 0 := by
          intro v hv
          rw [weight, of_decide_eq_true (mem_filter.mp hv).2, owner, hfile]
          rfl
        rw [map_congr_left hweight, bytesFreed_eq h.keys rfl]
        split
        · rw [Nat.cast_list_sum, List.map_map]
          rfl
        · simp
      rw [map_congr_left hkept]
      have hbalance := h.balance select
      rw [← hsplit, hgone] at hbalance
      show ((books.usage ++ _).map _).sum = _
      rw [map_append, sum_append, ← recorded, hbalance]
      generalize bytesFreed config books _ = freed
      by_cases hfreed : 0 < freed
      · rw [if_pos hfreed, map_singleton, sum_singleton]
        dsimp only
        split
        · omega
        · omega
      · obtain rfl : freed = 0 := by omega
        simp

/-! ## Runs -/

/-- No account is below zero, and with the last file gone every account is at zero. -/
def QuotaBalances (books : Books) : Prop :=
  ∀ select, 0 ≤ recorded select books ∧ (books.files = [] → recorded select books = 0)

/-- The quota balances in every run in which files have one writer and objects one version. -/
theorem quota_balances (config : Config) (steps : List Step)
    (hrun : run (step config) ⟨[], [], []⟩ steps = some books)
    (hplain : Guarded (step config) Plain ⟨[], [], []⟩ steps) : QuotaBalances books := by
  have h : Balanced books := by
    refine guarded_run_invariant _ (fun before s after hbefore hguard hstep => ?_)
      ⟨by simp, by simp, fun _ => rfl⟩ hplain hrun
    cases s with
    | complete c =>
      cases hstep
      exact complete_balanced hbefore hguard
    | deleteFile fileId =>
      cases hstep
      exact deleteFile_balanced hbefore fileId
  intro select
  rw [h.balance select]
  refine ⟨sum_nonneg fun x hx => ?_, fun hnone => ?_⟩
  · obtain ⟨v, -, rfl⟩ := mem_map.mp hx
    rw [weight]
    split
    · exact Int.natCast_nonneg _
    · exact le_rfl
  · have hversions : books.versions = [] := by
      refine eq_nil_iff_forall_not_mem.mpr fun v hv => ?_
      have hhoused := h.housed v hv
      rw [hnone] at hhoused
      cases hhoused
    rw [hversions]
    rfl

/-- An account uploads `size` bytes under the key, to a new file or to the one named. -/
def upload (principal key : String) (fileId : Option String) (size : Nat) : Step :=
  .complete {
    session := {
      uploadSessionId := key, status := .in_progress, policy := "docs", fileId := fileId
      fileName := "notes", mimeType := "text/plain", size := size, uploadMode := .proxy
      totalParts := 1, storageKey := key, storageUploadId := none, ownerId := principal
      tenantId := none, uploadSessionTokenHash := none, completionVersionId := none
      expiresAt := 0 }
    caller := ⟨some principal, none, none⟩
    newFileId := "file_" ++ key
    versionId := key
    checksum := none
    existingStorageKey := none }

/-- Ada uploads a file, the writer a version of it, and the file is deleted. -/
def lifetime (writer : String) : List Step :=
  [upload "ada" "a" none 5, upload writer "b" (some "file_a") 10, .deleteFile "file_a"]

theorem quota_balances_ada : ∃ books,
    run (step sampleConfig) ⟨[], [], []⟩ (lifetime "ada") = some books ∧ QuotaBalances books :=
  ⟨_, rfl, quota_balances sampleConfig (lifetime "ada") rfl (by decide)⟩

/-- Bob's version of Ada's file is charged to Bob and credited to Ada. -/
theorem overdrawn_ada : ∃ books,
    run (step sampleConfig) ⟨[], [], []⟩ (lifetime "bob") = some books ∧ ¬ QuotaBalances books :=
  ⟨_, rfl, fun h => absurd (h fun principal _ => principal = some "ada").1 (by decide)⟩

end SuperFunctions.Filefn.QuotaBalance
